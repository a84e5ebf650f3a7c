import EmbyxManager.Merge.Uploads
/-!
# Which file stands in for the merged one

Replacing moves the staged file into the intake route and gives the rest up once a file
of its name is there. CloudDrive skips a move whose target name is taken, leaves both
files where they are and reports success; so a file that had the name before passes for
the merged one.

Where the name is free, or the merged file's own, before the first pass, no pass gives up
anything but for the merged file.
-/

namespace EmbyxManager.Merge
open Atom Prog

/-! ## CloudDrive's files -/

structure Stored where
  size : Int
  sha1 : String
  deriving DecidableEq

abbrev Files := List (Path × Stored)

/-- What an action does to the files, and what it may say of them; a move skips a name that is taken. -/
def cloudAnswers (files files' : Files) : (op : Op) → Except Exc (Res op) → Prop
  | .statFile _ p, r =>
    files' = files ∧ ∀ found : Option CloudFile, r = .ok found → found.map (·.size) = (files.lookup p).map (·.size)
  | .listDirectory _ dir, r =>
    files' = files ∧ ∀ entries : List CloudFile, r = .ok entries → ∀ p,
      p ∈ (entries.filter (!·.isDirectory)).map (·.fullPath) ↔ p.dropLast = dir ∧ (files.lookup p).isSome
  | .moveFile _ file dir, r =>
    if (files.lookup (dir ++ [file.getLastD ""])).isSome then
      files' = files ∧ ∀ moved : CloudResult, r = .ok moved → moved.success = true
    else
      (files' = files ∧ ∀ moved : CloudResult, r = .ok moved → moved.success = false) ∨
        ∃ f, files.lookup file = some f ∧ files' = (dir ++ [file.getLastD ""], f) :: files.filter (·.1 ≠ file) ∧
          ∀ moved : CloudResult, r = .ok moved → moved.success = true
  | .deleteFiles _ (.parts remaining), _ =>
    ∃ gone : Path → Bool, (∀ p, gone p = true → p ∈ remaining) ∧ files' = files.filter fun e => !gone e.1
  | .deleteFiles _ (.stagingDir dir), _ | .deleteFiles _ (.targetDir dir), _ =>
    ∃ gone : Path → Bool, (∀ p, gone p = true → dir <+: p) ∧ files' = files.filter fun e => !gone e.1
  | _, _ => files' = files

/-- The row, the files, and every action with the files it found, newest first. -/
structure Passing where
  row : MergeTask
  files : Files
  done : List (Op × Files)

namespace Passing

def answers : Env Res Exc Passing := fun s op r s' =>
  raisesOutside r ∧ rowAnswers s.row s'.row op r ∧ cloudAnswers s.files s'.files op r ∧ s'.done = (op, s.files) :: s.done

/-- Passes over a task that is replacing, each stopped anywhere, and retries in between. -/
inductive Reach (m : MergeService) (s : Passing) : Passing → Prop
  | start : Reach m s s
  | pass {s' s''} : Reach m s s' → s'.row.state = .replacing → Stops answers s' (step m s'.row) s'' → Reach m s s''
  | retry {s' s''} : Reach m s s' → Stops answers s' (discard (Merge.retry m s'.row.id)) s'' → Reach m s s''

end Passing

/-- Deletes the staging folder or the local output, or takes the task to `archiving`. -/
def Op.givesUp : Op → Bool
  | .deleteFiles _ (.stagingDir _) | .unlink _ .output | .transition _ _ .archiving _ => true
  | _ => false

/-- The file has the merged file's size and SHA-1. -/
def Verified (row : MergeTask) (f : Stored) : Prop := some f.size = row.mergedBytes ∧ some f.sha1 = row.mergedSha1

/-- Where the merged file is filed. -/
def targetFile (row : MergeTask) (paths : MergePaths) : Path := paths.targetDir ++ [row.mergedName]

/-- Nothing was given up but while the merged file stood under its name. -/
def FiledVerified (row : MergeTask) (paths : MergePaths) (done : List (Op × Files)) : Prop :=
  ∀ op before, (op, before) ∈ done → op.givesUp = true → ∃ f, before.lookup (targetFile row paths) = some f ∧ Verified row f

theorem lookup_filter (files : Files) (gone : Path → Bool) (p : Path) :
    (files.filter fun e => !gone e.1).lookup p = if gone p then none else files.lookup p := by
  induction files with
  | nil => simp
  | cons e files ih =>
    obtain ⟨q, f⟩ := e
    by_cases hq : gone q = true
    · rw [List.filter_cons_of_neg (by simpa using hq), ih]
      by_cases hp : p = q
      · subst hp
        rw [if_pos hq, if_pos hq]
      · rw [List.lookup_cons, beq_false_of_ne hp]
    · rw [List.filter_cons_of_pos (by simpa using hq), List.lookup_cons, List.lookup_cons, ih]
      by_cases hp : p = q
      · subst hp
        simp [hq]
      · simp [beq_false_of_ne hp]

/-! ## One action -/

section step
variable {m : MergeService} {row : MergeTask} {paths : MergePaths} {s s' : Passing} {op : Op} {r : Except Exc (Res op)}

/-- What a pass relies on: whatever is staged, or has the target's name, is the merged file. -/
structure Filing (m : MergeService) (row : MergeTask) (paths : MergePaths) (s : Passing) : Prop where
  id : s.row.id = row.id
  bytes : s.row.mergedBytes = row.mergedBytes
  sha1 : s.row.mergedSha1 = row.mergedSha1
  name : s.row.mergedName = row.mergedName
  known : mergePaths m s.row = .ok paths
  failed : s.row.state = .failed → s.row.failedState = some .replacing
  staged : ∀ f, s.files.lookup paths.stagedFile = some f → Verified row f
  target : ∀ f, s.files.lookup (targetFile row paths) = some f → Verified row f
  filed : FiledVerified row paths s.done

/-- The merged file stands under its name. -/
def Filed (row : MergeTask) (paths : MergePaths) (s : Passing) : Prop := (s.files.lookup (targetFile row paths)).isSome

/-- The columns of the check are left alone, and a failure says that it was the filing. -/
def Columns (state : Option MergeState) (f : Fields) : Prop :=
  f.mergedBytes = none ∧ f.mergedSha1 = none ∧
    match state with
    | none => f.failedState = none
    | some .failed => f.failedState = some (some .replacing)
    | some _ => True

/-- What an action needs of the state it is taken in. -/
def Replacing (row : MergeTask) (paths : MergePaths) (s : Passing) : Op → Prop
  | .moveFile _ file dir => file = paths.stagedFile ∧ dir = paths.targetDir
  | .deleteFiles _ (.stagingDir dir) => dir = paths.stagingDir ∧ Filed row paths s
  | .unlink _ .output => Filed row paths s
  | .transition _ _ state f => Columns (some state) f ∧ (state = .archiving → Filed row paths s)
  | .update _ f => Columns none f
  | _ => True

theorem stagedFile_of_paths (h : mergePaths m row = .ok paths) : paths.stagedFile = paths.stagingDir ++ [row.mergedName] := by
  unfold mergePaths at h
  cases hs : m.archive.srcDir with
  | none =>
    rw [hs] at h
    cases h
  | some dir =>
    rw [hs] at h
    cases ha : apiPath dir m.merge.cloudMountPrefix with
    | error e =>
      simp only [ha] at h
      cases h
    | ok intake =>
      cases hp : row.parts.mapM fun part => apiPath part m.merge.cloudMountPrefix with
      | error e =>
        simp only [ha, hp] at h
        cases h
      | ok parts =>
        simp only [ha, hp] at h
        cases h
        rfl

theorem failed_written {was now : MergeTask} {state : Option MergeState} {f : Fields} {time : Time}
    (hwas : was.state = .failed → was.failedState = some .replacing) (hc : Columns state f)
    (hnow : now = was.written time state f) : now.state = .failed → now.failedState = some .replacing := by
  subst hnow
  intro hs
  rw [written_failedState]
  cases state with
  | none =>
    rw [hc.2.2, Option.getD_none]
    exact hwas hs
  | some state =>
    obtain rfl : state = .failed := hs
    rw [hc.2.2]
    rfl

/-- The name, the paths and what the check found survive every write. -/
theorem row_kept (hf : Filing m row paths s) (hg : Replacing row paths s op) (ha : rowAnswers s.row s'.row op r) :
    s'.row.mergedBytes = row.mergedBytes ∧ s'.row.mergedSha1 = row.mergedSha1 ∧ s'.row.mergedName = row.mergedName ∧
      (s'.row.state = .failed → s'.row.failedState = some .replacing) := by
  have wrote : ∀ {state f now}, Columns state f → s'.row = s.row.written now state f →
      s'.row.mergedBytes = row.mergedBytes ∧ s'.row.mergedSha1 = row.mergedSha1 ∧ s'.row.mergedName = row.mergedName ∧
        (s'.row.state = .failed → s'.row.failedState = some .replacing) := by
    intro state f now hc hrow
    refine ⟨?_, ?_, ?_, failed_written hf.failed hc hrow⟩
    · rw [hrow, written_mergedBytes, hc.1, Option.getD_none]
      exact hf.bytes
    · rw [hrow, written_mergedSha1, hc.2.1, Option.getD_none]
      exact hf.sha1
    · rw [hrow]
      exact hf.name
  rcases row_cases ha with hrow | ⟨e, t, f, now, rfl, -, hrow⟩ | ⟨f, now, rfl, hrow⟩
  · rw [hrow]
    exact ⟨hf.bytes, hf.sha1, hf.name, hf.failed⟩
  · exact wrote hg.1 hrow
  · exact wrote (show Columns none f from hg) hrow

/-- A file is where it was, or is the staged one under the target's name, or is gone. -/
theorem lookup_after (hf : Filing m row paths s) (hg : Replacing row paths s op) (ha : cloudAnswers s.files s'.files op r)
    {p : Path} {f : Stored} (hp : s'.files.lookup p = some f) :
    s.files.lookup p = some f ∨ p = targetFile row paths ∧ s.files.lookup paths.stagedFile = some f := by
  have same : s'.files = s.files → s.files.lookup p = some f := fun h => h ▸ hp
  have dropped : ∀ (gone : Path → Bool) {files : Files}, (files.filter fun e => !gone e.1).lookup p = some f →
      files.lookup p = some f := by
    intro gone files h
    rw [lookup_filter] at h
    split at h
    · cases h
    · exact h
  cases op with
  | statFile | listDirectory => exact .inl (same ha.1)
  | moveFile id file dir =>
    obtain ⟨rfl, rfl⟩ := hg
    have hname : paths.stagedFile.getLastD "" = row.mergedName := by
      rw [stagedFile_of_paths hf.known, hf.name]
      simp
    simp only [cloudAnswers, hname] at ha
    split at ha
    · exact .inl (same ha.1)
    · rcases ha with ⟨h, -⟩ | ⟨f', hf', h, -⟩
      · exact .inl (same h)
      · rw [h, List.lookup_cons] at hp
        -- the move puts the staged file under the target's name and leaves the rest
        by_cases hpt : p = paths.targetDir ++ [row.mergedName]
        · subst hpt
          rw [beq_self_eq_true] at hp
          cases hp
          exact .inr ⟨rfl, hf'⟩
        · rw [beq_false_of_ne hpt] at hp
          have hkept : (s.files.filter fun e => !decide (e.1 = paths.stagedFile)).lookup p = some f := by simpa using hp
          exact .inl (dropped (fun q => decide (q = paths.stagedFile)) hkept)
  | deleteFiles id what =>
    cases what with
    | parts | stagingDir | targetDir =>
      obtain ⟨gone, -, h⟩ := ha
      rw [h] at hp
      exact .inl (dropped gone hp)
  | _ => exact .inl (same ha)

theorem filing_step (hf : Filing m row paths s) (hg : Replacing row paths s op) (ht : Passing.answers s op r s') :
    Filing m row paths s' := by
  obtain ⟨-, hrow, hcloud, hdone⟩ := ht
  obtain ⟨hbytes, hsha1, hname, hfailed⟩ := row_kept hf hg hrow
  obtain ⟨hid, -, hpaths⟩ := row_same (m := m) hrow
  refine ⟨hid.trans hf.id, hbytes, hsha1, hname, hpaths.trans hf.known, hfailed,
    fun f hp => ?_, fun f hp => ?_, fun op' before hmem hup => ?_⟩
  · rcases lookup_after hf hg hcloud hp with hp | ⟨-, hp⟩
    · exact hf.staged f hp
    · exact hf.staged f hp
  · rcases lookup_after hf hg hcloud hp with hp | ⟨-, hp⟩
    · exact hf.target f hp
    · exact hf.staged f hp
  · rw [hdone] at hmem
    rcases List.mem_cons.1 hmem with heq | hmem
    · cases heq
      have hfiled : Filed row paths s := by
        unfold Op.givesUp at hup
        split at hup
        · exact hg.2
        · exact hg
        · exact hg.2 rfl
        · cases hup
      obtain ⟨f, hp⟩ := Option.isSome_iff_exists.1 hfiled
      exact ⟨f, hp, hf.target f hp⟩
    · exact hf.filed op' before hmem hup

/-! ## One pass -/

/-- Legal whatever is filed. -/
def Idle : Op → Prop
  | .moveFile .. | .deleteFiles _ (.stagingDir _) | .unlink _ .output => False
  | .transition _ _ state f => Columns (some state) f ∧ state ≠ .archiving
  | .update _ f => Columns none f
  | _ => True

/-- Legal once the merged file is filed, and leaves it there. -/
def Closing (paths : MergePaths) : Op → Prop
  | .deleteFiles _ (.stagingDir dir) => dir = paths.stagingDir
  | .transition _ _ state f => Columns (some state) f
  | .unlink .. | .trigger _ => True
  | _ => False

theorem replacing_of_idle (hop : Idle op) : Replacing row paths s op := by
  unfold Idle at hop
  split at hop
  · exact hop.elim
  · exact hop.elim
  · exact hop.elim
  · exact ⟨hop.1, fun h => absurd h hop.2⟩
  · exact hop
  · rename_i hmove hstaging hunlink htransition hupdate
    unfold Replacing
    split
    · exact (hmove _ _ _ rfl).elim
    · exact (hstaging _ _ rfl).elim
    · exact (hunlink _ rfl).elim
    · exact (htransition _ _ _ _ rfl).elim
    · exact (hupdate _ _ rfl).elim
    · trivial

theorem replacing_of_closing (hop : Closing paths op) (hd : Filed row paths s) : Replacing row paths s op := by
  cases op with
  | deleteFiles id what =>
    cases what with
    | stagingDir dir => exact ⟨hop, hd⟩
    | parts | targetDir => exact hop.elim
  | transition id e state f => exact ⟨hop, fun _ => hd⟩
  | unlink id file =>
    cases file with
    | output => exact hd
    | partialFile | status => trivial
  | trigger => trivial
  | _ => exact hop.elim

/-- Neither the staging folder nor a local file has the target in it. -/
theorem filed_closing (hout : ¬ paths.stagingDir <+: targetFile row paths) (hop : Closing paths op) (hd : Filed row paths s)
    (ht : Passing.answers s op r s') : Filed row paths s' := by
  obtain ⟨-, -, ha, -⟩ := ht
  unfold Filed
  cases op with
  | deleteFiles id what =>
    cases what with
    | stagingDir dir =>
      obtain rfl : dir = paths.stagingDir := hop
      obtain ⟨gone, hgone, h⟩ := ha
      rw [h, lookup_filter, if_neg fun hg => hout (hgone _ hg)]
      exact hd
    | parts | targetDir => exact hop.elim
  | transition | unlink | trigger =>
    have ha : s'.files = s.files := ha
    rw [ha]
    exact hd
  | _ => exact hop.elim

end step

section pass
variable {m : MergeService} {row task : MergeTask} {paths : MergePaths} {s : Passing} {α : Type}

/-- The program keeps what a pass relies on, raising or not. -/
abbrev KeepsFiling (m : MergeService) (row : MergeTask) (paths : MergePaths) (p : M α) : Prop :=
  p.Keeps Passing.answers (Replacing row paths) (Filing m row paths) fun _ => Filing m row paths

theorem keeps_idle {p : M α} (hp : Uses Idle p) : KeepsFiling m row paths p :=
  keeps_of_uses hp (fun _ _ hop _ => replacing_of_idle hop) fun _ _ _ _ hop hf ht =>
    filing_step hf (replacing_of_idle hop) ht

theorem keeps_closing {p : M α} (hout : ¬ paths.stagingDir <+: targetFile row paths) (hp : Uses (Closing paths) p) :
    p.Keeps Passing.answers (Replacing row paths) (fun s => Filing m row paths s ∧ Filed row paths s)
      fun _ s => Filing m row paths s ∧ Filed row paths s :=
  keeps_of_uses hp (fun _ _ hop hf => replacing_of_closing hop hf.2) fun _ _ _ _ hop hf ht =>
    ⟨filing_step hf.1 (replacing_of_closing hop hf.2) ht, filed_closing hout hop hf.2 ht⟩

/-- One action, and what comes after it. -/
theorem wp_kept {op : Op} {Q : Res op → Passing → Prop} (hf : Filing m row paths s) (hg : Replacing row paths s op)
    (hQ : ∀ x s', Passing.answers s op (.ok x) s' → Filing m row paths s' → Q x s') :
    wp Passing.answers (Replacing row paths) (ask op) Q (fun _ => Filing m row paths) s := by
  unfold ask
  rw [wp_call]
  exact ⟨hg, fun x s' ht => hQ x s' ht (filing_step hf hg ht), fun _ _ ht => filing_step hf hg ht⟩

/-- The filing gives up the rest only once a file stands under the target's name. -/
theorem wp_moveIntoIntake (hout : ¬ paths.stagingDir <+: targetFile row paths) (hname : task.mergedName = row.mergedName)
    (hf : Filing m row paths s) :
    wp Passing.answers (Replacing row paths) (moveIntoIntake task paths) (fun _ => Filing m row paths)
      (fun _ => Filing m row paths) s := by
  unfold moveIntoIntake
  refine (wp_bind _ _).2 (wp_kept hf trivial fun _ s₁ _ hf₁ => (wp_bind _ _).2 ?_)
  refine wp_kept hf₁ trivial fun _ s₂ _ hf₂ => (wp_bind _ _).2 ?_
  refine wp_kept hf₂ trivial fun staged s₃ _ hf₃ => ?_
  have rest : ∀ (moved : CloudResult) s, Filing m row paths s →
      wp Passing.answers (Replacing row paths) (do
        if !moved.success then
          update task {
            notice := some (some (if moved.errorMessage = "" then "the move was refused" else moved.errorMessage)) }
        else if (← ask (.statFile task.id (paths.targetDir ++ [task.mergedName]))).isNone then
          fail s!"the merged file is neither in {shown paths.stagingDir} nor in {shown paths.targetDir}"
        else
          suppress (discard (ask (.deleteFiles task.id (.stagingDir paths.stagingDir))))
          unlink task .output
          unlink task .partialFile
          unlink task .status
          if (← transition task .replacing .archiving { notice := some none }).isSome then ask (.trigger .archive) : M Unit)
        (fun _ => Filing m row paths) (fun _ => Filing m row paths) s := by
    intro moved s hf
    refine wp_ite (fun _ => ?_) fun _ => (wp_bind _ _).2 ?_
    · exact keeps_idle (uses_update ⟨rfl, rfl, rfl⟩) s hf
    refine wp_kept hf trivial fun found s' ht hf' => wp_ite (fun _ => hf') fun hsome => ?_
    -- the look that found the file is the last before anything is deleted
    have hfiled : Filed row paths s' := by
      obtain ⟨-, -, ⟨hfiles, hfound⟩, -⟩ := ht
      have hsize := hfound found rfl
      unfold Filed targetFile
      rw [hfiles, ← hname]
      cases hl : s.files.lookup (paths.targetDir ++ [task.mergedName]) with
      | none =>
        rw [hl] at hsize
        cases found with
        | none => exact absurd rfl hsome
        | some file => cases hsize
      | some f => rfl
    -- what comes then only closes: the target is not below the staging folder
    have closing : Uses (Closing paths) (do
        suppress (discard (ask (.deleteFiles task.id (.stagingDir paths.stagingDir))))
        unlink task .output
        unlink task .partialFile
        unlink task .status
        if (← transition task .replacing .archiving { notice := some none }).isSome then ask (.trigger .archive) : M Unit) := by
      refine uses_bind (uses_suppress (uses_discard (uses_ask rfl))) fun _ => uses_bind (uses_unlink trivial) fun _ => ?_
      refine uses_bind (uses_unlink trivial) fun _ => uses_bind (uses_unlink trivial) fun _ => ?_
      exact uses_bind (uses_transition ⟨rfl, rfl, trivial⟩) fun moved => uses_ite (uses_ask trivial) trivial
    exact wp_mono (keeps_closing hout closing s' ⟨hf', hfiled⟩) (fun _ _ h => h.1) fun _ _ h => h.1
  split
  · refine (wp_bind _ _).2 ?_
    exact wp_kept hf₃ ⟨rfl, rfl⟩ fun moved s₄ _ hf₄ => rest moved s₄ hf₄
  · refine (wp_bind _ _).2 ?_
    exact rest ⟨true, ""⟩ s₃ hf₃

theorem keeps_replace (hout : ¬ paths.stagingDir <+: targetFile row paths) (hname : task.mergedName = row.mergedName) :
    KeepsFiling m row paths (replace m task paths) := by
  have present : ∀ files, KeepsFiling m row paths (present pathLe task files) :=
    fun _ => keeps_idle (uses_present fun _ => trivial)
  unfold replace
  refine keeps_bind (keeps_idle uses_requireCloud) fun _ => keeps_bind (present _) fun remaining => ?_
  intro s hf
  refine wp_ite (fun _ => wp_moveIntoIntake hout hname hf) fun _ => ?_
  have deleted : KeepsFiling m row paths (ask (.deleteFiles task.id (.parts remaining))) := keeps_idle (uses_ask trivial)
  refine keeps_bind deleted (fun result => keeps_bind (present _) fun remaining => ?_) s hf
  intro s hf
  refine wp_ite (fun _ => wp_moveIntoIntake hout hname hf) fun _ => ?_
  exact keeps_idle (uses_update ⟨rfl, rfl, rfl⟩) s hf

theorem wp_pass (hout : ¬ paths.stagingDir <+: targetFile row paths) (hs : s.row.state = .replacing)
    (hf : Filing m row paths s) :
    wp Passing.answers (Replacing row paths) (step m s.row) (fun _ => Filing m row paths) (fun _ => Filing m row paths) s := by
  have caught : ∀ (r : Except Exc Unit), KeepsFiling m row paths (stepped s.row r) := by
    intro r
    refine keeps_idle ?_
    cases r with
    | ok u => trivial
    | error e =>
      cases e with
      | failed text => exact uses_discard (uses_transition ⟨⟨rfl, rfl, by rw [hs]⟩, by decide⟩)
      | action | outside => exact uses_update ⟨rfl, rfl, rfl⟩
  unfold step
  rw [wp_bind, wp_attempt, hf.known]
  change wp _ _ (handler m s.row paths) _ _ s
  have handled : KeepsFiling m row paths (handler m s.row paths) := by
    unfold handler
    rw [hs]
    exact keeps_replace hout hf.name
  exact wp_mono (handled s hf) (fun _ s' hf' => caught (.ok ()) s' hf') fun e s' hf' => caught (.error e) s' hf'

/-- A retry takes the filing up again. -/
theorem wp_retried (hf : Filing m row paths s) :
    wp Passing.answers (Replacing row paths) (discard (Merge.retry m s.row.id)) (fun _ => Filing m row paths)
      (fun _ => Filing m row paths) s := by
  refine (wp_discard _).2 ?_
  unfold Merge.retry
  refine (wp_bind _ _).2 (wp_kept hf trivial fun found s' ht hf' => ?_)
  have hfound := (ht.2.1.2 found rfl).1 rfl
  subst hfound
  refine wp_ite (fun _ => hf') fun hfailed => ?_
  have hresume : (s.row.failedState.getD .queued).resume = .replacing := by
    rw [hf.failed (by simpa using hfailed)]
    rfl
  unfold resumed
  dsimp only
  rw [hresume]
  refine keeps_idle ?_ s' hf'
  refine uses_bind (uses_transition ⟨⟨rfl, rfl, trivial⟩, by decide⟩) fun r => ?_
  split <;> trivial

end pass

/-! ## Every sequence of passes -/

theorem filing_of_reach {m : MergeService} {s s' : Passing} {paths : MergePaths} (hr : Passing.Reach m s s')
    (hout : ¬ paths.stagingDir <+: targetFile s.row paths) (hf : Filing m s.row paths s) : Filing m s.row paths s' := by
  induction hr with
  | start => exact hf
  | pass _ hs hstops ih => exact wp_stops (fun _ _ _ _ hf hg ht => filing_step hf hg ht) (wp_pass hout hs ih) ih hstops
  | retry _ hstops ih => exact wp_stops (fun _ _ _ _ hf hg ht => filing_step hf hg ht) (wp_retried ih) ih hstops

/-- However the passes are stopped: where whatever is staged or has the merged file's name is the merged file,
nothing is given up but while the merged file stands under its name. -/
theorem merged_survives (m : MergeService) (s s' : Passing) (paths : MergePaths) (hp : mergePaths m s.row = .ok paths)
    (hs : s.row.state = .replacing) (hdone : s.done = []) (hout : ¬ paths.stagingDir <+: targetFile s.row paths)
    (hstaged : ∀ f, s.files.lookup paths.stagedFile = some f → Verified s.row f)
    (htarget : ∀ f, s.files.lookup (targetFile s.row paths) = some f → Verified s.row f) (hr : Passing.Reach m s s') :
    FiledVerified s.row paths s'.done := by
  refine (filing_of_reach hr hout ⟨rfl, rfl, rfl, rfl, hp, fun h => ?_, hstaged, htarget, fun op before hmem => ?_⟩).filed
  · rw [hs] at h
    cases h
  · rw [hdone] at hmem
    cases hmem

/-! ## A download of the same title -/

namespace TargetExample
open Example

def replacing : MergeTask := { task with state := .replacing, mergedBytes := some 2, mergedSha1 := some "A9" }

def staged : Path := ["115", "upload", "merge-1", "ABC-123.mp4"]

def target : Path := ["115", "clt", "vr", "ABC-123", "ABC-123.mp4"]

def listed (e : Path × Stored) : CloudFile := ⟨e.1.getLastD "", e.1, e.2.size, false, []⟩

def took (s : Passing) (op : Op) (files : Files) : Passing := ⟨s.row, files, (op, s.files) :: s.done⟩

def serveFiles (s : Passing) : (op : Op) → Except Exc (Res op) × Passing
  | .statFile id p => (.ok ((s.files.lookup p).map fun f => listed (p, f)), took s (.statFile id p) s.files)
  | .listDirectory id dir =>
    (.ok ((s.files.filter (·.1.dropLast = dir)).map listed), took s (.listDirectory id dir) s.files)
  | .moveFile id file dir =>
    let moved := match s.files.lookup (dir ++ [file.getLastD ""]), s.files.lookup file with
      | none, some f => (dir ++ [file.getLastD ""], f) :: s.files.filter (·.1 ≠ file)
      | _, _ => s.files
    (.ok ⟨(s.files.lookup (dir ++ [file.getLastD ""])).isSome || (s.files.lookup file).isSome, ""⟩,
      took s (.moveFile id file dir) moved)
  | .deleteFiles id what =>
    let gone : Path → Bool := match what with
      | .parts remaining => remaining.contains
      | .stagingDir dir | .targetDir dir => dir.isPrefixOf
    (.ok ⟨true, ""⟩, took s (.deleteFiles id what) (s.files.filter fun e => !gone e.1))
  | op =>
    let (r, h) := Example.serve ⟨s.row, []⟩ op
    (r, ⟨h.row, s.files, (op, s.files) :: s.done⟩)

theorem mem_listed {files : Files} {dir p : Path} :
    p ∈ (((files.filter (·.1.dropLast = dir)).map listed).filter (!·.isDirectory)).map (·.fullPath) ↔
      p.dropLast = dir ∧ (files.lookup p).isSome := by
  have hsome : (files.lookup p).isSome ↔ ∃ f, (p, f) ∈ files := by
    induction files with
    | nil => simp
    | cons e files ih =>
      obtain ⟨q, f⟩ := e
      rw [List.lookup_cons]
      by_cases hp : p = q
      · subst hp
        simp
      · simp [beq_false_of_ne hp, ih, hp]
  rw [hsome]
  simp [listed]
  grind

theorem answers_row (s : Passing) (op : Op) (hc : cloudAnswers s.files s.files op (Example.serve ⟨s.row, []⟩ op).1) :
    Passing.answers s op (Example.serve ⟨s.row, []⟩ op).1 ⟨(Example.serve ⟨s.row, []⟩ op).2.row, s.files, (op, s.files) :: s.done⟩ :=
  ⟨(serve_answers ⟨s.row, []⟩ op).1, (serve_answers ⟨s.row, []⟩ op).2.1, hc, rfl⟩

theorem serveFiles_answers (s : Passing) (op : Op) : Passing.answers s op (serveFiles s op).1 (serveFiles s op).2 := by
  cases op with
  | statFile id p =>
    refine ⟨fun e he => (nomatch he), rfl, ⟨rfl, ?_⟩, rfl⟩
    rintro found ⟨⟩
    cases s.files.lookup p <;> rfl
  | listDirectory id dir =>
    refine ⟨fun e he => (nomatch he), rfl, ⟨rfl, ?_⟩, rfl⟩
    rintro entries ⟨⟩ p
    exact mem_listed
  | moveFile id file dir =>
    refine ⟨fun e he => (nomatch he), rfl, ?_, rfl⟩
    simp only [cloudAnswers, serveFiles, took]
    cases ht : s.files.lookup (dir ++ [file.getLastD ""]) with
    | some f => exact ⟨rfl, by rintro moved ⟨⟩; rfl⟩
    | none =>
      cases hf : s.files.lookup file with
      | none => exact .inl ⟨rfl, by rintro moved ⟨⟩; rfl⟩
      | some f => exact .inr ⟨f, rfl, rfl, by rintro moved ⟨⟩; rfl⟩
  | deleteFiles id what =>
    cases what with
    | parts remaining =>
      exact ⟨fun e he => (nomatch he), rfl, ⟨remaining.contains, fun p hp => by simpa using hp, rfl⟩, rfl⟩
    | stagingDir dir | targetDir dir =>
      exact ⟨fun e he => (nomatch he), rfl, ⟨dir.isPrefixOf, fun p hp => by simpa using hp, rfl⟩, rfl⟩
  | _ => exact answers_row s _ rfl

/-- One whole pass over the files of the intake and the staging folder. -/
def filedAway (files : Files) : Passing :=
  (Prog.exec serveFiles ⟨replacing, files, []⟩ (step service replacing)).2

theorem reach_filedAway (files : Files) : Passing.Reach service ⟨replacing, files, []⟩ (filedAway files) :=
  .pass .start rfl (exec_runs serveFiles_answers _ _).stops

/-- Something was given up while no file of this SHA-1 had the name. -/
def losesSha1 (sha1 : String) (p : Path) (done : List (Op × Files)) : Bool :=
  done.any fun e => e.1.givesUp && (e.2.lookup p).all (·.sha1 ≠ sha1)

theorem not_filedVerified {row : MergeTask} {paths : MergePaths} {done : List (Op × Files)} {sha1 : String}
    (hrow : row.mergedSha1 = some sha1) (h : losesSha1 sha1 (targetFile row paths) done = true) :
    ¬ FiledVerified row paths done := by
  intro hv
  obtain ⟨⟨op, before⟩, hmem, h⟩ := List.any_eq_true.1 h
  obtain ⟨hup, hall⟩ := (Bool.and_eq_true _ _).mp h
  obtain ⟨f, hf, -, hsha⟩ := hv op before hmem hup
  dsimp only at hall
  rw [hf] at hall
  rw [hrow] at hsha
  simp only [Option.all_some, decide_eq_true_eq] at hall
  exact hall (Option.some.inj hsha)

def whole : Stored := ⟨2, "A9"⟩

def older : Stored := ⟨1, "B0"⟩

open Example in
/-- Where the files are looked for, and what becomes of them where the name is free and where it is taken. -/
theorem filedAway_ends :
    ((mergePaths service replacing).toOption.map fun paths => (paths.stagedFile, targetFile replacing paths)) = some (staged, target) ∧
      (filedAway [(staged, whole)]).row.state = .archiving ∧ (filedAway [(staged, whole)]).files = [(target, whole)] ∧
      losesSha1 "A9" target (filedAway [(staged, whole), (target, older)]).done = true := by
  with_unfolding_all decide

end TargetExample

open TargetExample Example in
theorem merged_survives_move : ∃ paths, (filedAway [(staged, whole)]).row.state = .archiving ∧
    (filedAway [(staged, whole)]).files = [(target, whole)] ∧
    FiledVerified replacing paths (filedAway [(staged, whole)]).done := by
  obtain ⟨hpaths, hstate, hfiles, -⟩ := filedAway_ends
  obtain ⟨paths, hp, hd⟩ := Option.map_eq_some_iff.1 hpaths
  injection hd with hstaged htarget
  refine ⟨paths, hstate, hfiles, ?_⟩
  have hp : mergePaths service replacing = .ok paths := UploadsExample.ok_of_toOption hp
  have hdir := stagedFile_of_paths hp
  refine merged_survives service ⟨replacing, [(staged, whole)], []⟩ _ paths hp rfl rfl ?_ ?_ ?_ (reach_filedAway _)
  · intro hpre
    have hlast : paths.stagingDir = staged.dropLast := by
      rw [← hstaged, hdir]
      simp
    rw [hlast, htarget] at hpre
    exact absurd hpre (by decide)
  · intro f hf
    rw [hstaged] at hf
    obtain rfl : whole = f := by simpa using hf
    exact ⟨rfl, rfl⟩
  · intro f hf
    rw [htarget] at hf
    cases hf

open TargetExample Example in
/-- The name is taken: the download stays, and the only whole copy is deleted. -/
theorem merged_lost : ∃ s s' paths, mergePaths service s.row = .ok paths ∧ s.row.state = .replacing ∧ s.done = [] ∧
    (s.files.lookup paths.stagedFile).isSome ∧ (∀ f, s.files.lookup paths.stagedFile = some f → Verified s.row f) ∧
    Passing.Reach service s s' ∧ ¬ FiledVerified s.row paths s'.done := by
  obtain ⟨hpaths, -, -, hlost⟩ := filedAway_ends
  obtain ⟨paths, hp, hd⟩ := Option.map_eq_some_iff.1 hpaths
  injection hd with hstaged htarget
  refine ⟨⟨replacing, [(staged, whole), (target, older)], []⟩, _, paths, UploadsExample.ok_of_toOption hp, rfl, rfl, ?_, ?_,
    reach_filedAway _, ?_⟩
  · rw [hstaged]
    decide
  · intro f hf
    rw [hstaged] at hf
    obtain rfl : whole = f := by simpa using hf
    exact ⟨rfl, rfl⟩
  · refine not_filedVerified rfl ?_
    rw [htarget]
    exact hlost

end EmbyxManager.Merge
