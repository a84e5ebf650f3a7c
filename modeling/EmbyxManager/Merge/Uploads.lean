import EmbyxManager.Merge.LastCopy
/-!
# Which upload is checked

An upload is known by its destination alone, and every attempt and every merge of a task
uploads into the same folder. A finished copy that CloudDrive still lists is taken for the
upload under way, and so is a staged file of the right size: after a failed check it is
checked once more, and after a lost output it stands for a merge that was never uploaded.

Where CloudDrive shows a finished upload only of those issued since, none is taken twice.
-/

namespace EmbyxManager.Merge
open Atom Prog

/-! ## What was issued -/

/-- An upload into this folder is issued for the task. A copy that CloudDrive refuses is none; one whose answer
is lost may be one. -/
def Mark.issues (id : Int) (dir : Path) : Mark → Bool
  | .did (.copyFile i _ d) (.ok (result : CloudResult)) _ _ => result.success && i = id && d = dir
  | .did (.copyFile i _ d) (.error _) _ _ | .did (.restartCopyTask i _ d) _ _ _ => i = id && d = dir
  | _ => false

/-- The size or the SHA-1 differed, or the staged file was missing. -/
def blamesUpload (text : String) : Bool :=
  ["uploaded size ", "uploaded SHA-1 ", "CloudDrive finished the copy, but "].any fun words => words.toList.isPrefixOf text.toList

/-- The check of the upload failed. -/
def Mark.failsCheck : Mark → Bool
  | .begins _ => false
  | .did _ _ was now => was.state = .verifying && now.state = .failed && now.error.any blamesUpload

/-- How many uploads were issued; they are numbered from one. -/
def issued (id : Int) (dir : Path) (marks : List Mark) : Nat := marks.countP (·.issues id dir)

/-- How many of them came before the last completed merge and the last failed check. -/
def settled (id : Int) (dir : Path) : List Mark → Nat
  | [] => 0
  | k :: marks => if k.completesMerge || k.failsCheck then issued id dir marks else settled id dir marks

/-! ## What CloudDrive shows -/

/-- CloudDrive lists its copies, or shows the staged file. -/
def Mark.shows (id : Int) : Mark → Bool
  | .did (.copyTasks i) _ _ _ | .did (.statFile i _) _ _ _ => i = id
  | _ => false

/-- The history up to the last that CloudDrive showed of the task's uploads. -/
def lastShown (id : Int) (marks : List Mark) : List Mark := marks.dropWhile (!·.shows id)

/-- The latest copy into this folder is finished. -/
def finishedCopy (dir : Path) (entries : List CopyTask) : Bool :=
  (entries.reverse.find? (·.destPath = dir)).any (·.status = .completed)

/-- While the row is uploading, a finished upload is shown: a finished copy, or a staged file as large as the merged one. -/
def Mark.showsFinished (id : Int) (dir : Path) : Mark → Bool
  | .did (.copyTasks i) (.ok (entries : List CopyTask)) was _ => i = id && was.state = .uploading && finishedCopy dir entries
  | .did (.statFile i _) (.ok (staged : Option CloudFile)) was _ =>
    i = id && was.state = .uploading && staged.any (some ·.size = was.mergedBytes)
  | _ => false

section origin
-- the number of the upload that the last answer of a history shows
variable (origin : List Mark → Nat) (id : Int) (dir : Path)

/-- Every finished upload that a tick is shown was issued since the last completed merge and the last failed check. -/
def Forgets : List Mark → Prop
  | [] => True
  | k :: before =>
    (running before = some .tick → k.showsFinished id dir = true → settled id dir before < origin (k :: before)) ∧ Forgets before

/-- The row comes to `verifying` only on an upload that satisfies `P`, of the history before. -/
def Takes (P : List Mark → Prop) (marks : List Mark) : Prop :=
  ∀ op ans was now before, .did op ans was now :: before <:+ marks → was.state ≠ .verifying → now.state = .verifying → P before

/-- The upload that was shown last is one issued since the last completed merge and the last failed check. -/
def ShownAnew (marks : List Mark) : Prop := settled id dir marks < origin (lastShown id marks)

/-- The row comes to `verifying` only on an upload issued since the last completed merge and the last failed check;
so there is one. -/
def TakenAnew : List Mark → Prop := Takes fun before => ShownAnew origin id dir before ∧ settled id dir before < issued id dir before

end origin

section marks
variable {origin : List Mark → Nat} {id : Int} {dir : Path} {op : Op} {ans : Except Exc (Res op)} {was now : MergeTask}
  {marks : List Mark} {k : Mark}

theorem issued_lastShown : issued id dir (lastShown id marks) ≤ issued id dir marks :=
  (List.dropWhile_suffix _).sublist.countP_le

/-- A write that leaves the state alone ends nothing. -/
theorem settled_did (hs : now.state = was.state) :
    settled id dir (.did op ans was now :: marks) = settled id dir marks := by
  have hc : (Mark.did op ans was now).completesMerge = false := by
    simp only [Mark.completesMerge, hs, Bool.and_eq_false_iff, decide_eq_false_iff_not]
    by_cases hm : was.state = .merging
    · exact .inr (by rw [hm]; decide)
    · exact .inl hm
  have hf : (Mark.did op ans was now).failsCheck = false := by
    simp only [Mark.failsCheck, hs, Bool.and_eq_false_iff, decide_eq_false_iff_not]
    by_cases hm : was.state = .verifying
    · exact .inl (.inr (by rw [hm]; decide))
    · exact .inl (.inl hm)
  simp [settled, hc, hf]

theorem shows_of_showsFinished (h : k.showsFinished id dir = true) : k.shows id = true := by
  unfold Mark.showsFinished at h
  split at h
  · exact (Bool.and_eq_true_iff.1 (Bool.and_eq_true_iff.1 h).1).1
  · exact (Bool.and_eq_true_iff.1 (Bool.and_eq_true_iff.1 h).1).1
  · cases h

/-- What a tick has just been shown may be taken. -/
theorem Forgets.shownAnew (h : Forgets origin id dir (.did op ans was was :: marks)) (hr : running marks = some .tick)
    (hf : (Mark.did op ans was was).showsFinished id dir = true) : ShownAnew origin id dir (.did op ans was was :: marks) := by
  unfold ShownAnew lastShown
  rw [settled_did rfl, List.dropWhile_cons_of_neg (by simp [shows_of_showsFinished hf])]
  exact h.1 hr hf

end marks

/-! ## The invariant -/

section step
variable (origin : List Mark → Nat) (id : Int) (dir : Path)

/-- What an action needs of the history it is taken in. -/
def Fresh (h : History) : Op → Prop
  | .transition i expected .verifying _ => i = id → h.row.state = expected → ShownAnew origin id dir h.marks
  | _ => True

/-- A row of this task, and what the uploads CloudDrive forgot make of it. -/
def Keeping (h : History) : Prop :=
  h.row.id = id ∧ (Forgets origin id dir h.marks → Takes (ShownAnew origin id dir) h.marks)

/-- Guarded as long as CloudDrive forgets. -/
def Guarded (h : History) (op : Op) : Prop := Forgets origin id dir h.marks → Fresh origin id dir h op

variable {origin id dir} {h h' : History} {op : Op} {r : Except Exc (Res op)}

theorem keeping_step (hk : Keeping origin id dir h) (hg : Guarded origin id dir h op) (ht : History.answers h op r h') :
    Keeping origin id dir h' := by
  obtain ⟨hid, hk⟩ := hk
  obtain ⟨-, ha, hm⟩ := ht
  refine ⟨(row_id ha).trans hid, fun hf op' ans was now before hsuf hwas hnow => ?_⟩
  rw [hm] at hf hsuf
  rcases List.suffix_cons_iff.1 hsuf with heq | hsuf
  · injection heq with hmark hb
    injection hmark with hop hans hw hn
    subst hb hw hn
    rcases row_cases ha with hrow | ⟨e, s, f, now, rfl, he, hrow⟩ | ⟨f, now, rfl, hrow⟩
    · rw [hrow] at hnow
      exact absurd hnow hwas
    · rw [hrow] at hnow
      obtain rfl : s = .verifying := hnow
      exact hg hf.2 hid he
    · rw [hrow] at hnow
      exact absurd hnow hwas
  · exact hk hf.2 op' ans was now before hsuf hwas hnow

theorem keeping_begun (hk : Keeping origin id dir h) (a : Action) : Keeping origin id dir (h.begun a) := by
  refine ⟨hk.1, fun hf op ans was now before hsuf => ?_⟩
  rcases List.suffix_cons_iff.1 hsuf with heq | hsuf
  · cases heq
  · exact hk.2 hf.2 op ans was now before hsuf

end step

/-! ## Programs that take no upload -/

/-- Legal wherever the row is. -/
def Tame : Op → Prop
  | .transition _ _ .verifying _ => False
  | _ => True

theorem Tame.fresh {origin : List Mark → Nat} {id : Int} {dir : Path} {h : History} {op : Op} (hop : Tame op) :
    Fresh origin id dir h op := by
  unfold Tame at hop
  split at hop
  · exact hop.elim
  · rename_i hv
    unfold Fresh
    split
    · exact (hv _ _ _ rfl).elim
    · trivial

theorem tame_of_looks {op : Op} (hop : op.looks = true) : Tame op := by
  cases op with
  | transition => cases hop
  | _ => trivial

theorem tame_of_drops {id : Int} {op : Op} (hop : Drops id op) : Tame op := by
  cases op with
  | transition => exact hop.elim
  | _ => trivial

/-- Every step but that of an upload is tame. -/
theorem tame_of_steps {id : Int} {s : MergeState} {op : Op} (hop : Steps id s op) (hs : s ≠ .uploading) : Tame op := by
  unfold Tame
  split
  · rename_i e f
    rcases hop with ⟨-, rfl, hmove⟩ | hop | hop
    · cases e <;> first | exact hs rfl | exact hmove.elim
    · cases e <;> exact hop.elim
    · exact hop.elim
  · trivial

/-- Another task's row is nothing to this one. -/
theorem fresh_of_ordinary {origin : List Mark → Nat} {id i : Int} {dir : Path} {h : History} {op : Op} (hop : Ordinary i op)
    (hne : i ≠ id) : Fresh origin id dir h op := by
  unfold Fresh
  split
  · exact fun hj => absurd ((Ordinary.task_eq hop).symm.trans hj) hne
  · trivial

section tame
variable (m : MergeService)

theorem tame_cancel (id : Int) : Uses Tame (cancel m id) := by
  unfold cancel
  refine uses_bind (uses_ask trivial) fun found => ?_
  split
  · trivial
  rename_i task
  refine uses_ite trivial (uses_ite trivial (uses_bind (uses_ofExcept _) fun paths => ?_))
  have rest : Uses Tame (do
      dropFiles m task paths
      cancelRow task) := by
    refine uses_bind (uses_mono uses_dropFiles fun _ => tame_of_drops) fun _ => ?_
    unfold cancelRow
    refine uses_bind (uses_ask trivial) fun time => uses_bind (uses_transition trivial) fun r => ?_
    split <;> trivial
  exact uses_ite (uses_bind (uses_mono uses_discardDuplicate fun _ => tame_of_drops) fun _ => rest) rest

/-- A retry of a check goes back to the upload. -/
theorem tame_retry (id : Int) : Uses Tame (retry m id) := by
  unfold retry
  refine uses_bind (uses_ask trivial) fun found => ?_
  split
  · trivial
  rename_i t
  have rest : Uses Tame (resumed t) := by
    refine uses_bind (uses_transition ?_) fun r => ?_
    · cases t.failedState.getD .queued <;> trivial
    · split <;> trivial
  exact uses_ite trivial (uses_ite (uses_bind (uses_dropJob fun _ => trivial) fun _ => rest) rest)

variable (task : MergeTask) (paths : MergePaths)

theorem tame_issueCopy : Uses Tame (issueCopy task paths) :=
  uses_ite trivial (uses_bind (uses_ask trivial) fun _ => uses_bind (uses_ask trivial) fun _ => uses_update trivial)

theorem tame_restartCopy (sourcePath : Path) (why : String) : Uses Tame (restartCopy task paths sourcePath why) :=
  uses_bind (uses_ask trivial) fun _ => uses_update trivial

theorem tame_handledFatalUpload (sourcePath : Path) : Uses Tame (handledFatalUpload task paths sourcePath) := by
  unfold handledFatalUpload
  refine uses_bind (uses_ask trivial) fun fatal => ?_
  cases fatal with
  | none => trivial
  | some fatal =>
    have hjudged : Uses Tame (judgedAnew task fatal) := uses_ite trivial (uses_bind (uses_ask trivial) fun _ => trivial)
    refine uses_ite trivial (uses_bind hjudged fun again => uses_ite (uses_bind ?_ fun _ => trivial) trivial)
    exact tame_restartCopy task paths sourcePath fatal

/-- The rest of a tick that watches the upload, where no copy is listed as finished and no staged file is there. -/
theorem tame_copying (copy : CopyTask) : Uses Tame (if copy.status = .failed then
      let joined := "; ".intercalate copy.errors
      let errors := if joined = "" then "CloudDrive reported the copy as failed" else joined
      if task.uploadAttempts ≥ maxUploadAttempts then fail s!"upload failed {task.uploadAttempts} times: {errors}"
      else restartCopy task paths copy.sourcePath errors
    else do
      let handled ← handledFatalUpload task paths copy.sourcePath
      if !handled then
        update task {
          uploadedBytes := some (some copy.uploadedBytes)
          notice := some (if copy.paused then some "CloudDrive has paused the upload" else none) } : M Unit) := by
  refine uses_ite (uses_ite trivial (tame_restartCopy task paths _ _)) ?_
  exact uses_bind (tame_handledFatalUpload task paths _) fun handled => uses_ite (uses_update trivial) trivial

end tame

/-! ## A tick -/

/-- A tick is at this row, as it has read it. -/
def Watching (origin : List Mark → Nat) (id : Int) (dir : Path) (task : MergeTask) (h : History) : Prop :=
  Keeping origin id dir h ∧ h.row = task ∧ running h.marks = some .tick

section tick
variable {origin : List Mark → Nat} {m : MergeService} {task : MergeTask} {paths : MergePaths} {id : Int} {dir : Path} {h : History} {α : Type}

/-- The program keeps the row as its history has it, raising or not. -/
abbrev KeepsRow (origin : List Mark → Nat) (id : Int) (dir : Path) (p : M α) : Prop :=
  p.Keeps History.answers (Guarded origin id dir) (Keeping origin id dir) fun _ => Keeping origin id dir

theorem keeps_tame {p : M α} (hp : Uses Tame p) : KeepsRow origin id dir p :=
  keeps_of_uses hp (fun _ _ hop _ _ => hop.fresh) fun _ _ _ _ hop hk ht => keeping_step hk (fun _ => hop.fresh) ht

theorem keeps_other {p : M α} {i : Int} (hp : Uses (Ordinary i) p) (hne : i ≠ id) : KeepsRow origin id dir p :=
  keeps_of_uses hp (fun _ _ hop _ _ => fresh_of_ordinary hop hne) fun _ _ _ _ hop hk ht =>
    keeping_step hk (fun _ => fresh_of_ordinary hop hne) ht

/-- A look leaves the row as it was read. -/
theorem wp_watched {op : Op} {Q : Res op → History → Prop} (hop : op.looks = true) (hw : Watching origin id dir task h)
    (hok : ∀ x, Watching origin id dir task (h.after op (.ok x)) → Q x (h.after op (.ok x))) :
    wp History.answers (Guarded origin id dir) (ask op) Q (fun _ => Keeping origin id dir) h := by
  have step : ∀ r h', History.answers h op r h' → h' = h.after op r ∧ Watching origin id dir task h' := by
    intro r h' ht
    have hk := keeping_step hw.1 (fun _ => (tame_of_looks hop).fresh) ht
    obtain rfl := after_of_answers hop ht
    exact ⟨rfl, hk, hw.2.1, hw.2.2⟩
  unfold ask
  rw [wp_call]
  refine ⟨fun _ => (tame_of_looks hop).fresh, fun x h' ht => ?_, fun e h' ht => (step _ _ ht).2.1⟩
  obtain ⟨rfl, hw'⟩ := step _ _ ht
  exact hok x hw'

theorem wp_wrote {op : Op} {Q : Res op → History → Prop} (hk : Keeping origin id dir h) (hg : Guarded origin id dir h op)
    (hQ : ∀ x h', Keeping origin id dir h' → Q x h') :
    wp History.answers (Guarded origin id dir) (ask op) Q (fun _ => Keeping origin id dir) h := by
  unfold ask
  rw [wp_call]
  exact ⟨hg, fun x h' ht => hQ x h' (keeping_step hk hg ht), fun e h' ht => keeping_step hk hg ht⟩

/-- The upload that was just shown is taken. -/
theorem wp_uploaded (hk : Keeping origin id dir h) (hi : Forgets origin id dir h.marks → ShownAnew origin id dir h.marks) :
    wp History.answers (Guarded origin id dir) (uploaded task) (fun _ => Keeping origin id dir) (fun _ => Keeping origin id dir) h := by
  unfold uploaded transition
  refine (wp_discard _).2 ?_
  exact wp_wrote hk (fun hf _ _ => hi hf) fun _ _ hk' => hk'

theorem wp_watchUpload (hw : Watching origin task.id paths.stagingDir task h) (hs : task.state = .uploading) :
    wp History.answers (Guarded origin task.id paths.stagingDir) (watchUpload m task paths)
      (fun _ => Keeping origin task.id paths.stagingDir) (fun _ => Keeping origin task.id paths.stagingDir) h := by
  have tame : ∀ {p : M Unit} {h' : History}, Uses Tame p → Watching origin task.id paths.stagingDir task h' →
      wp History.answers (Guarded origin task.id paths.stagingDir) p (fun _ => Keeping origin task.id paths.stagingDir)
        (fun _ => Keeping origin task.id paths.stagingDir) h' := fun hp hw' => keeps_tame hp _ hw'.1
  unfold watchUpload
  rw [wp_bind]
  unfold requireCloud
  refine wp_ite (fun _ => ?_) fun _ => hw.1
  unfold copyTask
  rw [wp_pure, wp_bind, wp_bind]
  refine wp_watched rfl hw fun entries hw₁ => ?_
  rw [wp_pure]
  refine wp_ite (fun hfinished => wp_uploaded hw₁.1 fun hf => hf.shownAnew hw.2.2 ?_) fun _ => ?_
  · simpa [Mark.showsFinished, hw.2.1, hs, finishedCopy] using hfinished
  rw [wp_bind]
  refine wp_watched rfl hw₁ fun size hw₂ => wp_ite (fun _ => tame (uses_discard (uses_transition trivial)) hw₂) fun _ => ?_
  split
  · refine wp_ite (fun _ => ?_) fun _ => tame (tame_issueCopy task paths) hw₂
    rw [wp_bind]
    refine wp_watched rfl hw₂ fun staged hw₃ => wp_ite (fun hstaged => wp_uploaded hw₃.1 fun hf => hf.shownAnew hw₂.2.2 ?_) fun _ => ?_
    · have hrow : h.row = task := hw.2.1
      simpa [Mark.showsFinished, hrow, hs] using hstaged
    · exact tame (uses_bind (uses_ask trivial) fun _ => uses_ite trivial (tame_issueCopy task paths)) hw₃
  · exact tame (tame_copying task paths _) hw₂

theorem wp_handler_kept (hw : Watching origin task.id paths.stagingDir task h) :
    wp History.answers (Guarded origin task.id paths.stagingDir) (handler m task paths)
      (fun _ => Keeping origin task.id paths.stagingDir) (fun _ => Keeping origin task.id paths.stagingDir) h := by
  by_cases hs : task.state = .uploading
  · have hupload : handler m task paths = watchUpload m task paths := by
      unfold handler
      rw [hs]
    rw [hupload]
    exact wp_watchUpload hw hs
  · exact keeps_tame (uses_mono (steps_handler m task paths) fun _ hop => tame_of_steps hop hs) h hw.1

theorem wp_step_kept (hp : mergePaths m task = .ok paths) (hw : Watching origin task.id paths.stagingDir task h) :
    wp History.answers (Guarded origin task.id paths.stagingDir) (step m task)
      (fun _ => Keeping origin task.id paths.stagingDir) (fun _ => Keeping origin task.id paths.stagingDir) h := by
  have caught : ∀ (r : Except Exc Unit), KeepsRow origin task.id paths.stagingDir (stepped task r) := by
    intro r
    refine keeps_tame ?_
    cases r with
    | ok u => trivial
    | error e =>
      cases e with
      | failed text => exact uses_discard (uses_transition (by cases task.state <;> trivial))
      | action | outside => exact uses_update trivial
  unfold step
  rw [wp_bind, wp_attempt, hp]
  change wp _ _ (handler m task paths) _ _ h
  exact wp_mono (wp_handler_kept hw) (fun _ h' hk => caught (.ok ()) h' hk) fun e h' hk => caught (.error e) h' hk

/-- The rounds of other tasks leave the row alone. -/
theorem keeps_watching {p : M α} {i : Int} (hp : Uses (Ordinary i) p) (hne : i ≠ id) :
    p.Keeps History.answers (Guarded origin id dir) (Watching origin id dir task) fun _ => Watching origin id dir task := by
  refine keeps_of_uses hp (fun _ _ hop _ _ => fresh_of_ordinary hop hne) fun s op r s' hop hw ht => ?_
  refine ⟨keeping_step hw.1 (fun _ => fresh_of_ordinary hop hne) ht, ?_, ?_⟩
  · rcases row_cases ht.2.1 with hrow | ⟨e, t, f, now, rfl, -, -⟩ | ⟨f, now, rfl, -⟩
    · exact hrow.trans hw.2.1
    · exact absurd ((Ordinary.task_eq hop).symm.trans hw.1.1) hne
    · exact absurd (hop.1.symm.trans hw.1.1) hne
  · rw [ht.2.2]
    exact hw.2.2

theorem wp_tick_kept (hp : mergePaths m h.row = .ok paths) (hk : Keeping origin h.row.id paths.stagingDir h)
    (hr : running h.marks = some .tick) :
    wp History.answers (Guarded origin h.row.id paths.stagingDir) (tick m) (fun _ => Keeping origin h.row.id paths.stagingDir)
      (fun _ => Keeping origin h.row.id paths.stagingDir) h := by
  unfold tick
  refine wp_ite (fun _ => hk) fun _ => (wp_bind _ _).2 ?_
  have hg : Guarded origin h.row.id paths.stagingDir h .openTasks := fun _ => trivial
  refine (wp_call _).2 ⟨hg, fun tasks h₁ ht => ?_, fun _ _ ht => keeping_step hk hg ht⟩
  have hk₁ := keeping_step hk hg ht
  obtain rfl := after_of_answers rfl ht
  obtain ⟨-, ⟨-, hopen⟩, -⟩ := ht
  have hopen := hopen tasks rfl
  have hw : Watching origin h.row.id paths.stagingDir h.row (h.after .openTasks (.ok tasks)) := ⟨hk₁, rfl, hr⟩
  have other : ∀ (acc : Bool) (y : MergeTask) s, y.id ≠ h.row.id → Watching origin h.row.id paths.stagingDir h.row s →
      wp History.answers (Guarded origin h.row.id paths.stagingDir) (round m acc y)
        (fun _ => Watching origin h.row.id paths.stagingDir h.row) (fun _ => Keeping origin h.row.id paths.stagingDir) s :=
    fun acc y s hy hs => wp_round (fun _ => hs) fun _ =>
      wp_mono (keeps_watching (uses_step m y) hy s hs) (fun _ _ hw _ => hw) fun _ _ hw => hw.1
  have later : ∀ (acc : Bool) (y : MergeTask) s, y.id ≠ h.row.id → Keeping origin h.row.id paths.stagingDir s →
      wp History.answers (Guarded origin h.row.id paths.stagingDir) (round m acc y)
        (fun _ => Keeping origin h.row.id paths.stagingDir) (fun _ => Keeping origin h.row.id paths.stagingDir) s :=
    fun acc y s hy hs => wp_round (fun _ => hs) fun _ =>
      wp_mono (keeps_other (uses_step m y) hy s hs) (fun _ _ hk _ => hk) fun _ _ hk => hk
  have own : ∀ (acc : Bool) s, Watching origin h.row.id paths.stagingDir h.row s →
      wp History.answers (Guarded origin h.row.id paths.stagingDir) (round m acc h.row)
        (fun _ => Keeping origin h.row.id paths.stagingDir) (fun _ => Keeping origin h.row.id paths.stagingDir) s :=
    fun acc s hs => wp_round (fun _ => hs.1) fun _ => wp_mono (wp_step_kept hp hs) (fun _ _ hk _ => hk) fun _ _ hk => hk
  refine (wp_discard _).2 ?_
  by_cases hfin : h.row.state.finished = true
  · rw [if_pos hfin] at hopen
    exact wp_mono (wp_foldEach_none other hopen hw) (fun _ _ hw => hw.1) fun _ _ hk => hk
  · rw [if_neg hfin] at hopen
    exact wp_foldEach_one other own later hopen hw

theorem wp_action_kept (a : Action) (hp : mergePaths m h.row = .ok paths) (hk : Keeping origin h.row.id paths.stagingDir h)
    (hr : running h.marks = some a) :
    wp History.answers (Guarded origin h.row.id paths.stagingDir) (a.program m) (fun _ => Keeping origin h.row.id paths.stagingDir)
      (fun _ => Keeping origin h.row.id paths.stagingDir) h := by
  cases a with
  | tick => exact wp_tick_kept hp hk hr
  | cancel id => exact keeps_tame (uses_discard (tame_cancel m id)) h hk
  | retry id => exact keeps_tame (uses_discard (tame_retry m id)) h hk

end tick

/-! ## Every history -/

/-- What names the task's files is never written. -/
theorem paths_of_stops {α : Type} {m : MergeService} {h h' : History} {p : M α} (hs : Stops History.answers h p h') :
    h'.row.id = h.row.id ∧ mergePaths m h'.row = mergePaths m h.row := by
  induction hs with
  | here s p => exact ⟨rfl, rfl⟩
  | act ht _ ih =>
    obtain ⟨hid, -, hpaths⟩ := row_same (m := m) ht.2.1
    exact ⟨ih.1.trans hid, ih.2.trans hpaths⟩

theorem keeping_of_reach {origin : List Mark → Nat} {m : MergeService} {h : History} {paths : MergePaths} (hr : History.Reach m h)
    (hp : mergePaths m h.row = .ok paths) : Keeping origin h.row.id paths.stagingDir h := by
  induction hr with
  | created id avid source parts mergedName now =>
    refine ⟨rfl, fun _ op ans was now' before hsuf => ?_⟩
    cases List.suffix_nil.1 hsuf
  | @operated h₀ h' a hr hstops ih =>
    obtain ⟨hid, hpaths⟩ := paths_of_stops (m := m) hstops
    have hp₀ : mergePaths m (h₀.begun a).row = .ok paths := hpaths.symm.trans hp
    have hk := keeping_begun (ih hp₀) a
    rw [hid]
    exact wp_stops (fun _ _ _ _ hk hg ht => keeping_step hk hg ht) (wp_action_kept a hp₀ hk rfl) hk hstops

/-- Whichever uploads CloudDrive shows, of those that were issued: in every history in which a tick is shown a finished one
only of those issued since the last completed merge and the last failed check, the task comes to `verifying` only on one
issued since. -/
theorem taken_anew (m : MergeService) (h : History) (hr : History.Reach m h) (paths : MergePaths)
    (hp : mergePaths m h.row = .ok paths) (origin : List Mark → Nat)
    (ho : ∀ marks, origin marks ≤ issued h.row.id paths.stagingDir marks) (hf : Forgets origin h.row.id paths.stagingDir h.marks) :
    TakenAnew origin h.row.id paths.stagingDir h.marks := by
  intro op ans was now before hsuf hwas hnow
  have hshown := (keeping_of_reach hr hp).2 hf op ans was now before hsuf hwas hnow
  exact ⟨hshown, Nat.lt_of_lt_of_le hshown (Nat.le_trans (ho _) issued_lastShown)⟩

/-! ## A copy that CloudDrive still lists -/

namespace UploadsExample
open Example

/-- CloudDrive lists these copies, and a staged file with this SHA-1. -/
def worldIn (copies : List CopyTask) (sha1 : String) : (op : Op) → Except Exc (Res op)
  | .copyTasks _ => .ok copies
  | .statFile .. => .ok (some ⟨"ABC-123.mp4", [], 2, false, [("2", sha1)]⟩ : Option CloudFile)
  | op => world op

def serveIn (copies : List CopyTask) (sha1 : String) (h : History) : (op : Op) → Except Exc (Res op) × History
  | .openTasks => Example.serve h .openTasks
  | .getTask id => Example.serve h (.getTask id)
  | .transition id e s f => Example.serve h (.transition id e s f)
  | .update id f => Example.serve h (.update id f)
  | op => (worldIn copies sha1 op, h.after op (worldIn copies sha1 op))

theorem serveIn_answers (copies : List CopyTask) (sha1 : String) (h : History) (op : Op) :
    History.answers h op (serveIn copies sha1 h op).1 (serveIn copies sha1 h op).2 := by
  cases op with
  | openTasks => exact serve_answers h .openTasks
  | getTask id => exact serve_answers h (.getTask id)
  | transition id e s f => exact serve_answers h (.transition id e s f)
  | update id f => exact serve_answers h (.update id f)
  | _ => exact ⟨fun e he => (nomatch he), rfl, rfl⟩

/-- What an operator or the clock asks for, and what CloudDrive lists then. -/
abbrev Turn := Action × List CopyTask × String

def operateIn (h : History) (t : Turn) : History :=
  (Prog.exec (serveIn t.2.1 t.2.2) (h.begun t.1) (t.1.program service)).2

theorem reach_operateIn {turns : List Turn} {h : History} (hr : History.Reach service h) :
    History.Reach service (turns.foldl operateIn h) := by
  induction turns generalizing h with
  | nil => exact hr
  | cons t turns ih => exact ih (.operated t.1 hr (exec_runs (serveIn_answers t.2.1 t.2.2) _ _).stops)

def copied : List CopyTask := [⟨["downloads"], ["115", "upload", "merge-1"], .completed, 2, false, []⟩]

/-- Merged and issued; then the copy is finished. -/
def uploads : List Turn := [(.tick, [], ""), (.tick, [], ""), (.tick, [], ""), (.tick, copied, "")]

/-- The upload fails its check, and is retried while CloudDrive still lists the copy. -/
def retrying : List Turn := [(.tick, copied, "B0"), (.retry 1, copied, ""), (.tick, copied, "")]

/-- Whether a history satisfies `Forgets`. -/
def forgets (origin : List Mark → Nat) (id : Int) (dir : Path) : List Mark → Bool
  | [] => true
  | k :: before =>
    (running before ≠ some .tick || !k.showsFinished id dir || settled id dir before < origin (k :: before)) &&
      forgets origin id dir before

theorem forgets_of {origin : List Mark → Nat} {id : Int} {dir : Path} {marks : List Mark} (h : forgets origin id dir marks = true) :
    Forgets origin id dir marks := by
  induction marks with
  | nil => trivial
  | cons k before ih =>
    obtain ⟨hk, hrest⟩ := Bool.and_eq_true_iff.1 h
    refine ⟨fun hr hf => ?_, ih hrest⟩
    simpa [hr, hf] using hk

/-- The last thing done took an upload where none was issued since. -/
def takesOld (id : Int) (dir : Path) : List Mark → Bool
  | .did _ _ was now :: before =>
    was.state ≠ .verifying && now.state = .verifying && issued id dir before ≤ settled id dir before
  | _ => false

theorem not_takenAnew {origin : List Mark → Nat} {id : Int} {dir : Path} {marks : List Mark} (h : takesOld id dir marks = true) :
    ¬ TakenAnew origin id dir marks := by
  intro ht
  unfold takesOld at h
  split at h
  · rename_i op ans was now before
    simp only [Bool.and_eq_true, decide_eq_true_eq] at h
    obtain ⟨⟨hwas, hnow⟩, hnone⟩ := h
    exact absurd (ht op ans was now before (List.suffix_refl _) hwas hnow).2 (Nat.not_lt.2 hnone)
  · cases h

theorem ok_of_toOption {ε α : Type} {x : Except ε α} {a : α} (h : x.toOption = some a) : x = .ok a := by
  cases x with
  | error e => cases h
  | ok b => exact congrArg Except.ok (Option.some.inj h)

def stagingDir : Path := ["115", "upload", "merge-1"]

end UploadsExample

open UploadsExample Example in
/-- CloudDrive shows the upload that was issued last. -/
theorem taken_anew_issued : (uploads.foldl operateIn ⟨task, []⟩).row.state = .verifying ∧
    TakenAnew (issued 1 stagingDir) 1 stagingDir (uploads.foldl operateIn ⟨task, []⟩).marks := by
  have hr : History.Reach service (uploads.foldl operateIn ⟨task, []⟩) := reach_operateIn (.created 1 _ _ _ _ 0)
  have hid : (uploads.foldl operateIn ⟨task, []⟩).row.id = 1 := by decide
  have hdir : (mergePaths service (uploads.foldl operateIn ⟨task, []⟩).row).toOption.map (·.stagingDir) = some stagingDir := by
    decide
  obtain ⟨paths, hpaths, hd⟩ := Option.map_eq_some_iff.1 hdir
  have hp : mergePaths service (uploads.foldl operateIn ⟨task, []⟩).row = .ok paths := ok_of_toOption hpaths
  refine ⟨by decide, ?_⟩
  have h := taken_anew service _ hr paths hp (issued 1 stagingDir) (fun _ => Nat.le_of_eq (by rw [hid, hd])) (by rw [hid, hd]; exact forgets_of (by decide))
  rwa [hid, hd] at h

open UploadsExample Example in
/-- The upload that failed its check is taken for the retry's, whichever CloudDrive shows. -/
theorem taken_again : ∃ h, History.Reach service h ∧ ∀ origin, ¬ TakenAnew origin h.row.id stagingDir h.marks := by
  refine ⟨(uploads ++ retrying).foldl operateIn ⟨task, []⟩, reach_operateIn (.created 1 _ _ _ _ 0), fun origin => not_takenAnew ?_⟩
  decide

end EmbyxManager.Merge
