import Mathlib.Data.List.Dedup
import EmbyxManager.Monitor.PollSet
import EmbyxManager.Monitor.SweepEdges
/-!
# What the reconcile scan leaves to the tracker

The scan asks the ledger which AVIDs are active and skips a folder whose name reads as one
of them. What it files a folder under is read from the videos inside, the folder's name
being the last clue only: a folder under another name is filed all the same.
-/

namespace EmbyxManager
open Atom Prog AcquisitionRepository Archive

/-! ## What a scan saw -/

/-- The active AVIDs, as this action read them. -/
def readActive (e : Event) : Option (List Avid) :=
  match e with
  | ⟨.sql .activeAvids, .ok avids⟩ => some avids
  | _ => none

/-- The videos of the folder looked into last. -/
def lastVideos : List Event → Option (List Video)
  | [] => none
  | ⟨.ask (.largeVideos _), .ok videos⟩ :: _ => some videos
  | _ :: h => lastVideos h

/-- The AVID a folder's videos have been taken into the library under. -/
def filedAvid (e : Event) : Option Avid :=
  match e with
  | ⟨.ask (.moveIntoLibrary avid ..), .ok (_ :: _)⟩ => some avid
  | _ => none

/-- The names of the videos, copies dropped, read as this AVID and no other. -/
def ReadsAs (arch : Archiver) (videos : List Video) (avid : Avid) : Prop :=
  avid ≠ "" ∧ ((arch.dropCopies videos).map fun v => arch.getAvid v.name).dedup = [avid]

section Logs
variable {ι : Type} [DecidableEq ι]

/-- The tracker owns the AVID. -/
def Active (l : Ledger) (avid : Avid) : Prop := ∃ row, l.acq avid = some row ∧ row.state ∈ AcquisitionState.active

/-- Whatever `i` files was not active in the ledger its run works from. -/
def FilesIdle (i : ι) (log : List (Entry ι)) : Prop :=
  ∀ e past avid, e :: past <:+ log → e.who = i → filedAvid e.event = some avid →
    ∀ l, firstLedger readActive i past = some l → ¬ Active l avid

/-- Whatever folder it files, the videos inside did not read as an active AVID. -/
def VideosIdle (arch : Archiver) (i : ι) (log : List (Entry ι)) : Prop :=
  ∀ e past avid, e :: past <:+ log → e.who = i → filedAvid e.event = some avid →
    ∀ l videos, firstLedger readActive i past = some l → lastVideos (ownEvents i past) = some videos →
      ∀ a, ReadsAs arch videos a → ¬ Active l a

end Logs

/-! ## Reading an AVID off a folder -/

section Reading
variable {arch : Archiver} {folder : String} {videos : List Video} {selection : VideoSet}

/-- With no AVID expected, it is the one the videos read as, else the folder's. -/
theorem select_reads (h : select arch folder videos "" = .ok selection) :
    ReadsAs arch videos selection.avid ∨
      (selection.avid = arch.getAvid folder ∧ selection.avid ≠ "" ∧ ∀ a, ¬ ReadsAs arch videos a) := by
  have identified : ∀ avid, identifyAvid arch folder (arch.dropCopies videos) "" = .ok avid → ReadsAs arch videos avid ∨
      (avid = arch.getAvid folder ∧ avid ≠ "" ∧ ∀ a, ¬ ReadsAs arch videos a) := by
    intro avid h
    unfold identifyAvid at h
    split at h
    · cases h
    · rename_i x hx
      unfold reconcileAvid at h
      by_cases hempty : x = ""
      · simp only [hempty, if_true] at h
        split at h
        · cases h
        · rename_i hne
          cases h
          refine .inr ⟨rfl, hne, ?_⟩
          rintro a ⟨hane, ha⟩
          rw [hx, hempty] at ha
          cases ha
          exact hane rfl
      · simp only [hempty, if_false, true_or, if_true] at h
        cases h
        exact .inl ⟨hempty, hx⟩
    · split at h
      · rename_i hc
        exact absurd rfl hc.1
      · cases h
  unfold select at h
  split at h
  · cases h
  · dsimp only at h
    split at h
    · cases h
    · rename_i avid hid
      have havid := identified avid hid
      split at h
      · cases h
        exact havid
      · split at h
        · cases h
        · cases h
          exact havid

/-- A folder the tracker is not left with is filed under an active AVID only when its videos read as one. -/
theorem filed_active_iff {s : Scanner} {active : List Avid} {f : Folder} (hleft : s.leftToTracker active f = false)
    (h : select s.archiver f.name videos "" = .ok selection) :
    selection.avid ∈ active ↔ ∃ a ∈ active, ReadsAs s.archiver videos a := by
  rcases select_reads h with hreads | ⟨hname, hne, hnone⟩
  · constructor
    · exact fun hm => ⟨_, hm, hreads⟩
    · rintro ⟨a, ha, hane, hread⟩
      rw [hreads.2] at hread
      cases hread
      exact ha
  · constructor
    · intro hm
      rw [hname] at hm hne
      simp [Scanner.leftToTracker, hne, hm] at hleft
    · rintro ⟨a, -, ha⟩
      exact absurd ha (hnone a)

end Reading

/-! ## The guard of a scan -/

/-- A folder is filed under what its videos read as, or under an AVID that is not active. -/
def Judged (arch : Archiver) (h : List Event) : Op → Prop
  | .ask (.moveIntoLibrary avid ..) => ∃ active videos, firstOf readActive h = some active ∧ lastVideos h = some videos ∧
      (avid ∈ active ↔ ∃ a ∈ active, ReadsAs arch videos a)
  | _ => True

namespace Scanner
variable (s : Scanner) {active : List Avid} {α : Type}

/-- The run knows which AVIDs are active. -/
abbrev Knowing (active : List Avid) (h : List Event) : Prop := firstOf readActive h = some active

theorem knowing_cons {e : Event} {h : List Event} (hk : Knowing active h) : Knowing active (e :: h) := by
  unfold Knowing at *
  rw [firstOf, hk, Option.some_or]

/-- The action files nothing. -/
def Looking : Op → Prop
  | .ask (.moveIntoLibrary ..) => False
  | _ => True

theorem Looking.judged {h : List Event} {op : Op} (hop : Looking op) : Judged s.archiver h op := by
  cases op with
  | ask q =>
    cases q with
    | moveIntoLibrary => cases hop
    | _ => trivial
  | _ => trivial

abbrev Judging (active : List Avid) (p : M α) : Prop :=
  p.Keeps (recorded known) (Judged s.archiver) (Knowing active) fun _ _ => True

theorem judging_looking {p : M α} (hp : Uses Looking p) : s.Judging active p := by
  refine keeps_mono (keeps_of_uses hp (fun _ _ hop _ => hop.judged s) ?_) fun _ _ _ => trivial
  rintro h op r _ - hk ⟨-, rfl⟩
  exact knowing_cons hk

theorem looking_of_quiet {op : Op} (hop : QuietSql op) : Looking op := by
  cases op with
  | ask q => cases hop.2
  | _ => trivial

theorem looking_isSettled (scan : Scan) (f : Folder) : Uses Looking (isSettled scan f) :=
  uses_bind (uses_ok trivial) fun _ => trivial

/-- What has been selected, the videos of the folder say. -/
abbrev Selected (s : Scanner) (active : List Avid) (f : Folder) (r : Except ArchiveResult VideoSet) (h : List Event) : Prop :=
  Knowing active h ∧ ∀ selection, r = .ok selection → ∃ videos, lastVideos h = some videos ∧
    select s.archiver f.name videos "" = .ok selection

theorem wp_inspectFolder_judged (f : Folder) {h : List Event} (hk : Knowing active h) :
    (inspectFolder s.archiver f).wp (recorded known) (Judged s.archiver) (Selected s active f) (fun _ _ => True) h := by
  unfold inspectFolder selectVideos
  rw [wp_bind, wp_attempt, wp_bind, wp_call_recorded]
  refine ⟨trivial, fun dir _ => ?_, fun e _ => ?_⟩
  · refine wp_ite (fun _ => ?_) fun _ => ⟨knowing_cons hk, fun _ h => by cases h⟩
    rw [wp_bind, wp_call_recorded]
    refine ⟨trivial, fun videos _ => ?_, fun e _ => ?_⟩
    · rw [wp_bind]
      refine wp_foldEach (fun _ _ h => Knowing active h ∧ lastVideos h = some videos) ?_ ?_
        ⟨knowing_cons (knowing_cons hk), rfl⟩
      · rintro v _ _ h ⟨hk, hv⟩
        rw [wp_discard, wp_attempt, wp_call_recorded]
        exact ⟨trivial, fun _ _ => ⟨knowing_cons hk, hv⟩, fun _ _ => ⟨knowing_cons hk, hv⟩⟩
      · rintro _ h ⟨hk, hv⟩
        exact ⟨hk, fun selection hsel => ⟨videos, hv, hsel⟩⟩
    · cases e <;> first | trivial | exact ⟨knowing_cons (knowing_cons hk), fun _ h => by cases h⟩
  · cases e <;> first | trivial | exact ⟨knowing_cons hk, fun _ h => by cases h⟩

theorem judging_reconcileFolder (scan : Scan) {f : Folder} (route : Route) (hleft : s.leftToTracker active f = false) :
    s.Judging active (s.reconcileFolder scan f route) := by
  have filed : s.Judging active (archiveFolder s.archiver f route.dst route.priority) := by
    intro h hk
    unfold archiveFolder
    rw [wp_bind]
    refine wp_mono (s.wp_inspectFolder_judged f hk) ?_ fun _ _ _ => trivial
    rintro r h ⟨hk, hsel⟩
    cases r with
    | error result => exact hk
    | ok selection =>
      obtain ⟨videos, hv, hsel⟩ := hsel selection rfl
      dsimp only
      unfold fileSelection
      rw [wp_bind, wp_attempt, wp_call_recorded]
      refine ⟨⟨active, videos, hk, hv, filed_active_iff hleft hsel⟩, fun archived _ => ?_, fun e _ => ?_⟩
      · cases archived with
        | nil => exact knowing_cons hk
        | cons path paths =>
          have dropped : Uses Looking (discard (ask (.discard f.path)).attempt) := uses_discard (uses_attempt (uses_ok trivial))
          exact keeps_bind (s.judging_looking dropped) (fun _ => keeps_pure _) _ (knowing_cons hk)
      · cases e <;> first | trivial | exact knowing_cons hk
  unfold reconcileFolder
  refine keeps_bind filed fun result => keeps_bind (s.judging_looking (uses_ok trivial)) fun at_ => ?_
  split
  · exact keeps_bind (s.judging_looking (uses_recordArchived (fun _ => looking_of_quiet) _ _ _ _ fun _ _ => trivial)) fun _ => keeps_pure _
  · split
    · exact keeps_bind (s.judging_looking (uses_recordAttention (fun _ => looking_of_quiet) _ _ _ _ fun _ _ => trivial)) fun _ => keeps_pure _
    · exact keeps_pure _
  · exact keeps_pure _

/-- A scan files a folder only when it has judged it by its name. -/
theorem judged_run (scan : Scan) :
    (s.run scan).wp (recorded known) (Judged s.archiver) (fun _ _ => True) (fun _ _ => True) [] := by
  unfold run
  rw [wp_bind, wp_call_recorded]
  refine ⟨trivial, fun active _ => ?_, fun _ _ => trivial⟩
  have routes : s.Judging active (Prog.foldEach s.routes scan (s.scanRoute active)) := by
    refine keeps_foldEach (fun route _ scan => ?_) scan
    unfold scanRoute
    refine keeps_bind (s.judging_looking (uses_ok trivial)) fun _ => keeps_bind (s.judging_looking (uses_ok trivial)) fun isDir => ?_
    split
    · refine keeps_bind (s.judging_looking (uses_ok trivial)) fun folders => keeps_foldEach (fun f _ scan => ?_) scan
      unfold scanFolder
      refine keeps_bind (s.judging_looking (uses_ok trivial)) fun _ => ?_
      split
      · exact keeps_pure _
      · split
        · exact keeps_pure _
        · rename_i hleft
          refine keeps_bind (s.judging_looking (looking_isSettled scan f)) fun seen => ?_
          obtain ⟨scan, settled⟩ := seen
          dsimp only
          split
          · exact s.judging_reconcileFolder scan route (by simpa using hleft)
          · exact keeps_pure _
    · exact keeps_pure _
  exact wp_mono (routes _ rfl) (fun _ _ _ => trivial) fun _ _ _ => trivial

end Scanner

/-! ## Every run -/

section Runs
variable {ι : Type} [DecidableEq ι] {i : ι} {arch : Archiver}

/-- What the log says of the scan. -/
structure ScanLog (arch : Archiver) (i : ι) (w : World ι) : Prop where
  judged : ∀ e past, e :: past <:+ w.log → e.who = i → Judged arch (ownEvents i past) e.event.op
  answered : ∀ e ∈ w.log, ∀ avids, readActive e.event = some avids → avids = e.before.activeAvids

theorem mem_activeAvids {l : Ledger} {avid : Avid} : avid ∈ l.activeAvids ↔ Active l avid := by
  simp only [Ledger.activeAvids, List.mem_map, List.mem_filter, decide_eq_true_eq, Active]
  constructor
  · rintro ⟨row, ⟨hrow, hstate⟩, rfl⟩
    exact ⟨row, Table.find_eq_some.2 ⟨hrow, rfl⟩, hstate⟩
  · rintro ⟨row, hrow, hstate⟩
    exact ⟨row, ⟨(Table.find_eq_some.1 hrow).1, hstate⟩, Ledger.acq_avid hrow⟩

theorem scanLog_step {w w' : World ι} {j : ι} {op : Op} {r : Except Exn op.Res} (hi : ScanLog arch i w)
    (hG : j = i → Judged arch (w.history j) op) (ht : World.Step known j w op r w') : ScanLog arch i w' := by
  obtain ⟨t, l', -, -, ha, rfl⟩ := ht
  constructor
  · rintro e past hsuf hwho
    rcases List.suffix_cons_iff.1 hsuf with heq | hsuf
    · cases heq
      cases hwho
      exact hG rfl
    · exact hi.judged e past hsuf hwho
  · rintro e he avids hread
    rcases List.mem_cons.1 he with rfl | he
    · unfold readActive at hread
      split at hread
      · rename_i heq
        cases heq
        cases hread
        simp only [Answers, Sql.Gives, Sql.run, Except.ok.injEq, Prod.mk.injEq] at ha
        exact ha.1.symm
      · cases hread
    · exact hi.answered e he avids hread

/-- A folder is filed under an active AVID exactly when its videos read as one. -/
theorem filed_iff {w : World ι} (hi : ScanLog arch i w) {e : Entry ι} {past : List (Entry ι)} {avid : Avid}
    (hsuf : e :: past <:+ w.log) (hwho : e.who = i) (hfiled : filedAvid e.event = some avid) :
    ∃ l videos, firstLedger readActive i past = some l ∧ lastVideos (ownEvents i past) = some videos ∧
      (Active l avid ↔ ∃ a, ReadsAs arch videos a ∧ Active l a) := by
  have hj := hi.judged e past hsuf hwho
  have hpast : ∀ e' ∈ past, ∀ avids, readActive e'.event = some avids → avids = e'.before.activeAvids :=
    fun e' he' => hi.answered e' (hsuf.subset (List.mem_cons_of_mem _ he'))
  unfold filedAvid at hfiled
  split at hfiled
  · rename_i heq
    rw [heq] at hj
    cases hfiled
    obtain ⟨active, videos, hactive, hvideos, hiff⟩ := hj
    rw [firstOf_ledger hpast, Option.map_eq_some_iff] at hactive
    obtain ⟨l, hl, rfl⟩ := hactive
    refine ⟨l, videos, hl, hvideos, ?_⟩
    rw [mem_activeAvids] at hiff
    rw [hiff]
    constructor
    · rintro ⟨a, ha, hreads⟩
      exact ⟨a, hreads, mem_activeAvids.1 ha⟩
    · rintro ⟨a, hreads, ha⟩
      exact ⟨a, mem_activeAvids.2 ha, hreads⟩
  · cases hfiled

/-- Whatever a scan files was idle in its snapshot exactly when no folder it files holds videos that read as an active AVID. -/
theorem files_idle_iff {s : Scanner} {scan : Scan} {l : Ledger} {start : Time} {prog : ι → M Unit}
    (hi : prog i = discard (s.run scan)) {c : Pool Op.Res Exn Unit (World ι) ι}
    (h : Pool.Reach (World.Step fun _ _ => True) ⟨⟨l, start, []⟩, prog⟩ c) :
    FilesIdle i c.world.log ↔ VideosIdle s.archiver i c.world.log := by
  have step : ∀ (j : ι) w op r w', World.Step (fun _ _ => True) j w op r w' → World.Step known j w op r w' := by
    rintro j w op r w' ⟨clock, l', hc, -, ha, hw⟩
    exact ⟨clock, l', hc, answers_known ha, ha, hw⟩
  have hlog : ScanLog s.archiver i c.world := by
    refine (World.reach_inv step (fun j h op => j = i → Judged s.archiver h op) (ScanLog s.archiver i)
      (fun _ _ _ _ _ hi hG ht => scanLog_step hi hG (step _ _ _ _ _ ht)) ?_ rfl (fun j => ?_) h).1
    · exact ⟨fun e past hsuf => by simp at hsuf, fun e he => by cases he⟩
    · by_cases hj : j = i
      · subst hj
        dsimp only
        rw [hi, wp_discard]
        simpa using s.judged_run scan
      · exact keeps_mono (keeps_of_uses (I := fun _ => True) (uses_any (prog j)) (fun _ _ _ _ hji => absurd hji hj)
          fun _ _ _ _ _ _ _ => trivial) (fun _ _ _ => trivial) [] trivial
  constructor
  · intro hf e past avid hsuf hwho hfiled l videos hl hv a hreads ha
    obtain ⟨l', videos', hl', hv', hiff⟩ := filed_iff hlog hsuf hwho hfiled
    rw [hl] at hl'
    rw [hv] at hv'
    cases hl'
    cases hv'
    exact hf e past avid hsuf hwho hfiled l hl (hiff.2 ⟨a, hreads, ha⟩)
  · intro hv e past avid hsuf hwho hfiled l hl hactive
    obtain ⟨l', videos, hl', hvideos, hiff⟩ := filed_iff hlog hsuf hwho hfiled
    rw [hl] at hl'
    cases hl'
    obtain ⟨a, hreads, ha⟩ := hiff.1 hactive
    exact hv e past avid hsuf hwho hfiled l videos hl hvideos a hreads ha

end Runs

/-! ## A download whose folder is named otherwise -/

namespace ScanLockExample

/-- A submission, and the scan of two folders: one named after the download, and one that only holds its video. -/
def program (submits : Bool) : M Unit :=
  if submits then discard (Intake.enqueue plainIntake "ABC-123" "manual" "/inbox") else discard (inboxScanner.run inboxScan)

def outside : World.Outside
  | .sukebei _ => .ok (some "magnet:AA")
  | .javbus _ => .ok []
  | .addOfflineFiles .. => .ok true
  | .largeVideos folder => .ok [⟨folder ++ "/ABC-123.mp4", "ABC-123.mp4", 1⟩]
  | q => inbox q

def acts (submits : Bool) (n : Nat) : List (Bool × (Nat × World.Outside)) := List.replicate n (submits, (1, outside))

def initially : Pool Op.Res Exn Unit (World Bool) Bool := ⟨⟨.empty, 0, []⟩, program⟩

/-- The scan comes first, and files the folder of a title nobody asked for. -/
def before : List (Bool × (Nat × World.Outside)) := acts false 9

/-- The submission comes first: the folder named after it is left alone, the other one filed. -/
def after : List (Bool × (Nat × World.Outside)) := acts true 11 ++ acts false 10

/-- The last action of `i` files a folder under an AVID that was active in its snapshot. -/
def filesActive (i : Bool) : List (Entry Bool) → Bool
  | [] => false
  | e :: past => decide (e.who = i) && (filedAvid e.event).any fun avid => (firstLedger readActive i past).any fun l =>
      (l.acq avid).any fun row => decide (row.state ∈ AcquisitionState.active)

theorem not_filesIdle {i : Bool} {log : List (Entry Bool)} (h : filesActive i log = true) : ¬ FilesIdle i log := by
  cases log with
  | nil => cases h
  | cons e past =>
    simp only [filesActive, Bool.and_eq_true, decide_eq_true_eq, Option.any_eq_true] at h
    obtain ⟨hwho, avid, hfiled, l, hl, row, hrow, hstate⟩ := h
    exact fun hidle => hidle e past avid (List.suffix_refl _) hwho hfiled l hl ⟨row, hrow, hstate⟩

end ScanLockExample

open ScanLockExample in
theorem files_idle_before :
    (World.schedule before initially).world.log.head?.bind (fun e => filedAvid e.event) = some "ABC-123" ∧
      (FilesIdle false (World.schedule before initially).world.log ↔
        VideosIdle inboxScanner.archiver false (World.schedule before initially).world.log) := by
  refine ⟨by decide, ?_⟩
  exact files_idle_iff (rfl : program false = discard (inboxScanner.run inboxScan)) (World.reach_schedule before initially)

open ScanLockExample in
/-- The download is active, its folder's name gives no AVID, the video inside does: the scan files it. -/
theorem files_active_after : ∃ c, Pool.Reach (World.Step fun _ _ => True) initially c ∧ ¬ FilesIdle false c.world.log :=
  ⟨_, World.reach_schedule after initially, not_filesIdle (by decide)⟩

end EmbyxManager
