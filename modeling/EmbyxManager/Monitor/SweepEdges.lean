import EmbyxManager.Monitor.LibraryMoves
/-!
# What ends a library sweep

A sweep has already moved or refused the files when it records the outcome. It
asks for a move of the row it has just read, and the state machine raises when
that is no edge. The only rows that refuse are those an operator ignored, and a
row parked by someone else between the missing reading and the discovery. A run
that is given none of these comes to every route, folder and group, unless the
stop token, the database or the filesystem ends it.

Everything is shown about histories with arbitrary answers, so other writers
are included.
-/

namespace EmbyxManager
open Atom Prog AcquisitionRepository Archive

/-! ## The readings that refuse -/

def afterNow : List Event → Bool
  | ⟨.now, _⟩ :: _ => true
  | _ => false

/-- An insertion that found the row there already. -/
def lostInsert : List Event → Bool
  | ⟨.sql (.insertAcquisition ..), .ok inserted⟩ :: _ => !inserted
  | _ => false

/-- The newest event reads a row that the outcome cannot go to: an operator ignored it, or the
videos could not be filed and someone else parked the row when it was just discovered here (a row
found at once is read right after the clock). A discovery's own look at the row it found in its
place is no reading of this kind. -/
def refusedNow : List Event → Bool
  | ⟨.sql (.getAcquisition _), .ok (some row)⟩ :: h =>
    !lostInsert h && (row.state = .ignored || (row.state = .needsAttention && !afterNow h && !libraryTook h))
  | _ => false

/-- Some reading of the history refused. -/
def refusedIn : List Event → Bool
  | [] => false
  | e :: h => refusedNow (e :: h) || refusedIn h

/-- The action is not the reading of a row. -/
def NoGet : Op → Prop
  | .sql (.getAcquisition _) => False
  | _ => True

theorem refusedNow_of_noGet {op : Op} (hop : NoGet op) (r : Except Exn op.Res) (h : List Event) :
    refusedNow (⟨op, r⟩ :: h) = false := by
  cases op with
  | sql s =>
    cases s with
    | getAcquisition avid => exact hop.elim
    | _ => rfl
  | _ => rfl

theorem refusedNow_error (op : Op) (e : Exn) (h : List Event) : refusedNow (⟨op, .error e⟩ :: h) = false := by
  cases op with
  | sql s => cases s <;> rfl
  | _ => rfl

theorem refusedIn_of_noGet {op : Op} (hop : NoGet op) (r : Except Exn op.Res) (h : List Event) :
    refusedIn (⟨op, r⟩ :: h) = refusedIn h := by
  simp [refusedIn, refusedNow_of_noGet hop]

theorem refusedIn_error (op : Op) (e : Exn) (h : List Event) : refusedIn (⟨op, .error e⟩ :: h) = refusedIn h := by
  simp [refusedIn, refusedNow_error]

/-- A row found at once refuses only when it is ignored. -/
theorem refusedNow_found {h : List Event} (hnow : afterNow h = true) (avid : Avid) (row : AcquisitionRecord) :
    refusedNow (⟨.sql (.getAcquisition avid), .ok (some row)⟩ :: h) = decide (row.state = .ignored) := by
  have hlost : lostInsert h = false := by
    unfold afterNow at hnow
    split at hnow
    · rfl
    · cases hnow
  simp [refusedNow, hnow, hlost]

/-! ## Programs that refuse nothing themselves -/

/-- No reading has refused. -/
abbrev Unrefused (h : List Event) : Prop := refusedIn h = false

/-- Nor has anything been filed since the newest checkpoint. -/
def Unfiled (h : List Event) : Prop := Unrefused h ∧ libraryTook h = false

/-- What may end a sweep: a row that refuses the outcome, or an exception it was answered. -/
def EndsSweep (e : Exn) (h : List Event) : Prop := (e.Illegal ∧ refusedIn h = true) ∨ (Answered e h ∧ Unrefused h)

theorem ends_of_known {op : Op} {e : Exn} {h : List Event} (hr : Unrefused h) (hk : known op (.error e)) :
    EndsSweep e (⟨op, .error e⟩ :: h) :=
  .inr ⟨answered_of_known hk, (refusedIn_error op e h).trans hr⟩

/-- Unless it raises, the program reads no row that refuses. -/
abbrev Tidy {α : Type} (X : Exn → List Event → Prop) (p : M α) : Prop :=
  p.Keeps (recorded known) (fun _ _ => True) Unrefused X

/-- What may end a program that makes no exception of its own. -/
def LetThrough (e : Exn) (h : List Event) : Prop := Answered e h ∧ Unrefused h

theorem tidy_of_letThrough {α : Type} {p : M α} (hp : Tidy LetThrough p) : Tidy EndsSweep p := keeps_mono hp fun _ _ => .inr

theorem tidy_call {op : Op} (hop : NoGet op) : Tidy LetThrough (call op : M op.Res) := by
  refine keeps_call (fun _ _ => trivial) ?_ ?_
  · rintro h a _ hh ⟨-, rfl⟩
    exact (refusedIn_of_noGet hop _ h).trans hh
  · rintro h e _ hh ⟨hk, rfl⟩
    exact ⟨answered_of_known hk, (refusedIn_error op e h).trans hh⟩

theorem tidy_ask (q : Query) : Tidy LetThrough (ask q) := tidy_call trivial

/-! ## Recording an outcome -/

/-- A row read after the discovery refuses when it is ignored, or parked with nothing filed. -/
theorem discover_ends (avid : Avid) (at_ : Time) (source : String) {h : List Event} (hr : Unrefused h) :
    (discover avid at_ { source }).wp (recorded known) (fun _ _ => True)
      (fun _ h' => Unrefused h' ∧ ∀ avid row, refusedNow (⟨.sql (.getAcquisition avid), .ok (some row)⟩ :: h') =
        (row.state = .ignored || (row.state = .needsAttention && !libraryTook h))) EndsSweep h := by
  simp only [discover, rediscover, wp_bind, wp_call_recorded]
  refine ⟨trivial, fun inserted _ => ?_, fun e hk => ends_of_known hr hk⟩
  cases inserted with
  | true => exact ⟨hr, fun avid row => by simp [refusedNow, lostInsert, afterNow, libraryTook]⟩
  | false =>
    simp only [Bool.false_eq_true, if_false, wp_bind, wp_call_recorded]
    refine ⟨trivial, fun row _ => ?_, fun e hk => ends_of_known hr hk⟩
    have hread : Unrefused (⟨.sql (.getAcquisition avid), .ok row⟩ ::
        ⟨.sql (.insertAcquisition avid source none none none at_), .ok false⟩ :: h) := by
      cases row with
      | none => exact hr
      | some row => simpa [Unrefused, refusedIn, refusedNow, lostInsert] using hr
    have hnext : ∀ avid' row', refusedNow (⟨.sql (.getAcquisition avid'), .ok (some row')⟩ ::
        ⟨.sql (.getAcquisition avid), .ok row⟩ :: ⟨.sql (.insertAcquisition avid source none none none at_), .ok false⟩ :: h) =
          (row'.state = .ignored || (row'.state = .needsAttention && !libraryTook h)) := by
      intro avid' row'
      simp [refusedNow, lostInsert, afterNow, libraryTook]
    cases row with
    | none => exact ⟨hread, hnext⟩
    | some existing =>
      dsimp only
      split <;> exact ⟨hread, hnext⟩

/-- Either the move is an edge, or the row that was just read refused it. -/
theorem transition_ends {avid : Avid} {row : AcquisitionRecord} {target : AcquisitionState} {at_ : Time}
    {note : Option String} {next : Option Time} {paths : Option (List String)} {h : List Event}
    (hr : refusedIn h = decide (target ∉ row.state.edges)) :
    (discard (transition avid row.state target at_ note next paths)).wp (recorded known) (fun _ _ => True)
      (fun _ h => Unrefused h) EndsSweep h := by
  rw [wp_discard]
  unfold transition
  split
  · rename_i he
    have hfree : Unrefused h := by simpa [he] using hr
    rw [wp_call_recorded]
    exact ⟨trivial, fun _ _ => hfree, fun e hk => ends_of_known hfree hk⟩
  · rename_i hne
    exact .inl ⟨trivial, by simpa [hne] using hr⟩

/-- The row an archived outcome goes to has been read: only an ignored one refuses it. -/
theorem archivedRow_ends {avid : Avid} {row : AcquisitionRecord} {at_ : Time} {paths : List String} {h : List Event}
    (hr : refusedIn h = decide (row.state = .ignored)) :
    (if row.state = .archived then (pure () : M Unit)
      else discard (transition avid row.state .archived at_ none none (some paths))).wp (recorded known)
        (fun _ _ => True) (fun _ h => Unrefused h) EndsSweep h := by
  split
  · rename_i ha
    exact hr.trans (by simp [ha])
  · rename_i hne
    refine transition_ends (hr.trans ?_)
    cases hs : row.state <;> simp_all [AcquisitionState.edges]

/-- `_record_archived` right after the clock was read, for videos that were filed. -/
theorem recordArchived_ends (source : String) (avid : Avid) (paths : List String) (at_ : Time) {h : List Event}
    (hnow : afterNow h = true) (hfiled : libraryTook h = true) (hr : Unrefused h) :
    (recordArchived source avid paths at_).wp (recorded known) (fun _ _ => True) (fun _ h => Unrefused h) EndsSweep h := by
  simp only [recordArchived, rowFor, wp_bind, wp_call_recorded]
  refine ⟨trivial, fun row _ => ?_, fun e hk => ends_of_known hr hk⟩
  cases row with
  | some row => exact archivedRow_ends (by simp [refusedIn, refusedNow_found hnow, hr])
  | none =>
    simp only [wp_bind, wp_discard, wp_call_recorded]
    refine wp_mono (discover_ends avid at_ source hr) ?_ fun _ _ hx => hx
    rintro _ h' ⟨hr', hread⟩
    refine ⟨trivial, fun row _ => ?_, fun e hk => ends_of_known hr' hk⟩
    cases row with
    | none => exact hr'
    | some row => exact archivedRow_ends (by simp [refusedIn, hread, hr', libraryTook, hfiled])

/-- `_record_attention` right after the clock was read, for videos that were not filed. -/
theorem recordAttention_ends (source : String) (avid : Avid) (reason : String) (at_ : Time) {h : List Event}
    (hnow : afterNow h = true) (hfiled : libraryTook h = false) (hr : Unrefused h) :
    (recordAttention source avid reason at_).wp (recorded known) (fun _ _ => True) (fun _ h => Unrefused h) EndsSweep h := by
  simp only [recordAttention, wp_bind, wp_call_recorded]
  refine ⟨trivial, fun row _ => ?_, fun e hk => ends_of_known hr hk⟩
  cases row with
  | some row =>
    have hread : refusedIn (⟨.sql (.getAcquisition avid), .ok (some row)⟩ :: h) = decide (row.state = .ignored) := by
      simp [refusedIn, refusedNow_found hnow, hr]
    dsimp only
    split
    · rename_i hs
      exact hread.trans (by rcases hs with hs | hs <;> simp [hs])
    · rename_i hne
      refine transition_ends (hread.trans ?_)
      cases hs : row.state <;> simp_all [AcquisitionState.edges]
  | none =>
    simp only [wp_bind, wp_discard, wp_call_recorded]
    refine wp_mono (discover_ends avid at_ source hr) ?_ fun _ _ hx => hx
    rintro _ h' ⟨hr', hread⟩
    refine ⟨trivial, fun row _ => ?_, fun e hk => ends_of_known hr' hk⟩
    cases row with
    | none => exact hr'
    | some row =>
      have hrow : refusedIn (⟨.sql (.getAcquisition avid), .ok (some row)⟩ :: h') =
          decide (row.state = .ignored ∨ row.state = .needsAttention) := by
        simp [refusedIn, hread, hr', libraryTook, hfiled]
      dsimp only
      split
      · rename_i hs
        exact hrow.trans (by simp [hs])
      · rename_i hne
        refine transition_ends (hrow.trans ?_)
        cases hs : row.state <;> simp_all [AcquisitionState.edges]

/-! ## The archive pipeline reads no row -/

theorem selectVideos_tidy (arch : Archiver) (folder : Folder) (expected : Avid) :
    Tidy LetThrough (selectVideos arch folder expected) := by
  unfold selectVideos
  refine keeps_bind (tidy_ask _) fun dir => ?_
  split
  · refine keeps_bind (tidy_ask _) fun videos => keeps_bind (keeps_forEach fun v _ => ?_) fun _ => keeps_pure _
    exact keeps_discard (keeps_attempt (tidy_ask _) fun _ _ h => h.2)
  · exact keeps_pure _

theorem inspectFolder_tidy (arch : Archiver) (folder : Folder) (expected : Avid) :
    Tidy LetThrough (inspectFolder arch folder expected) := by
  unfold inspectFolder
  refine keeps_attempt_bind (selectVideos_tidy arch folder expected) (fun _ => keeps_pure _) fun e h hl => ?_
  cases e with
  | runCancelled => exact hl
  | _ => exact hl.2

theorem fileSelection_tidy (folder : Folder) (selection : VideoSet) (dst : String) (priority : Bool) :
    Tidy LetThrough (fileSelection folder selection dst priority) := by
  unfold fileSelection
  refine keeps_attempt_bind (tidy_ask _) (fun archived => ?_) fun e h hl => ?_
  · cases archived with
    | nil => exact keeps_pure _
    | cons path paths =>
      exact keeps_bind (keeps_discard (keeps_attempt (tidy_ask _) fun _ _ h => h.2)) fun _ => keeps_pure _
  · cases e with
    | runCancelled => exact hl
    | _ => exact hl.2

theorem archiveFolder_tidy (arch : Archiver) (folder : Folder) (dst : String) (priority : Bool) (expected : Avid) :
    Tidy LetThrough (archiveFolder arch folder dst priority expected) := by
  unfold archiveFolder
  refine keeps_bind (inspectFolder_tidy arch folder expected) fun selection => ?_
  cases selection with
  | error result => exact keeps_pure _
  | ok selection => exact fileSelection_tidy folder selection dst priority

theorem archiveLooseGroup_tidy (avid : Avid) (videos : List Video) (dst : String) (priority : Bool) :
    Tidy LetThrough (archiveLooseGroup avid videos dst priority) := by
  unfold archiveLooseGroup
  refine keeps_bind (tidy_ask _) fun archived => ?_
  cases archived with
  | nil => exact keeps_pure _
  | cons path paths => exact keeps_pure _

/-! ## The runs -/

theorem reconcileFolder_ends (s : Scanner) (scan : Scan) (folder : Folder) (route : Route) {h : List Event} (hq : Unfiled h) :
    (s.reconcileFolder scan folder route).wp (recorded known) (fun _ _ => True) (fun _ h => Unrefused h) EndsSweep h := by
  unfold Scanner.reconcileFolder
  rw [wp_bind]
  refine wp_mono (wp_and (archiveFolder_tidy s.archiver folder route.dst route.priority "" h hq.1)
    (archiveFolder_took s.archiver folder route.dst route.priority "" hq.2)) ?_ fun _ _ hx => .inr hx.1
  rintro result h' ⟨hr, hfiled⟩
  rw [wp_bind, wp_call_recorded]
  refine ⟨trivial, fun at_ _ => ?_, fun e hk => ends_of_known hr hk⟩
  cases ho : result.outcome with
  | archived =>
    rw [wp_bind]
    exact wp_mono (recordArchived_ends _ _ _ _ rfl (by simpa [Took, libraryTook, ho] using hfiled) hr) (fun _ _ => id) fun _ _ => id
  | needsAttention =>
    dsimp only
    split
    · rw [wp_bind]
      exact wp_mono (recordAttention_ends _ _ _ _ rfl (by simpa [Took, libraryTook, ho] using hfiled) hr) (fun _ _ => id) fun _ _ => id
    · exact hr
  | _ => exact hr

theorem fileGroup_ends (avid : Avid) (videos : List Video) (dst : String) (priority : Bool) {h : List Event} (hq : Unfiled h) :
    (Sweeper.fileGroup avid videos dst priority).wp (recorded known) (fun _ _ => True) (fun _ h => Unrefused h) EndsSweep
      h := by
  unfold Sweeper.fileGroup
  rw [wp_bind, wp_attempt]
  refine wp_mono (wp_and (archiveLooseGroup_tidy avid videos dst priority h hq.1)
    (archiveLooseGroup_took avid videos dst priority hq.2)) ?_ fun _ _ hx => hx.1.2
  rintro result h' ⟨hr, hfiled⟩
  dsimp only
  rw [wp_bind, wp_call_recorded]
  refine ⟨trivial, fun at_ _ => ?_, fun e hk => ends_of_known hr hk⟩
  cases ho : result.outcome with
  | archived => exact recordArchived_ends _ _ _ _ rfl (by simpa [Took, libraryTook, ho] using hfiled) hr
  | _ => exact recordAttention_ends _ _ _ _ rfl (by simpa [Took, libraryTook, ho] using hfiled) hr

/-- From a checkpoint on nothing is filed yet. -/
theorem ends_after_checkpoint {α : Type} (c : Point) {p : M α}
    (hp : ∀ h, Unfiled h → p.wp (recorded known) (fun _ _ => True) (fun _ h => Unrefused h) EndsSweep h) :
    Tidy EndsSweep (do checkCancelled c; p) := by
  intro h hr
  rw [wp_bind, wp_call_recorded]
  exact ⟨trivial, fun _ _ => hp _ ⟨hr, rfl⟩, fun e hk => ends_of_known hr hk⟩

theorem scanFolder_tidy (s : Scanner) (active : List Avid) (root : String) (route : Route) (scan : Scan) (folder : Folder) :
    Tidy EndsSweep (s.scanFolder active root route scan folder) := by
  refine ends_after_checkpoint (.folder folder.path) fun h hq => ?_
  split
  · exact hq.1
  · split
    · exact hq.1
    · unfold Scanner.isSettled
      rw [wp_bind, wp_bind, wp_call_recorded]
      refine ⟨trivial, fun sighting _ => ?_, fun e hk => ends_of_known hq.1 hk⟩
      rw [wp_pure]
      dsimp only
      split
      · exact reconcileFolder_ends s _ folder route hq
      · exact hq.1

theorem scanner_tidy (s : Scanner) (scan : Scan) : Tidy EndsSweep (s.run scan) := by
  unfold Scanner.run
  refine keeps_bind (tidy_of_letThrough (tidy_call trivial)) fun active => keeps_foldEach (fun route _ scan => ?_) scan
  unfold Scanner.scanRoute
  refine keeps_bind (tidy_of_letThrough (tidy_call trivial)) fun _ =>
    keeps_bind (tidy_of_letThrough (tidy_call trivial)) fun isDir => ?_
  split
  · refine keeps_bind (tidy_of_letThrough (tidy_call trivial)) fun folders =>
      keeps_foldEach (fun folder _ scan => scanFolder_tidy s active _ route scan folder) scan
  · exact keeps_pure _

theorem sweeper_tidy (s : Sweeper) : Tidy EndsSweep s.run := by
  unfold Sweeper.run
  split
  · exact keeps_pure _
  · split
    · exact keeps_pure _
    · refine keeps_bind (tidy_of_letThrough (tidy_call trivial)) fun staged => keeps_forEach fun group _ => ?_
      exact ends_after_checkpoint (.group group.1) fun h hq => fileGroup_ends group.1 group.2 _ _ hq

/-! ## What a run comes to -/

/-- The route was come to, and where its source is a directory every folder of its listing was
scanned to the end. -/
def Scanner.VisitsRoute (s : Scanner) (active : List Avid) (h : List Event) (route : Route) : Prop :=
  let root := s.srcDir ++ "/" ++ route.src
  ⟨.checkCancelled (.route route.src), .ok ()⟩ ∈ h ∧ ∃ there, ⟨.ask (.isDir root), .ok there⟩ ∈ h ∧
    (there = true → ∃ folders, ⟨.ask (.listFolders root), .ok folders⟩ ∈ h ∧
      ∀ folder ∈ folders, ∃ scan, Ran known (s.scanFolder active root route scan folder) h)

/-- Every route, with the active AVIDs of the run's start. -/
def Scanner.VisitsAll (s : Scanner) (h : List Event) : Prop :=
  ∃ active, ⟨.sql .activeAvids, .ok active⟩ ∈ h ∧ ∀ route ∈ s.routes, s.VisitsRoute active h route

/-- Every group of the staged videos was filed or refused, where a route takes them. -/
def Sweeper.VisitsAll (s : Sweeper) (h : List Event) : Prop :=
  s.taskDirPath ≠ "" → ∀ dst priority, s.routeForTaskDir s.taskDirPath = some (dst, priority) →
    ∃ staged, ⟨.ask .stagedVideos, .ok staged⟩ ∈ h ∧ ∀ group ∈ staged.foldl (Sweeper.groupByAvid s.getAvid) [],
      ⟨.checkCancelled (.group group.1), .ok ()⟩ ∈ h ∧ Ran known (Sweeper.fileGroup group.1 group.2 dst priority) h

theorem Scanner.VisitsRoute.mono {s : Scanner} {active : List Avid} {route : Route} {h h' : List Event} (hh : h <:+ h')
    (hv : s.VisitsRoute active h route) : s.VisitsRoute active h' route := by
  obtain ⟨hpoint, there, hthere, hfolders⟩ := hv
  refine ⟨hh.subset hpoint, there, hh.subset hthere, fun ht => ?_⟩
  obtain ⟨folders, hlist, hscanned⟩ := hfolders ht
  refine ⟨folders, hh.subset hlist, fun folder hf => ?_⟩
  obtain ⟨scan, out, h₁, h₂, hran, hsuf⟩ := hscanned folder hf
  exact ⟨scan, out, h₁, h₂, hran, hsuf.trans hh⟩

theorem Scanner.scanRoute_visits {s : Scanner} {active : List Avid} {scan scan' : Scan} {route : Route} {h h' : List Event}
    (hr : Runs (recorded known) h (s.scanRoute active scan route) (.ok scan') h') : s.VisitsRoute active h' route := by
  unfold Scanner.scanRoute at hr
  obtain ⟨_, h₁, hpoint, hr⟩ := runs_bind hr
  obtain rfl := runs_call hpoint
  obtain ⟨there, h₂, hdir, hr⟩ := runs_bind hr
  obtain rfl := runs_call hdir
  refine ⟨(runs_suffix hr).subset (by simp), there, (runs_suffix hr).subset (by simp), ?_⟩
  rintro rfl
  obtain ⟨folders, h₃, hlist, hr⟩ := runs_bind hr
  obtain rfl := runs_call hlist
  refine ⟨folders, (runs_suffix hr).subset (by simp), fun folder hf => ?_⟩
  obtain ⟨scan₁, scan₂, h₄, h₅, _, hscan, hrest⟩ := runs_foldEach hr hf
  exact ⟨scan₁, scan₂, h₄, h₅, hscan, runs_suffix hrest⟩

theorem Scanner.run_visits {s : Scanner} {scan scan' : Scan} {h : List Event}
    (hr : Runs (recorded known) [] (s.run scan) (.ok scan') h) : s.VisitsAll h := by
  unfold Scanner.run at hr
  obtain ⟨active, h₁, hactive, hr⟩ := runs_bind hr
  obtain rfl := runs_call hactive
  refine ⟨active, (runs_suffix hr).subset (by simp), fun route hroute => ?_⟩
  obtain ⟨_, _, _, _, _, hone, hrest⟩ := runs_foldEach hr hroute
  exact (scanRoute_visits hone).mono (runs_suffix hrest)

theorem Sweeper.run_visits {s : Sweeper} {h : List Event} (hr : Runs (recorded known) [] s.run (.ok ()) h) :
    s.VisitsAll h := by
  intro hdir dst priority hroute
  unfold Sweeper.run at hr
  rw [if_neg hdir, hroute] at hr
  obtain ⟨staged, h₁, hstaged, hr⟩ := runs_bind hr
  obtain rfl := runs_call hstaged
  refine ⟨staged, (runs_suffix hr).subset (by simp), fun group hgroup => ?_⟩
  obtain ⟨_, _, h₂, h₃, _, hone, hrest⟩ := runs_foldEach hr hgroup
  obtain ⟨_, h₄, hpoint, hfile⟩ := runs_bind hone
  obtain rfl := runs_call hpoint
  exact ⟨((runs_suffix hfile).trans (runs_suffix hrest)).subset (by simp), _, _, _, hfile, runs_suffix hrest⟩

/-- No illegal edge ended the run, and unless something it was answered did it came to everything. -/
def Survives {α : Type} (all : List Event → Prop) (out : Except Exn α) (h : List Event) : Prop :=
  (∃ e, out = .error e ∧ Answered e h) ∨ ((∃ a, out = .ok a) ∧ all h)

theorem runs_survives {α : Type} {p : M α} {all : List Event → Prop} (hp : Tidy EndsSweep p)
    (hall : ∀ a h, Runs (recorded known) [] p (.ok a) h → all h) {out : Except Exn α} {h : List Event}
    (hr : Runs (recorded known) [] p out h) : Survives all out h ↔ refusedIn h = false := by
  obtain ⟨hok, herr⟩ := wp_runs (hp [] rfl) hr
  cases out with
  | ok a => exact ⟨fun _ => hok a rfl, fun _ => .inr ⟨⟨a, rfl⟩, hall a h hr⟩⟩
  | error e =>
    rcases herr e rfl with ⟨hi, hf⟩ | ⟨ha, hf⟩
    · refine ⟨?_, fun hfree => by rw [hf] at hfree; cases hfree⟩
      rintro (⟨_, ⟨⟩, ha⟩ | ⟨⟨_, ⟨⟩⟩, -⟩)
      exact absurd hi ha.1
    · exact ⟨fun _ => hf, fun _ => .inl ⟨e, rfl, ha⟩⟩

/-- The sweeps survive every ledger row but those that refuse an outcome: a run is ended by an
illegal edge, and passes over what is left, exactly when a row it reads to record an outcome
refuses it. -/
theorem sweeps_legal_iff (s : Scanner) (scan : Scan) (m : Sweeper) :
    (∀ out h, Runs (recorded known) [] (s.run scan) out h → (Survives s.VisitsAll out h ↔ refusedIn h = false)) ∧
    ∀ out h, Runs (recorded known) [] m.run out h → (Survives m.VisitsAll out h ↔ refusedIn h = false) :=
  ⟨fun _ _ => runs_survives (scanner_tidy s scan) fun _ _ => Scanner.run_visits,
    fun _ _ => runs_survives (sweeper_tidy m) fun _ _ => Sweeper.run_visits⟩

/-! ## An ignored title's folder -/

/-- The folders a run came to. -/
def foldersVisited (h : List Event) : List String :=
  h.filterMap fun e =>
    match e.op with
    | .checkCancelled (.folder path) => some path
    | _ => none

def inboxScanner : Scanner where
  archiver := ⟨fun n => if n = "ABC-123" ∨ n = "ABC-123.mp4" then "ABC-123" else "", id, fun _ _ => none⟩
  routes := [⟨"inbox", "library", false⟩]
  srcDir := "/src"
  coversOtherRoute _ _ := false

/-- Two settled folders in the inbox; the first holds one video, and the library has room for it. -/
def inbox : World.Outside
  | .isDir _ => .ok true
  | .listFolders _ => .ok [⟨"/src/inbox/ABC-123", "ABC-123"⟩, ⟨"/src/inbox/downloads", "downloads"⟩]
  | .measure _ => .ok ⟨1, 1⟩
  | .largeVideos "/src/inbox/ABC-123" => .ok [⟨"/src/inbox/ABC-123/ABC-123.mp4", "ABC-123.mp4", 1⟩]
  | .largeVideos _ => .ok []
  | .moveIntoLibrary .. => .ok ["library/ABC/ABC-123.mp4"]
  | _ => .error ⟨.failure "unreachable", trivial⟩

def inboxScan : Scan := { seen := [("/src/inbox/ABC-123", ⟨1, 1⟩), ("/src/inbox/downloads", ⟨1, 1⟩)] }

/-- The ledger once an operator ignored `ABC-123`. -/
def ignoredLedger : Ledger :=
  Ledger.empty.after [.insertAcquisition "ABC-123" "manual" none none none 0,
    .casAcquisition "ABC-123" .discovered .ignored 1 (some "ignored by an operator") none none]

/-- The ledger and the run against it. -/
def inboxRun : Except Exn Scan × World Unit :=
  World.play () (1, inbox) ⟨ignoredLedger, 2, []⟩ (inboxScanner.run inboxScan)

theorem inboxRun_raises : Runs (World.Step (fun _ _ => True) ()) ⟨ignoredLedger, 2, []⟩ (inboxScanner.run inboxScan)
    (.error (.illegalAcquisition .ignored .archived)) inboxRun.2 :=
  World.play_raises (d := (1, inbox)) (by decide)

/-- The video of an ignored title is filed, the run raises, and the second folder is never visited. -/
theorem reconcile_ignored :
    ∃ w : World Unit, Runs (World.Step (fun _ _ => True) ()) ⟨ignoredLedger, 2, []⟩ (inboxScanner.run inboxScan)
        (.error (.illegalAcquisition .ignored .archived)) w ∧
      foldersVisited (w.history ()) = ["/src/inbox/ABC-123"] :=
  ⟨_, inboxRun_raises, by decide⟩

/-- With an empty ledger both folders are scanned: the first is filed and recorded, the second holds no video. -/
def freshRun : Except Exn Scan × World Unit :=
  World.play () (1, inbox) ⟨Ledger.empty, 2, []⟩ (inboxScanner.run inboxScan)

theorem inbox_survived : Survives inboxScanner.VisitsAll freshRun.1 (freshRun.2.history ()) ∧
    foldersVisited (freshRun.2.history ()) = ["/src/inbox/downloads", "/src/inbox/ABC-123"] ∧
    (freshRun.2.ledger.acq "ABC-123").map (·.state) = some .archived :=
  ⟨((sweeps_legal_iff inboxScanner inboxScan ⟨fun _ => "", "", fun _ => none⟩).1 _ _
    (World.runs_recorded (World.play_runs () (1, inbox) ⟨Ledger.empty, 2, []⟩ (inboxScanner.run inboxScan)))).2 (by decide),
    by decide, by decide⟩

end EmbyxManager
