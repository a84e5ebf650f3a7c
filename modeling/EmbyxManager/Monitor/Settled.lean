import EmbyxManager.Monitor.Footprint
import EmbyxManager.Monitor.SweepEdges
/-!
# When a folder is settled

A scanner remembers how a folder looked when it was last measured, and forgets it only
when it has archived it. A pass that does not measure the folder (it is away, or the
tracker's, or under no route) leaves the memory as it is. So a folder that comes back
looking as it did is settled at once, whatever the pass before saw.
-/

namespace EmbyxManager
open Atom Prog AcquisitionRepository Archive

namespace Scanner

/-! ## What a pass notes -/

/-- What the newest event says of a folder: how it looks, or that it has been archived. The
clock is read next after a folder is discarded. -/
def noted : List Event → Option (String × Option Sighting)
  | ⟨.ask (.measure folder), .ok sighting⟩ :: _ => some (folder, some sighting)
  | ⟨.now, .ok _⟩ :: ⟨.ask (.discard folder), _⟩ :: _ => some (folder, none)
  | _ => none

/-- `_seen` after these events of a pass, newest first. -/
def seenAfter (seen : List (String × Sighting)) : List Event → List (String × Sighting)
  | [] => seen
  | e :: h =>
    match noted (e :: h) with
    | some (folder, some sighting) => (folder, sighting) :: (seenAfter seen h).filter (·.1 ≠ folder)
    | some (folder, none) => (seenAfter seen h).filter (·.1 ≠ folder)
    | none => seenAfter seen h

/-- The passes one scanner has made, the last first, each with all it asked and was answered, newest
first; and how folders look in its memory. Every pass has a configuration of its own, and may be cut
short anywhere. -/
inductive Passes : List (String × Sighting) → List (List Event) → Prop
  | none : Passes [] []
  | pass {seen passes h} (s : Scanner) (reported : List String) (past : Passes seen passes)
      (run : (s.run { seen, reported }).Stops (recorded fun _ _ => True) [] h) : Passes (seenAfter seen h) (h :: passes)

/-! ## The promise -/

/-- What `archive_folder` looks at, right after it was measured, the pass before measured too and it
looked the same. -/
def SettledOnly (previous events : List Event) : Prop :=
  ∀ folder sighting r before,
    (⟨.ask (.isDir folder), r⟩ : Event) :: ⟨.ask (.measure folder), .ok sighting⟩ :: before <:+ events →
      (⟨.ask (.measure folder), .ok sighting⟩ : Event) ∈ previous

/-- How the folder looked last, after what is known from earlier; none when it was archived since. -/
def lookIn (folder : String) (earlier : Option Sighting) : List Event → Option Sighting
  | [] => earlier
  | e :: h =>
    match noted (e :: h) with
    | some (other, look) => if other = folder then look else lookIn folder earlier h
    | none => lookIn folder earlier h

def lastLook (folder : String) (passes : List (List Event)) : Option Sighting :=
  passes.foldr (fun events earlier => lookIn folder earlier events) none

/-- No folder comes back as it was: what is measured and looks as it did last, whenever that was, the
pass before measured too and it looked the same. -/
def NoReturn (older : List (List Event)) (events : List Event) : Prop :=
  ∀ e folder sighting before, e :: (⟨.ask (.measure folder), .ok sighting⟩ : Event) :: before <:+ events →
    lookIn folder (lastLook folder older) before = some sighting →
      (⟨.ask (.measure folder), .ok sighting⟩ : Event) ∈ older.headD []

/-! ## The memory -/

theorem lookup_forget (seen : List (String × Sighting)) (folder other : String) :
    (seen.filter (·.1 ≠ other)).lookup folder = if other = folder then none else seen.lookup folder := by
  induction seen with
  | nil => simp
  | cons x seen ih =>
    obtain ⟨key, sighting⟩ := x
    by_cases hkey : key = other
    · rw [List.filter_cons_of_neg (by simpa using hkey), ih, List.lookup_cons]
      by_cases hother : other = folder
      · rw [if_pos hother, if_pos hother]
      · have hne : (folder == key) = false := by simpa using fun h : folder = key => hother (h.trans hkey).symm
        rw [if_neg hother, if_neg hother, hne]
    · rw [List.filter_cons_of_pos (by simpa using hkey), List.lookup_cons, ih, List.lookup_cons]
      by_cases hother : other = folder
      · have hne : (folder == key) = false := by simpa using fun h : folder = key => hkey (h.symm.trans hother.symm)
        rw [if_pos hother, if_pos hother, hne]
      · rw [if_neg hother, if_neg hother]

/-- The memory of a folder is how it looked last. -/
theorem lookup_seenAfter (seen : List (String × Sighting)) (folder : String) (h : List Event) :
    (seenAfter seen h).lookup folder = lookIn folder (seen.lookup folder) h := by
  induction h with
  | nil => rfl
  | cons e h ih =>
    unfold seenAfter lookIn
    cases noted (e :: h) with
    | none => exact ih
    | some note =>
      obtain ⟨other, look⟩ := note
      dsimp only
      cases look with
      | none =>
        dsimp only
        rw [lookup_forget, ih]
      | some sighting =>
        dsimp only
        rw [List.lookup_cons, lookup_forget, ih]
        by_cases hother : other = folder
        · rw [if_pos hother, if_pos hother, beq_iff_eq.2 hother.symm]
        · have hne : (folder == other) = false := by simpa using fun h : folder = other => hother h.symm
          rw [if_neg hother, if_neg hother, hne]

theorem lookup_of_passes {seen : List (String × Sighting)} {passes : List (List Event)} (h : Passes seen passes) (folder : String) :
    seen.lookup folder = lastLook folder passes := by
  induction h with
  | none => rfl
  | pass s reported past run ih => rw [lookup_seenAfter, ih, lastLook, lastLook, List.foldr_cons]

/-! ## One pass -/

/-- A measuring, or what is done to a folder once it is archived. -/
def notes : Op → Bool
  | .ask (.measure _) | .ask (.discard _) => true
  | _ => false

/-- Nothing has just been noted. -/
def Plain (h : List Event) : Prop := ∀ e rest, h = e :: rest → notes e.op = false

/-- A folder just measured is looked at exactly when it looks as it is remembered. -/
def Guarded (seen : List (String × Sighting)) (h : List Event) (op : Op) : Prop :=
  ∀ folder sighting before, h = ⟨.ask (.measure folder), .ok sighting⟩ :: before →
    (op = .ask (.isDir folder) ↔ (seenAfter seen before).lookup folder = some sighting)

/-- The memory is kept, and a folder just measured is not settled. -/
structure Between (seen : List (String × Sighting)) (scan : Scan) (h : List Event) : Prop where
  kept : scan.seen = seenAfter seen h
  unsettled : ∀ folder sighting before, h = ⟨.ask (.measure folder), .ok sighting⟩ :: before →
    (seenAfter seen before).lookup folder ≠ some sighting

/-- Between two notes, the memory is what it was. -/
def Unchanged (seen now : List (String × Sighting)) (h : List Event) : Prop := seenAfter seen h = now ∧ Plain h

section Pass
variable {seen now : List (String × Sighting)} {scan : Scan} {h : List Event} {op : Op} {r : Except Exn op.Res} {α : Type}

theorem noted_plain (hop : notes op = false) (hp : Plain h) : noted (⟨op, r⟩ :: h) = none := by
  unfold noted
  split
  · rename_i heq
    cases heq
    cases hop
  · rename_i heq
    cases heq
    cases hp _ _ rfl
  · rfl

theorem plain_cons (hop : notes op = false) : Plain (⟨op, r⟩ :: h) := by
  rintro e rest ⟨⟩
  exact hop

theorem Unchanged.cons (hop : notes op = false) (hu : Unchanged seen now h) : Unchanged seen now (⟨op, r⟩ :: h) := by
  obtain ⟨hseen, hplain⟩ := hu
  refine ⟨?_, plain_cons hop⟩
  rw [seenAfter, noted_plain hop hplain]
  exact hseen

theorem Plain.guarded (hp : Plain h) (op : Op) : Guarded seen h op := by
  rintro folder sighting before rfl
  cases hp _ _ rfl

theorem Unchanged.between (hu : Unchanged seen scan.seen h) : Between seen scan h := by
  refine ⟨hu.1.symm, ?_⟩
  rintro folder sighting before rfl
  cases hu.2 _ _ rfl

/-- After a folder that is not settled, no folder is looked at. -/
theorem Between.guarded (hb : Between seen scan h) (hop : ∀ path, op ≠ .ask (.isDir path)) : Guarded seen h op := by
  intro folder sighting before heq
  exact iff_of_false (hop folder) (hb.unsettled folder sighting before heq)

theorem wp_unchanged {p : M α} (hp : Uses (fun op => notes op = false) p) (hu : Unchanged seen now h) {Q : α → List Event → Prop}
    {X : Exn → List Event → Prop} (hQ : ∀ a h', Unchanged seen now h' → Q a h') (hX : ∀ e h', Unchanged seen now h' → X e h') :
    p.wp (recorded fun _ _ => True) (Guarded seen) Q X h := by
  have hkeeps : Keeps (recorded fun _ _ => True) (Guarded seen) (Unchanged seen now) (fun _ => Unchanged seen now) p := by
    refine keeps_of_uses hp (fun h op _ hu => hu.2.guarded op) ?_
    rintro h op r _ hop hu ⟨-, rfl⟩
    exact hu.cons hop
  exact wp_mono (hkeeps h hu) hQ hX

/-- The stop token, between two folders. -/
theorem wp_token {p : Point} {Q : Unit → List Event → Prop} (hb : Between seen scan h)
    (hQ : ∀ h', Unchanged seen scan.seen h' → Q () h') :
    (checkCancelled p).wp (recorded fun _ _ => True) (Guarded seen) Q (fun _ _ => True) h := by
  rw [wp_call_recorded]
  refine ⟨hb.guarded (fun path heq => by cases heq), fun a _ => hQ _ ⟨?_, plain_cons rfl⟩, fun _ _ => trivial⟩
  rw [hb.kept]
  rfl

/-- What an outcome leaves to note: the folder it was archived from. -/
def Leaves (seen now : List (String × Sighting)) (folder : Folder) (outcome : Outcome) (h : List Event) : Prop :=
  if outcome = .archived then ∃ r before, h = ⟨.ask (.discard folder.path), r⟩ :: before ∧ seenAfter seen before = now
  else Unchanged seen now h

/-- A selection that raised is a failed folder. -/
theorem wp_selection_failed (e : Exn) {h : List Event} (hu : Unchanged seen now h) :
    (match (Except.error e : Except Exn (Except ArchiveResult VideoSet)) with
      | .ok selection => pure selection
      | .error .runCancelled => .raise .runCancelled
      | .error e => pure (.error { outcome := .failed, reason := e.str }) : M (Except ArchiveResult VideoSet)).wp
      (recorded fun _ _ => True) (Guarded seen)
      (fun r h' => Unchanged seen now h' ∧ ∀ result, r = .error result → result.outcome ≠ .archived) (fun _ _ => True) h := by
  cases e with
  | runCancelled => trivial
  | _ =>
    refine ⟨hu, ?_⟩
    rintro result ⟨⟩
    exact Outcome.noConfusion

theorem wp_inspectFolder_unchanged (s : Scanner) (f : Folder) {sighting : Sighting} {before : List Event}
    (h : (seenAfter seen before).lookup f.path = some sighting)
    (hnow : seenAfter seen (⟨.ask (.measure f.path), .ok sighting⟩ :: before) = now) :
    (inspectFolder s.archiver f).wp (recorded fun _ _ => True) (Guarded seen)
      (fun r h' => Unchanged seen now h' ∧ ∀ result, r = .error result → result.outcome ≠ .archived) (fun _ _ => True)
      (⟨.ask (.measure f.path), .ok sighting⟩ :: before) := by
  -- the folder was settled, and this is the look at it
  have hlook : Guarded seen (⟨.ask (.measure f.path), .ok sighting⟩ :: before) (.ask (.isDir f.path)) := by
    rintro folder sighting' before' ⟨⟩
    exact iff_of_true rfl h
  have hfirst : ∀ r, Unchanged seen now (⟨.ask (.isDir f.path), r⟩ :: ⟨.ask (.measure f.path), .ok sighting⟩ :: before) :=
    fun r => ⟨hnow, plain_cons rfl⟩
  have hvideos : ∀ dir r, Unchanged seen now (⟨.ask (.largeVideos f.path), r⟩ :: ⟨.ask (.isDir f.path), .ok dir⟩ ::
      ⟨.ask (.measure f.path), .ok sighting⟩ :: before) := fun dir r => (hfirst (.ok dir)).cons rfl
  unfold inspectFolder selectVideos
  rw [wp_bind, wp_attempt, wp_bind, wp_call_recorded]
  refine ⟨hlook, fun dir _ => wp_ite (fun _ => ?_) fun _ => ?_, fun e _ => wp_selection_failed e (hfirst _)⟩
  · rw [wp_bind, wp_call_recorded]
    refine ⟨(hfirst _).2.guarded _, fun videos _ => ?_, fun e _ => wp_selection_failed e (hvideos _ _)⟩
    rw [wp_bind]
    have hunlink : ∀ v : Video, notes (.ask (.unlink v.path)) = false := fun _ => rfl
    refine wp_unchanged (uses_forEach fun v _ => uses_discard (uses_attempt (uses_ok (hunlink v)))) (hvideos _ _) (fun _ h' hu => ?_) fun e _ hu => wp_selection_failed e hu
    exact ⟨hu, fun result hresult => select_error hresult⟩
  · refine ⟨hfirst _, ?_⟩
    rintro result ⟨⟩
    exact Outcome.noConfusion

theorem wp_archiveFolder_leaves (s : Scanner) (f : Folder) (route : Route) {sighting : Sighting} {before : List Event}
    (h : (seenAfter seen before).lookup f.path = some sighting)
    (hnow : seenAfter seen (⟨.ask (.measure f.path), .ok sighting⟩ :: before) = now) :
    (archiveFolder s.archiver f route.dst route.priority).wp (recorded fun _ _ => True) (Guarded seen)
      (fun result => Leaves seen now f result.outcome) (fun _ _ => True) (⟨.ask (.measure f.path), .ok sighting⟩ :: before) := by
  unfold archiveFolder
  rw [wp_bind]
  refine wp_mono (wp_inspectFolder_unchanged s f h hnow) ?_ fun _ _ _ => trivial
  rintro r h' ⟨hu, hoc⟩
  cases r with
  | error result =>
    change Leaves _ _ _ _ _
    rw [Leaves, if_neg (hoc result rfl)]
    exact hu
  | ok selection =>
    dsimp only
    unfold fileSelection
    rw [wp_bind, wp_attempt, wp_call_recorded]
    have hmoved : ∀ r, Unchanged seen now (⟨.ask (.moveIntoLibrary selection.avid selection.videos route.dst route.priority), r⟩ :: h') :=
      fun r => hu.cons rfl
    refine ⟨hu.2.guarded _, fun archived _ => ?_, fun e _ => ?_⟩
    · cases archived with
      | nil => exact hmoved _
      | cons path paths =>
        dsimp only
        rw [wp_bind, wp_discard, wp_attempt, wp_call_recorded]
        exact ⟨(hmoved _).2.guarded _, fun _ _ => ⟨_, _, rfl, (hmoved _).1⟩, fun _ _ => ⟨_, _, rfl, (hmoved _).1⟩⟩
    · cases e with
      | runCancelled => trivial
      | _ => exact hmoved _

theorem notes_of_quietSql {op : Op} (hop : QuietSql op) : notes op = false := by
  cases op with
  | sql statement => rfl
  | _ => cases hop.2

/-- The clock read after a folder was discarded. -/
theorem unchanged_forgotten {folder : String} {r : Except Exn Unit} {before : List Event} {at_ : Time}
    (h : seenAfter seen before = now) :
    Unchanged seen (now.filter (·.1 ≠ folder)) (⟨.now, .ok at_⟩ :: ⟨.ask (.discard folder), r⟩ :: before) := by
  refine ⟨?_, plain_cons rfl⟩
  rw [← h]
  rfl

theorem wp_reconcileFolder_between (s : Scanner) (f : Folder) (route : Route) {sighting : Sighting} {before : List Event}
    (h : (seenAfter seen before).lookup f.path = some sighting)
    (hnow : scan.seen = seenAfter seen (⟨.ask (.measure f.path), .ok sighting⟩ :: before)) :
    (s.reconcileFolder scan f route).wp (recorded fun _ _ => True) (Guarded seen) (Between seen) (fun _ _ => True)
      (⟨.ask (.measure f.path), .ok sighting⟩ :: before) := by
  unfold reconcileFolder
  rw [wp_bind]
  refine wp_mono (wp_archiveFolder_leaves s f route h hnow.symm) (fun result h' hleaves => ?_) fun _ _ _ => trivial
  rw [wp_bind, wp_call_recorded]
  unfold Leaves at hleaves
  -- a filed folder is forgotten, one that needs attention is reported once
  cases hoc : result.outcome with
  | archived =>
    rw [hoc, if_pos rfl] at hleaves
    obtain ⟨r, rest, rfl, hrest⟩ := hleaves
    refine ⟨?_, fun at_ _ => ?_, fun _ _ => trivial⟩
    · rintro folder sighting' before' ⟨⟩
    · rw [wp_bind]
      refine wp_unchanged (uses_recordArchived (fun _ => notes_of_quietSql) _ _ _ _ fun _ _ => rfl) (unchanged_forgotten hrest) ?_
        fun _ _ _ => trivial
      exact fun _ h' (hu : Unchanged seen ({ scan with seen := scan.seen.filter (·.1 ≠ f.path) } : Scan).seen h') => hu.between
  | needsAttention =>
    rw [hoc, if_neg Outcome.noConfusion] at hleaves
    refine ⟨hleaves.2.guarded _, fun at_ _ => wp_ite (fun _ => ?_) fun _ => ?_, fun _ _ => trivial⟩
    · rw [wp_bind]
      exact wp_unchanged (uses_recordAttention (fun _ => notes_of_quietSql) _ _ _ _ fun _ _ => rfl) (hleaves.cons rfl)
        (fun _ _ hu => hu.between) fun _ _ _ => trivial
    · rw [wp_pure]
      by_cases hreported : f.path ∈ scan.reported
      · rw [if_pos hreported]
        exact (hleaves.cons rfl).between
      · rw [if_neg hreported]
        have hu : Unchanged seen ({ scan with reported := f.path :: scan.reported } : Scan).seen (⟨.now, .ok at_⟩ :: h') := hleaves.cons rfl
        exact hu.between
  | _ =>
    rw [hoc, if_neg Outcome.noConfusion] at hleaves
    exact ⟨hleaves.2.guarded _, fun at_ _ => (hleaves.cons rfl).between, fun _ _ => trivial⟩

theorem wp_scanFolder_between (s : Scanner) (active : List Avid) (root : String) (route : Route) (f : Folder)
    (hb : Between seen scan h) :
    (s.scanFolder active root route scan f).wp (recorded fun _ _ => True) (Guarded seen) (Between seen) (fun _ _ => True) h := by
  unfold scanFolder
  rw [wp_bind]
  refine wp_token hb fun h₁ hu => wp_ite (fun _ => hu.between) fun _ => wp_ite (fun _ => hu.between) fun _ => ?_
  unfold isSettled
  rw [wp_bind, wp_bind, wp_call_recorded]
  refine ⟨hu.2.guarded _, fun sighting _ => ?_, fun _ _ => trivial⟩
  have hkept : (see scan f sighting).seen = seenAfter seen (⟨.ask (.measure f.path), .ok sighting⟩ :: h₁) := by
    rw [see, ← hu.1]
    rfl
  rw [wp_pure]
  refine wp_ite (fun hsettled => ?_) fun hnot => ⟨hkept, ?_⟩
  · exact wp_reconcileFolder_between s f route (by rw [hu.1]; simpa using hsettled) hkept
  · rintro folder sighting' before ⟨⟩
    rw [hu.1]
    simpa using hnot

theorem wp_scanRoute_between (s : Scanner) (active : List Avid) (route : Route) (hb : Between seen scan h) :
    (s.scanRoute active scan route).wp (recorded fun _ _ => True) (Guarded seen) (Between seen) (fun _ _ => True) h := by
  unfold scanRoute
  rw [wp_bind]
  refine wp_token hb fun h₁ hu => ?_
  rw [wp_bind, wp_call_recorded]
  refine ⟨hu.2.guarded _, fun dir _ => wp_ite (fun _ => ?_) fun _ => (hu.cons rfl).between, fun _ _ => trivial⟩
  rw [wp_bind, wp_call_recorded]
  have hroot : Unchanged seen scan.seen (⟨.ask (.isDir (s.srcDir ++ "/" ++ route.src)), .ok dir⟩ :: h₁) := hu.cons rfl
  refine ⟨hroot.2.guarded _, fun folders _ => ?_, fun _ _ => trivial⟩
  exact wp_foldEach (fun _ => Between seen) (fun f _ scan h hb => wp_scanFolder_between s active _ route f hb) (fun _ _ hb => hb)
    (hroot.cons rfl).between

/-- A pass looks at a folder only right after it has measured it, and exactly when it looks as it is
remembered; its memory is then what it has noted. -/
theorem wp_run_between (s : Scanner) (scan : Scan) :
    (s.run scan).wp (recorded fun _ _ => True) (Guarded scan.seen) (Between scan.seen) (fun _ _ => True) [] := by
  have hnew : Unchanged scan.seen scan.seen [] := ⟨rfl, fun e rest heq => by cases heq⟩
  unfold run
  rw [wp_bind, wp_call_recorded]
  refine ⟨hnew.2.guarded _, fun active _ => ?_, fun _ _ => trivial⟩
  exact wp_foldEach (fun _ => Between scan.seen) (fun route _ scan h hb => wp_scanRoute_between s active route hb) (fun _ _ hb => hb)
    (hnew.cons rfl).between

/-- A pass that ends leaves the memory it has noted. -/
theorem run_seen (s : Scanner) {scan' : Scan} (h : (s.run scan).Runs (recorded fun _ _ => True) [] (.ok scan') h') :
    scan'.seen = seenAfter scan.seen h' :=
  (wp_runs_ok (wp_run_between s scan) h).kept

end Pass

/-! ## Every history -/

/-- What a pass is guarded by stands at each of its actions. -/
theorem guarded_of_stops {s : Scanner} {scan : Scan} {events : List Event}
    (h : (s.run scan).Stops (recorded fun _ _ => True) [] events) {e : Event} {before : List Event} (he : e :: before <:+ events) :
    Guarded scan.seen before e.op := by
  have hall : ∀ e before, e :: before <:+ events → Guarded scan.seen before e.op := by
    refine wp_stops (I := fun h => ∀ e before, e :: before <:+ h → Guarded scan.seen before e.op) ?_ (wp_run_between s scan) ?_ h
    · rintro h op r _ hI hguarded ⟨-, rfl⟩ e before he
      rcases List.suffix_cons_iff.1 he with heq | he
      · cases heq
        exact hguarded
      · exact hI e before he
    · intro e before he
      cases List.suffix_nil.1 he
  exact hall e before he

/-- The folder measured is what is looked at next exactly when it looks as it did last. -/
theorem looked_at_iff {seen : List (String × Sighting)} {older : List (List Event)} {events : List Event}
    (h : Passes seen (events :: older)) {e : Event} {folder : String} {sighting : Sighting} {before : List Event}
    (he : e :: (⟨.ask (.measure folder), .ok sighting⟩ : Event) :: before <:+ events) :
    e.op = .ask (.isDir folder) ↔ lookIn folder (lastLook folder older) before = some sighting := by
  cases h with
  | pass s reported past run =>
    rw [← lookup_of_passes past, ← lookup_seenAfter]
    exact guarded_of_stops run he folder sighting before rfl

theorem passes_suffix {seen : List (String × Sighting)} {passes later : List (List Event)} (h : Passes seen (later ++ passes)) :
    ∃ seen, Passes seen passes := by
  induction later generalizing seen with
  | nil => exact ⟨seen, h⟩
  | cons events later ih =>
    cases h with
    | pass s reported past run => exact ih past

theorem settledOnly_iff_noReturn {seen : List (String × Sighting)} {older : List (List Event)} {events : List Event}
    (h : Passes seen (events :: older)) : SettledOnly (older.headD []) events ↔ NoReturn older events := by
  constructor
  · intro hsettled e folder sighting before he hlook
    obtain ⟨op, r⟩ := e
    obtain rfl : op = .ask (.isDir folder) := (looked_at_iff h he).2 hlook
    exact hsettled folder sighting r before he
  · intro hno folder sighting r before he
    exact hno _ folder sighting before he ((looked_at_iff h he).1 rfl)

/-- In every history of passes, whatever they find and however they are configured, only what the pass
before measured alike is handed over, in every pass exactly when no folder comes back as it was. -/
theorem settled_only_iff {seen : List (String × Sighting)} {passes : List (List Event)} (h : Passes seen passes) :
    (∀ events older, events :: older <:+ passes → SettledOnly (older.headD []) events) ↔
      ∀ events older, events :: older <:+ passes → NoReturn older events := by
  have heach : ∀ events older, events :: older <:+ passes → (SettledOnly (older.headD []) events ↔ NoReturn older events) := by
    rintro events older ⟨later, rfl⟩
    obtain ⟨seen', h'⟩ := passes_suffix h
    exact settledOnly_iff_noReturn h'
  exact ⟨fun hall events older hsuffix => (heach events older hsuffix).1 (hall events older hsuffix),
    fun hall events older hsuffix => (heach events older hsuffix).2 (hall events older hsuffix)⟩

/-! ## A folder that was away -/

namespace Returned

/-- The inbox while nothing is in it. -/
def away : World.Outside
  | .isDir _ => .ok true
  | .listFolders _ => .ok []
  | _ => .error ⟨.failure "unreachable", trivial⟩

/-- A pass over an empty ledger. -/
def events (out : World.Outside) (seen : List (String × Sighting)) : List Event :=
  (World.play () (1, out) ⟨Ledger.empty, 0, []⟩ (inboxScanner.run { seen })).2.history ()

theorem stops_events (out : World.Outside) (seen : List (String × Sighting)) :
    (inboxScanner.run { seen }).Stops (recorded fun _ _ => True) [] (events out seen) := by
  have hruns := World.runs_recorded (World.play_runs () (1, out) ⟨Ledger.empty, 0, []⟩ (inboxScanner.run { seen }))
  exact (hruns.mono fun _ _ _ _ ht => ⟨trivial, ht.2⟩).stops

/-- One pass after another, the first at the end. -/
def passes : List World.Outside → List (String × Sighting) × List (List Event)
  | [] => ([], [])
  | out :: outs =>
    let (seen, past) := passes outs
    (seenAfter seen (events out seen), events out seen :: past)

theorem passes_passes (outs : List World.Outside) : Passes (passes outs).1 (passes outs).2 := by
  induction outs with
  | nil => exact .none
  | cons out outs ih => exact .pass inboxScanner [] ih (stops_events out _)

/-- The folders looked at right after they were measured. -/
def lookedAt : List Event → List String
  | [] => []
  | e :: h =>
    match e, h with
    | ⟨.ask (.isDir folder), _⟩, ⟨.ask (.measure other), .ok _⟩ :: _ => (if folder = other then [folder] else []) ++ lookedAt h
    | _, _ => lookedAt h

theorem mem_lookedAt {folder : String} {h : List Event} (hmem : folder ∈ lookedAt h) :
    ∃ sighting r before, (⟨.ask (.isDir folder), r⟩ : Event) :: ⟨.ask (.measure folder), .ok sighting⟩ :: before <:+ h := by
  induction h with
  | nil => cases hmem
  | cons e h ih =>
    have hlater : folder ∈ lookedAt h → ∃ sighting r before,
        (⟨.ask (.isDir folder), r⟩ : Event) :: ⟨.ask (.measure folder), .ok sighting⟩ :: before <:+ e :: h := by
      intro hmem
      obtain ⟨sighting, r, before, hsuffix⟩ := ih hmem
      exact ⟨sighting, r, before, hsuffix.trans (List.suffix_cons e h)⟩
    unfold lookedAt at hmem
    split at hmem
    · rename_i other r other' sighting before
      rcases List.mem_append.1 hmem with hmem | hmem
      · by_cases hother : other = other'
        · rw [if_pos hother] at hmem
          obtain rfl := List.mem_singleton.1 hmem
          exact ⟨sighting, r, before, hother ▸ List.suffix_refl _⟩
        · rw [if_neg hother] at hmem
          cases hmem
      · exact hlater hmem
    · exact hlater hmem

/-- The folders a pass measured. -/
def measured (h : List Event) : List String :=
  h.filterMap fun
    | ⟨.ask (.measure folder), .ok _⟩ => some folder
    | _ => none

end Returned

open Returned in
theorem settled_only_twice :
    Passes (passes [inbox, inbox]).1 (passes [inbox, inbox]).2 ∧
      (passes [inbox, inbox]).2.map lookedAt = [["/src/inbox/downloads", "/src/inbox/ABC-123"], []] ∧
      ((∀ events older, events :: older <:+ (passes [inbox, inbox]).2 → SettledOnly (older.headD []) events) ↔
        ∀ events older, events :: older <:+ (passes [inbox, inbox]).2 → NoReturn older events) :=
  ⟨passes_passes _, by decide, settled_only_iff (passes_passes _)⟩

open Returned in
/-- The second pass finds the inbox empty, and the third hands over what the first saw. -/
theorem returned_handed_over :
    ∃ seen first second third, Passes seen [third, second, first] ∧ measured second = [] ∧
      ¬ SettledOnly second third := by
  refine ⟨_, _, _, _, passes_passes [inbox, away, inbox], by decide, fun hsettled => ?_⟩
  have hlooked : "/src/inbox/ABC-123" ∈ lookedAt (events inbox (passes [away, inbox]).1) := by decide
  obtain ⟨sighting, r, before, hsuffix⟩ := mem_lookedAt hlooked
  have hmem := hsettled _ sighting r before hsuffix
  have hnone : measured (events away (passes [inbox]).1) = [] := by decide
  have hin : "/src/inbox/ABC-123" ∈ measured (events away (passes [inbox]).1) := List.mem_filterMap.2 ⟨_, hmem, rfl⟩
  rw [hnone] at hin
  cases hin

end Scanner

end EmbyxManager
