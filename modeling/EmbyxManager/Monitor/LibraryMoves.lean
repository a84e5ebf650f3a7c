import EmbyxManager.Monitor.Footprint
/-!
# What a result says about the library

Filing a folder or a group of loose videos is reported as archived exactly when
the library took videos for it. The history shows it: the move is one question,
and every step of a poll or a sweep begins with a look at the stop token.
-/

namespace EmbyxManager
open Atom Prog AcquisitionRepository Archive

/-- Videos have gone into the library since the newest look at the stop token. -/
def libraryTook : List Event → Bool
  | [] => false
  | ⟨.ask (.moveIntoLibrary ..), .ok archived⟩ :: h => !archived.isEmpty || libraryTook h
  | ⟨.checkCancelled _, _⟩ :: _ => false
  | _ :: h => libraryTook h

theorem libraryTook_cons {op : Op} (hstep : op.inStep = true) (hop : op.files = false) (r : Except Exn op.Res) (h : List Event) :
    libraryTook (⟨op, r⟩ :: h) = libraryTook h := by
  cases op with
  | ask q =>
    cases q with
    | moveIntoLibrary avid videos dst priority => cases hop
    | _ => rfl
  | checkCancelled c => cases hstep
  | _ => rfl

section Took
variable {A : Policy} {α : Type} {h : List Event}

/-- What only tends to folders changes nothing about it. -/
theorem wp_tends {p : M α} (hp : Uses Tends p) {b : Bool} (hb : libraryTook h = b) :
    p.wp (recorded A) (fun _ _ => True) (fun _ h' => libraryTook h' = b) (fun _ h' => libraryTook h' = b) h := by
  refine keeps_of_uses (I := fun h => libraryTook h = b) hp (fun _ _ _ _ => trivial) ?_ h hb
  rintro h op r _ ⟨hask, hfile⟩ hb ⟨-, rfl⟩
  exact (libraryTook_cons hask.inStep hfile r h).trans hb

theorem selectVideos_outcome (arch : Archiver) (folder : Folder) (expected : Avid) :
    (selectVideos arch folder expected).wp (recorded A) (fun _ _ => True)
      (fun selection _ => ∀ result, selection = .error result → result.outcome ≠ .archived) (fun _ _ => True) h := by
  unfold selectVideos
  rw [wp_bind]
  refine wp_mono (wp_trivial _) (fun dir h _ => ?_) fun _ _ => id
  split
  · rw [wp_bind]
    refine wp_mono (wp_trivial _) (fun videos h _ => ?_) fun _ _ => id
    rw [wp_bind]
    exact wp_mono (wp_trivial _) (fun _ _ _ _ hs => select_error hs) fun _ _ => id
  · rintro _ ⟨⟩
    simp

theorem inspectFolder_outcome (arch : Archiver) (folder : Folder) (expected : Avid) :
    (inspectFolder arch folder expected).wp (recorded A) (fun _ _ => True)
      (fun selection _ => ∀ result, selection = .error result → result.outcome ≠ .archived) (fun _ _ => True) h := by
  unfold inspectFolder
  rw [wp_bind, wp_attempt]
  refine wp_mono (selectVideos_outcome arch folder expected) (fun _ _ hs => hs) fun e _ _ => ?_
  cases e with
  | runCancelled => trivial
  | _ =>
    rintro _ ⟨⟩
    simp

theorem inspectFolder_took (arch : Archiver) (folder : Folder) (expected : Avid) (hb : libraryTook h = false) :
    (inspectFolder arch folder expected).wp (recorded A) (fun _ _ => True)
      (fun selection h => libraryTook h = false ∧ ∀ result, selection = .error result → result.outcome ≠ .archived)
      (fun _ _ => True) h :=
  wp_mono (wp_and (wp_tends (uses_inspectFolder arch folder expected) hb) (inspectFolder_outcome arch folder expected))
    (fun _ _ hs => hs) fun _ _ _ => trivial

/-- The library took videos exactly when the result says archived. -/
abbrev Took (result : ArchiveResult) (h : List Event) : Prop := libraryTook h = decide (result.outcome = .archived)

theorem took_problem {result : ArchiveResult} (hout : result.outcome ≠ .archived) (hb : libraryTook h = false) :
    Took result h := hb.trans (by simpa using hout)

theorem fileSelection_took (folder : Folder) (selection : VideoSet) (dst : String) (priority : Bool)
    (hb : libraryTook h = false) :
    (fileSelection folder selection dst priority).wp (recorded A) (fun _ _ => True) Took (fun _ _ => True) h := by
  unfold fileSelection
  rw [wp_bind, wp_attempt, wp_call_recorded]
  refine ⟨trivial, fun archived _ => ?_, fun e _ => ?_⟩
  · cases archived with
    | nil => exact hb
    | cons path paths =>
      dsimp only
      rw [wp_bind, wp_discard, wp_attempt, wp_call_recorded]
      exact ⟨trivial, fun _ _ => rfl, fun _ _ => rfl⟩
  · cases e with
    | runCancelled => trivial
    | _ => exact hb

theorem archiveFolder_took (arch : Archiver) (folder : Folder) (dst : String) (priority : Bool) (expected : Avid)
    (hb : libraryTook h = false) :
    (archiveFolder arch folder dst priority expected).wp (recorded A) (fun _ _ => True) Took (fun _ _ => True) h := by
  unfold archiveFolder
  rw [wp_bind]
  refine wp_mono (inspectFolder_took arch folder expected hb) ?_ fun _ _ => id
  rintro selection h' ⟨hb', hout⟩
  cases selection with
  | error result => exact took_problem (hout result rfl) hb'
  | ok selection => exact fileSelection_took folder selection dst priority hb'

theorem archiveLooseGroup_took (avid : Avid) (videos : List Video) (dst : String) (priority : Bool) (hb : libraryTook h = false) :
    (archiveLooseGroup avid videos dst priority).wp (recorded A) (fun _ _ => True) Took (fun _ _ => True) h := by
  unfold archiveLooseGroup
  rw [wp_bind, wp_call_recorded]
  refine ⟨trivial, fun archived _ => ?_, fun _ _ => trivial⟩
  cases archived with
  | nil => exact hb
  | cons path paths => rfl

namespace Tracker
variable (t : Tracker)

/-- What keeps a replaced copy from being removed is no success. -/
theorem removeReplaced_outcome (avid : Avid) (replacing : List String) :
    (t.removeReplaced avid replacing).wp (recorded A) (fun _ _ => True)
      (fun problem _ => ∀ result, problem = some result → result.outcome ≠ .archived) (fun _ _ => True) h := by
  have none_is : ∀ result : ArchiveResult, (none : Option ArchiveResult) = some result → result.outcome ≠ .archived := by
    rintro _ ⟨⟩
  unfold removeReplaced
  dsimp only
  split
  · rintro _ ⟨⟩
    simp
  rw [wp_bind]
  refine wp_mono (wp_trivial _) (fun present h _ => ?_) fun _ _ => id
  split
  · exact none_is
  split
  · rintro _ ⟨⟩
    simp
  rw [wp_bind]
  refine wp_mono (wp_trivial _) (fun listed h _ => ?_) fun _ _ => id
  rw [wp_bind]
  refine wp_mono (wp_trivial _) (fun _ h _ => ?_) fun _ _ => id
  rw [wp_bind]
  refine wp_mono (wp_trivial _) (fun _ h _ => ?_) fun _ _ => id
  rw [wp_bind]
  refine wp_mono (wp_trivial _) (fun left h _ => ?_) fun _ _ => id
  split
  · exact none_is
  · rintro _ ⟨⟩
    simp

theorem file_took (attempt : MagnetAttemptRecord) (folder : Folder) (route : TrackerRoute) (hb : libraryTook h = false) :
    (t.file attempt folder route).wp (recorded A) (fun _ _ => True) Took (fun _ _ => True) h := by
  unfold file
  rw [wp_bind, wp_call_recorded]
  refine ⟨trivial, fun record _ => ?_, fun _ _ => trivial⟩
  dsimp only
  split
  · exact archiveFolder_took t.archiver folder route.dst route.priority attempt.avid hb
  rw [wp_bind]
  refine wp_mono (inspectFolder_took t.archiver folder attempt.avid hb) ?_ fun _ _ => id
  rintro selection h' ⟨hb', hout⟩
  cases selection with
  | error result => exact took_problem (hout result rfl) hb'
  | ok selection =>
    dsimp only
    rw [wp_bind, wp_attempt]
    refine wp_mono (wp_and (wp_tends (t.uses_removeReplaced attempt.avid _) hb') (t.removeReplaced_outcome attempt.avid _)) ?_ ?_
    · rintro problem h'' ⟨hb'', hproblem⟩
      cases problem with
      | none => exact fileSelection_took folder selection route.dst route.priority hb''
      | some problem => exact took_problem (hproblem problem rfl) hb''
    · rintro e h'' ⟨hb'', -⟩
      exact hb''

end Tracker

end Took

end EmbyxManager
