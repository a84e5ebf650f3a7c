import Mathlib.Data.List.Dedup
import EmbyxManager.Monitor.Components
/-!
# What ends a poll

Each compare-and-set of a poll starts from the state the joined record held, and
the repository raises when the target is no edge of it. Every step keeps to the
edges but one: giving up on an attempt that CloudDrive reports failed, when the
ledger already holds it as finished or archiving.

The steps are shown sound over histories with arbitrary answers, so the other
writers may do anything in between.
-/

namespace EmbyxManager
open Atom Prog AcquisitionRepository Archive

/-- What may end a poll: an exception it was answered, or the interpreter's limit. -/
def EndsPoll (e : Exn) (h : List Event) : Prop := Answered e h ∨ e = .recursionError

/-- The program asks for no illegal edge, whatever it is answered. -/
abbrev Sound {α : Type} (p : M α) : Prop :=
  p.Keeps (recorded known) (fun _ _ => True) (fun _ => True) EndsPoll

section Repository
variable {avid : Avid} {at_ : Time}

end Repository

/-! ## The archive pipeline -/

namespace Tracker
variable (t : Tracker)

/-! ## The steps of a poll -/

/-- The tasks by hash when CloudDrive lists so. -/
def merged (listing : String → List OfflineTask) : Listing :=
  t.taskDirPaths.foldl (fun byHash taskDir => mergeTasks byHash taskDir (listing taskDir)) []

theorem mergeTasks_ne_empty (tasks : List OfflineTask) (taskDir : String) {byHash : Listing}
    (hb : ∀ h ∈ byHash.map (·.1), h ≠ "") : ∀ h ∈ (mergeTasks byHash taskDir tasks).map (·.1), h ≠ "" := by
  induction tasks generalizing byHash with
  | nil => exact hb
  | cons task tasks ih =>
    refine ih ?_
    unfold listTask
    split
    · exact hb
    · rename_i hne
      intro h hm
      simp only [List.map_append, List.map_cons, List.map_nil, List.mem_append, List.mem_singleton] at hm
      rcases hm with hm | rfl
      · exact hb h hm
      · exact fun he => hne (.inl he)

theorem mem_queried {h : InfoHash} {hashes : List InfoHash} : h ∈ queried hashes ↔ h ∈ hashes ∧ h ≠ "" := by
  simp [queried, List.mem_dedup]

end Tracker

end EmbyxManager
