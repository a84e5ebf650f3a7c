import EmbyxManager.Atom.Pool
import EmbyxManager.Merge.LastCopy
/-!
# A cancel that is refused

Several processes work on one task. Each has a tick lock of its own, so within a
process one operation follows another, but between two processes only the row's
compare-and-set decides. `cancel` comes to it last, after everything it deletes.
-/

namespace EmbyxManager.Merge
open Atom Prog

/-! ## Processes on one row -/

/-- Whether what a deletion is about is there when it is asked for, and whether it is there afterwards. -/
structure Found where
  there : Bool
  left : Bool
  nothingNew : left = true → there = true

/-- What the answer to a deletion says of it: `unlink` tells whether there was a file, CloudDrive and Kubernetes
only that there is nothing any more. One that raises or is declined may have been carried out or not. -/
def Found.Answers (d : Found) : (op : Op) → Except Exc (Res op) → Prop
  | .unlink .., .ok (was : Bool) => d.there = was ∧ d.left = false
  | .unlink .., .error _ => d.left = d.there
  | .deleteFiles .., .ok (result : CloudResult) => result.success = true → d.left = false
  | .deleteJob .., .ok _ => d.left = false
  | _, _ => True

/-- One action of one process, the row it found, and what there was to delete where it deletes. -/
structure Entry (ι : Type) where
  process : ι
  op : Op
  ans : Except Exc (Res op)
  row : MergeTask
  found : Found

/-- The row, and what was done, newest first. -/
structure Shared (ι : Type) where
  row : MergeTask
  log : List (Entry ι)

namespace Shared

def answers {ι : Type} (i : ι) : Env Res Exc (Shared ι) := fun w op r w' =>
  raisesOutside r ∧ rowAnswers w.row w'.row op r ∧ ∃ d : Found, d.Answers op r ∧ w'.log = ⟨i, op, r, w.row, d⟩ :: w.log

end Shared

/-- A process: one operation after another, each to its end. -/
def serve (m : MergeService) (actions : List Action) : M Unit :=
  Prog.forEach actions fun a => discard (a.program m).attempt

/-! ## What a process has seen and done -/

/-- Deletes the Job, the staging or target folder, or the merged file of a task. -/
def Op.destroys : Op → Bool
  | .deleteJob .. | .deleteFiles _ (.stagingDir _) | .deleteFiles _ (.targetDir _) | .unlink _ .output => true
  | _ => false

/-- The task an operator's action has read, and its deletions since. -/
structure Seen where
  read : Option MergeTask
  deletions : List Found

namespace Seen

def see (q : Seen) : (op : Op) → Except Exc (Res op) → Found → Seen
  | .getTask _, .ok t, _ => ⟨t, []⟩
  | .getTask _, .error _, _ => ⟨none, []⟩
  | op, _, d => if op.destroys then ⟨q.read, d :: q.deletions⟩ else q

/-- One of the deletions has taken away what was there. -/
def destroyed (q : Seen) : Bool := q.deletions.any fun d => d.there && !d.left

/-- Whatever was to be deleted was not there, or its deletion is not carried out. -/
def spared (q : Seen) : Bool := q.deletions.all fun d => !d.there || d.left

theorem destroyed_eq (q : Seen) : q.destroyed = !q.spared := by
  rw [destroyed, spared, List.not_all_eq_any_not]
  congr 1
  funext d
  cases d.there <;> rfl

end Seen

variable {ι : Type} [DecidableEq ι]

def seen (i : ι) : List (Entry ι) → Seen
  | [] => ⟨none, []⟩
  | e :: log => if e.process = i then (seen i log).see e.op e.ans e.found else seen i log

/-- The task is in the state that the cancel read, or done or cancelled, or there was nothing that could be deleted. -/
def Harmless (i : ι) (row : MergeTask) (before : List (Entry ι)) : Prop :=
  (∃ read, (seen i before).read = some read ∧ row.state = read.state) ∨ row.state.finished = true ∨
    (seen i before).spared = true

/-- The compare-and-set of a cancel, the row it found, and its answer: it comes after the cancel's deletions, and a
refusal has destroyed nothing of a task that is still going on if and only if it is harmless. -/
def Settled (i : ι) (answer : Option MergeTask) (row : MergeTask) (before : List (Entry ι)) : Prop :=
  (seen i before).deletions ≠ [] ∧
    ((answer = none → row.state.finished = true ∨ (seen i before).destroyed = false) ↔ Harmless i row before)

/-! ## One operation -/

/-- What a process sees of its own actions, whatever the others do. -/
def sees : Env Res Exc Seen := fun q op r q' => ∃ d : Found, d.Answers op r ∧ q' = q.see op r d

/-- A row is only cancelled out of the state it was read in, and after everything was deleted. -/
def Cancels : Seen → Op → Prop
  | q, .transition _ expected .cancelled _ => q.deletions ≠ [] ∧ ∃ t, q.read = some t ∧ t.state = expected
  | _, _ => True

def Op.cancels : Op → Bool
  | .transition _ _ s _ => s = .cancelled
  | _ => false

theorem uses_retry (m : MergeService) (id : Int) : Uses (fun op => op.cancels = false) (retry m id) := by
  have hne : ∀ s : MergeState, s.resume ≠ .cancelled := by intro s; cases s <;> decide
  unfold retry
  refine uses_bind (uses_ask rfl) fun found => ?_
  split
  · trivial
  rename_i t
  have hrest : Uses (fun op => op.cancels = false) (resumed t) := by
    refine uses_bind (uses_transition (decide_eq_false (hne _))) fun r => ?_
    split <;> trivial
  exact uses_ite trivial (uses_ite (uses_bind (uses_dropJob fun _ => rfl) fun _ => hrest) hrest)

/-- Every compare-and-set of a cancel in the log is settled, and each process's view is the log's. -/
structure Ruled (id : Int) (w : Shared ι) (q : ι → Seen) : Prop where
  view : ∀ i, q i = seen i w.log
  row : w.row.id = id
  settled : ∀ i expected f (answer : Option MergeTask) found before,
    ∀ d, ⟨i, .transition id expected .cancelled f, .ok answer, found, d⟩ :: before <:+ w.log → Settled i answer found before

/-- A compare-and-set out of the state that was read, and what it answers. -/
theorem settled_of_transition {i : ι} {before : List (Entry ι)} {t row row' : MergeTask} {f : Fields} {answer : Option MergeTask}
    (hdeleted : (seen i before).deletions ≠ []) (hread : (seen i before).read = some t)
    (ha : rowAnswers row row' (.transition row.id t.state .cancelled f) (.ok answer)) : Settled i answer row before := by
  refine ⟨hdeleted, fun hproperty => ?_, fun hharmless hanswer => ?_⟩
  · by_cases hstate : row.state = t.state
    · exact .inl ⟨t, hread, hstate⟩
    · simp only [rowAnswers, true_and, if_neg hstate, forall_const] at ha
      rcases hproperty (ha.2 answer rfl) with hfinished | hdestroyed
      · exact .inr (.inl hfinished)
      · rw [Seen.destroyed_eq, Bool.not_eq_false'] at hdestroyed
        exact .inr (.inr hdestroyed)
  · rcases hharmless with ⟨read, hread', hstate⟩ | hfinished | hspared
    · obtain rfl := Option.some.inj (hread.symm.trans hread')
      simp only [rowAnswers, true_and, if_pos hstate] at ha
      rcases ha with ⟨now, -, hwritten⟩ | ⟨-, e, he⟩
      · rw [hwritten answer rfl] at hanswer
        cases hanswer
      · cases he
    · exact .inl hfinished
    · rw [Seen.destroyed_eq, hspared]
      exact .inr rfl

theorem Ruled.step {id : Int} {w w' : Shared ι} {q : ι → Seen} {i : ι} {op : Op} {r : Except Exc (Res op)}
    (hw : Ruled id w q) (hg : Cancels (q i) op) (ht : Shared.answers i w op r w') :
    ∃ q', sees (q i) op r q' ∧ Ruled id w' (Function.update q i q') := by
  obtain ⟨-, ha, d, hd, hlog⟩ := ht
  refine ⟨_, ⟨d, hd, rfl⟩, fun j => ?_, ?_, ?_⟩
  · rw [hlog]
    by_cases hj : j = i
    · subst hj
      rw [Function.update_self, hw.view j]
      exact (if_pos rfl).symm
    · rw [Function.update_of_ne hj, hw.view j]
      exact (if_neg (Ne.symm hj)).symm
  · exact (row_id ha).trans hw.row
  · intro j expected f answer found before d' hsuf
    rw [hlog] at hsuf
    rcases List.suffix_cons_iff.1 hsuf with heq | hsuf
    · injection heq with hentry hbefore
      injection hentry with hj hop hans hrow
      subst hj hop hrow hbefore
      cases eq_of_heq hans
      obtain ⟨hdeleted, t, hread, rfl⟩ := hg
      rw [hw.view j] at hdeleted hread
      rw [← hw.row] at ha
      exact settled_of_transition hdeleted hread ha
    · exact hw.settled j expected f answer found before d' hsuf

namespace Example

/-- The merged file is being copied into its staging folder. -/
def uploading : MergeTask :=
  { task with state := .uploading, mergedBytes := some 2, mergedSha1 := some "A9", uploadAttempts := 1 }

def pick (i : Bool) (_ : Unit) (w : Shared Bool) (op : Op) : Except Exc (Res op) × Shared Bool :=
  let served := serve ⟨w.row, []⟩ op
  -- everything that is deleted is there, and goes
  (served.1, ⟨served.2.row, ⟨i, op, served.1, w.row, ⟨true, false, nofun⟩⟩ :: w.log⟩)

/-- One process cancels, the other ticks. -/
def actions : Bool → List Action
  | false => [.cancel 1]
  | true => [.tick]

def refused : List (Entry Bool) → Bool
  | ⟨false, .transition 1 _ .cancelled _, .ok none, found, _⟩ :: before =>
    !found.state.finished && (seen false before).destroyed
  | _ => false

end Example

end EmbyxManager.Merge
