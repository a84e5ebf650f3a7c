import EmbyxManager.Merge.Service
/-!
# What may happen to one task

`rowAnswers` is the database seen from one row: which answers an action may get
and what it leaves in the row. Kubernetes, the work volume and CloudDrive answer
as they like, and so does the database about every other task.

A history is the row with everything that was asked and answered, newest first.
Ticks, cancels and retries follow one another under the tick lock; the process
may stop at any action.
-/

namespace EmbyxManager.Merge
open Atom Prog

/-- An action leaves the row as it was, or writes it and says so; an exception leaves either. -/
def rowAnswers (row row' : MergeTask) : (op : Op) → Except Exc (Res op) → Prop
  | .openTasks, r =>
    row' = row ∧ ∀ tasks : List MergeTask, r = .ok tasks →
      tasks.filter (·.id = row.id) = if row.state.finished then [] else [row]
  | .getTask id, r =>
    row' = row ∧ ∀ found : Option MergeTask, r = .ok found →
      (id = row.id → found = some row) ∧ ∀ task, found = some task → task.id = id
  | .transition id expected state f, r =>
    if id = row.id ∧ row.state = expected then
      (∃ now, row' = row.written now (some state) f ∧ ∀ t : Option MergeTask, r = .ok t → t = some row') ∨
        (row' = row ∧ ∃ e, r = .error e)
    else row' = row ∧ (id = row.id → ∀ t : Option MergeTask, r = .ok t → t = none)
  | .update id f, r =>
    if id = row.id then
      (∃ now, row' = row.written now none f ∧ ∀ t : Option MergeTask, r = .ok t → t = some row') ∨
        (row' = row ∧ ∃ e, r = .error e)
    else row' = row
  | _, _ => row' = row

/-- The world raises its own exceptions, not the service's. -/
def raisesOutside {op : Op} (r : Except Exc (Res op)) : Prop := ∀ e, r = .error e → ∃ o, e = .outside o

inductive Action where
  | tick
  | cancel (id : Int)
  | retry (id : Int)
  deriving DecidableEq

def Action.program (m : MergeService) : Action → M Unit
  | tick => Merge.tick m
  | cancel id => discard (Merge.cancel m id)
  | retry id => discard (Merge.retry m id)

inductive Mark where
  | begins (a : Action)
  /-- An action, its answer, and the row before and after. -/
  | did (op : Op) (ans : Except Exc (Res op)) (was now : MergeTask)

structure History where
  row : MergeTask
  marks : List Mark

namespace History

def begun (h : History) (a : Action) : History := ⟨h.row, .begins a :: h.marks⟩

def answers : Env Res Exc History := fun h op r h' =>
  raisesOutside r ∧ rowAnswers h.row h'.row op r ∧ h'.marks = .did op r h.row h'.row :: h.marks

/-- Any sequence of ticks, cancels and retries from a fresh task. -/
inductive Reach (m : MergeService) : History → Prop
  | created (id : Int) (avid : String) (source : List String) (parts : List Path) (mergedName : String) (now : Time) :
      Reach m ⟨.created id avid source parts mergedName now, []⟩
  | operated {h h'} (a : Action) : Reach m h → Stops answers (h.begun a) (a.program m) h' → Reach m h'

end History

/-! ## Reading a history -/

/-- The merge Job's result was taken over: the row went from merging to uploading. -/
def Mark.completesMerge : Mark → Bool
  | .begins _ => false
  | .did _ _ was now => was.state = .merging && now.state = .uploading

/-- The row as the last completed merge left it. -/
def lastMerged : List Mark → Option MergeTask
  | [] => none
  | .begins _ :: marks => lastMerged marks
  | .did _ _ was now :: marks => if was.state = .merging ∧ now.state = .uploading then some now else lastMerged marks

def sinceMerge (marks : List Mark) : List Mark := marks.takeWhile (!·.completesMerge)

/-- The operation under way. -/
def running : List Mark → Option Action
  | [] => none
  | .begins a :: _ => some a
  | .did .. :: marks => running marks

/-- What the operation under way has done so far. -/
def thisOperation : List Mark → List Mark
  | [] => []
  | .begins _ :: _ => []
  | k :: marks => k :: thisOperation marks

/-- `delete_files` was issued for parts of the task. -/
def PartsDeleted (id : Int) (marks : List Mark) : Prop :=
  ∃ remaining ans was now, .did (.deleteFiles id (.parts remaining)) ans was now ∈ marks

/-- The library listed a whole copy of the title. -/
def WholeListed (m : MergeService) (row : MergeTask) (marks : List Mark) : Prop :=
  ∃ paths entries was now, mergePaths m row = .ok paths ∧
    .did (.listDirectory row.id (partsDir paths)) (.ok entries) was now ∈ marks ∧ (wholeAmong m row entries).isSome

/-- The staged file was listed with the merged file's size and SHA-1. -/
def StagedListed (m : MergeService) (row merged : MergeTask) (marks : List Mark) : Prop :=
  ∃ paths staged was now, mergePaths m row = .ok paths ∧
    .did (.statFile row.id paths.stagedFile) (.ok (some staged)) was now ∈ marks ∧
    some staged.size = merged.mergedBytes ∧ stagedSha1 m staged ≠ "" ∧ some (stagedSha1 m staged) = merged.mergedSha1

/-- A look beside the parts found no whole copy. -/
def NoWholeListed (m : MergeService) (row : MergeTask) (marks : List Mark) : Prop :=
  ∃ paths ans was now, mergePaths m row = .ok paths ∧
    .did (.listDirectory row.id (partsDir paths)) ans was now ∈ marks ∧
    (ans = .error (.outside .fileNotFound) ∨ ∃ entries, ans = .ok entries ∧ wholeAmong m row entries = none)

/-- Since the last completed merge the upload was checked against it, and the library looked at. -/
def Checked (m : MergeService) (row : MergeTask) (marks : List Mark) : Prop :=
  ∃ merged, lastMerged marks = some merged ∧ StagedListed m row merged (sinceMerge marks) ∧
    NoWholeListed m row (sinceMerge marks)

/-- Deletes the staging folder, the target folder or the local output of the task. -/
def GivesUp (id : Int) : Op → Prop
  | .deleteFiles i (.stagingDir _) | .deleteFiles i (.targetDir _) | .unlink i .output => i = id
  | _ => False

end EmbyxManager.Merge
