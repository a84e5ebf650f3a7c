import EmbyxManager.Monitor.States
/-!
# Stored merge tasks

One row per title the merge tab was asked to merge. A row is only ever written
through `MergeTask.written`: `update` changes columns, `transition` moves the row
as well, and only out of the state its caller expects.
-/

namespace EmbyxManager.Merge

inductive MergeState where
  /-- Waiting for the merge Job slot. -/
  | queued
  /-- The Job is concatenating the parts onto the work volume. -/
  | merging
  /-- CloudDrive is copying the merged file into the staging directory. -/
  | uploading
  /-- Comparing the uploaded file with the merged one. -/
  | verifying
  /-- Deleting the parts and moving the merged file into the intake route. -/
  | replacing
  /-- Waiting for the archive pipeline to file the merged title. -/
  | archiving
  | done | failed | cancelled
  deriving DecidableEq

namespace MergeState

def finished : MergeState → Bool
  | done | cancelled => true
  | _ => false

/-- `CANCELLABLE_STATES`; past them the originals may be gone. -/
def cancellable : MergeState → Bool
  | queued | merging | uploading | verifying | failed => true
  | _ => false

/-- Where a retry takes up a task that failed in this state. -/
def resume : MergeState → MergeState
  | uploading | verifying => uploading
  | replacing => replacing
  | archiving => archiving
  | _ => queued

end MergeState

structure MergeTask where
  id : Int
  avid : String
  /-- The intake route, as folder names. -/
  source : List String
  /-- Each part's file on the CloudDrive mount, in part order. -/
  parts : List (List String)
  mergedName : String
  state : MergeState
  failedState : Option MergeState
  jobName : Option String
  phase : Option String
  /-- In thousandths. -/
  progress : Option Int
  mergedBytes : Option Int
  mergedSha1 : Option String
  uploadedBytes : Option Int
  uploadAttempts : Nat
  error : Option String
  notice : Option String
  updatedAt : Time
  stateChangedAt : Time
  finishedAt : Option Time
  deriving DecidableEq

namespace MergeTask

/-- The row `create` inserts. -/
def created (id : Int) (avid : String) (source : List String) (parts : List (List String)) (mergedName : String)
    (now : Time) : MergeTask :=
  ⟨id, avid, source, parts, mergedName, .queued, none, none, none, none, none, none, none, 0, none, none, now, now, none⟩

/-- The state a task is in, or failed in. -/
def stage (t : MergeTask) : MergeState := if t.state = .failed then t.failedState.getD .queued else t.state

end MergeTask

/-- The columns a state handler may set besides `state`. -/
structure Fields where
  failedState : Option (Option MergeState) := none
  jobName : Option (Option String) := none
  phase : Option (Option String) := none
  progress : Option (Option Int) := none
  mergedBytes : Option (Option Int) := none
  mergedSha1 : Option (Option String) := none
  uploadedBytes : Option (Option Int) := none
  uploadAttempts : Option Nat := none
  error : Option (Option String) := none
  notice : Option (Option String) := none
  finishedAt : Option (Option Time) := none
  deriving DecidableEq

/-- `_write` to one row: the columns given, and the state with its time when there is one. -/
def MergeTask.written (t : MergeTask) (now : Time) (state : Option MergeState) (f : Fields) : MergeTask :=
  { t with
    state := state.getD t.state
    failedState := f.failedState.getD t.failedState
    jobName := f.jobName.getD t.jobName
    phase := f.phase.getD t.phase
    progress := f.progress.getD t.progress
    mergedBytes := f.mergedBytes.getD t.mergedBytes
    mergedSha1 := f.mergedSha1.getD t.mergedSha1
    uploadedBytes := f.uploadedBytes.getD t.uploadedBytes
    uploadAttempts := f.uploadAttempts.getD t.uploadAttempts
    error := f.error.getD t.error
    notice := f.notice.getD t.notice
    finishedAt := f.finishedAt.getD t.finishedAt
    updatedAt := now
    stateChangedAt := if state.isSome then now else t.stateChangedAt }

section written
variable (t : MergeTask) (now : Time) (s : Option MergeState) (f : Fields)

@[simp] theorem written_id : (t.written now s f).id = t.id := rfl
@[simp] theorem written_avid : (t.written now s f).avid = t.avid := rfl
@[simp] theorem written_parts : (t.written now s f).parts = t.parts := rfl
@[simp] theorem written_source : (t.written now s f).source = t.source := rfl
@[simp] theorem written_mergedName : (t.written now s f).mergedName = t.mergedName := rfl
@[simp] theorem written_state : (t.written now s f).state = s.getD t.state := rfl
@[simp] theorem written_failedState : (t.written now s f).failedState = f.failedState.getD t.failedState := rfl
@[simp] theorem written_mergedBytes : (t.written now s f).mergedBytes = f.mergedBytes.getD t.mergedBytes := rfl
@[simp] theorem written_mergedSha1 : (t.written now s f).mergedSha1 = f.mergedSha1.getD t.mergedSha1 := rfl

end written

end EmbyxManager.Merge
