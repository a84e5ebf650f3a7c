import EmbyxManager.Atom.Table
import EmbyxManager.FillActor.Records
import Mathlib.Data.List.Sort
/-!
# The in-memory repository

`MemoryFillActorRepository`: six dictionaries under one lock, so a call is one
step. A call that raises leaves what it had already assigned.
-/

namespace EmbyxManager.FillActor

open Atom (Table)

/-! ## Orders -/

/-- Lists of texts, compared from the left; `le` is asked where two texts differ. -/
def textsLe (le : String → String → Bool) : List String → List String → Bool
  | a :: as, b :: bs => if a = b then textsLe le as bs else le a b
  | [], _ => true
  | _, [] => false

/-- `ORDER BY time, ids…`. -/
def orderLe (le : String → String → Bool) (a b : Time × List String) : Bool :=
  if a.1 = b.1 then textsLe le a.2 b.2 else a.1 < b.1

/-- Rows in the order of a time and ids. -/
def sortedBy {ρ : Type} (le : String → String → Bool) (key : ρ → Time × List String) (rows : List ρ) : List ρ :=
  rows.insertionSort fun a b => orderLe le (key a) (key b) = true

/-- How Python compares two texts: by code points. -/
def codePointLe (a b : String) : Bool := decide (a ≤ b)

/-- The jobs by id. -/
abbrev JobTable := Table JobRecord String JobRecord.jobId

/-- The results of moves by plan and candidate. -/
abbrev ResultTable := Table (String × MoveResult) (String × String) fun r => (r.1, r.2.candidateId)

/-- The journals of moves by plan and candidate. -/
abbrev JournalTable := Table MoveJournalRecord (String × String) fun r => (r.planId, r.candidateId)

/-- The operations on CloudDrive by plan and candidate. -/
abbrev OperationTable := Table CloudMoveOperationRecord (String × String) fun r => (r.planId, r.candidateId)

/-- How many jobs count against the cap. -/
def JobTable.active (t : JobTable) : Nat := t.rows.countP JobRecord.active

/-- The queued jobs, the oldest first. -/
def JobTable.queued (le : String → String → Bool) (t : JobTable) : List JobRecord :=
  sortedBy le (fun j => (j.createdAt, [j.jobId])) (t.rows.filter fun j => j.state = .queued)

/-- The dictionaries of `InMemoryFillActorRepository`. -/
structure Memory where
  plans : Table PlanRecord String (·.plan.planId)
  moveResults : ResultTable
  jobs : JobTable
  applyJobs : Table ApplyJobRecord String (·.job.jobId)
  moveJournal : JournalTable
  cloudMoveOperations : OperationTable

namespace Memory

/-- A repository that has just been made. -/
def empty : Memory := ⟨.empty, .empty, .empty, .empty, .empty, .empty⟩

/-! ## Plans -/

/-- What hangs on a candidate the plan no longer has is dropped. -/
def savePlan (record : PlanRecord) (m : Memory) : Memory :=
  let planId := record.plan.planId
  let kept (plan candidate : String) : Bool := plan ≠ planId || candidate ∈ record.candidates.map (·.candidateId)
  { m with
    plans := m.plans.put record
    moveResults := m.moveResults.keep fun r => kept r.1 r.2.candidateId
    moveJournal := m.moveJournal.keep fun r => kept r.planId r.candidateId
    cloudMoveOperations := m.cloudMoveOperations.keep fun r => kept r.planId r.candidateId }

/-- The record as it was saved. -/
def getPlan (planId : String) (m : Memory) : Option PlanRecord := m.plans.find planId

/-- A candidate is found through its plan. -/
def getCandidate (planId candidateId : String) (m : Memory) : Option CandidateRecord :=
  (m.plans.find planId).bind (·.candidate candidateId)

/-- What keeps a plan from being deleted. -/
def busy (m : Memory) (planId : String) : Bool :=
  (m.moveJournal.rows.any fun r => r.planId = planId && r.state ≠ .reconciled) ||
  (m.cloudMoveOperations.rows.any fun r => r.planId = planId && !r.state.terminal) ||
  m.jobs.rows.any fun j => j.operation = .apply && j.planId = some planId && j.active

/-- The apply job with its job as it is now. -/
def withJob (m : Memory) (r : ApplyJobRecord) : Except RepositoryError ApplyJobRecord :=
  match m.jobs.find r.job.jobId with
  | none => .error (.invalid "job")
  | some job => ApplyJobRecord.make job r.revision r.candidateIds r.result

theorem withJob_jobId {m : Memory} {r r' : ApplyJobRecord} (h : m.withJob r = .ok r') : r'.job.jobId = r.job.jobId := by
  unfold withJob at h
  split at h
  · cases h
  · rename_i job hj
    rw [(ApplyJobRecord.make_ok h).1, Table.find_key hj]

/-- `withJob` where it does not raise. -/
def refreshed (m : Memory) (r : ApplyJobRecord) : ApplyJobRecord :=
  match m.withJob r with
  | .ok r' => r'
  | .error _ => r

theorem refreshed_jobId (m : Memory) (r : ApplyJobRecord) : (m.refreshed r).job.jobId = r.job.jobId := by
  unfold refreshed
  split
  · rename_i h
    exact withJob_jobId h
  · rfl

/-- The first assignments of `_delete_plan_dependents`. -/
def forgetPlan (planId : String) (m : Memory) : Memory :=
  { m with
    moveResults := m.moveResults.keep fun r => r.1 ≠ planId
    moveJournal := m.moveJournal.keep fun r => r.planId ≠ planId
    cloudMoveOperations := m.cloudMoveOperations.keep fun r => r.planId ≠ planId
    jobs := m.jobs.update (fun j => j.planId = some planId) withoutPlan withoutPlan_jobId }

/-- Its last assignment: every apply job is built again, and one that cannot be built raises. -/
def rebuildApplyJobs (m : Memory) : Except RepositoryError Unit × Memory :=
  match m.applyJobs.rows.mapM m.withJob with
  | .error e => (.error e, m)
  | .ok _ => (.ok (), { m with applyJobs := m.applyJobs.update (fun _ => true) m.refreshed m.refreshed_jobId })

/-- `_delete_plan_dependents`. -/
def deletePlanDependents (planId : String) (m : Memory) : Except RepositoryError Unit × Memory :=
  (m.forgetPlan planId).rebuildApplyJobs

/-- The plan is popped, and its dependents with it. -/
def dropPlan (planId : String) (m : Memory) : Except RepositoryError Unit × Memory :=
  deletePlanDependents planId { m with plans := m.plans.keep fun r => r.plan.planId ≠ planId }

/-- False for a plan that is busy or not there. -/
def deletePlan (planId : String) (m : Memory) : Except RepositoryError Bool × Memory :=
  if m.busy planId then (.ok false, m)
  else if (m.plans.find planId).isNone then (.ok false, m)
  else
    let (done, m) := m.dropPlan planId
    (done.map fun _ => true, m)

/-- `for plan_id in expired`. -/
def dropPlans : List String → Memory → Except RepositoryError Unit × Memory
  | [], m => (.ok (), m)
  | planId :: rest, m =>
    match m.dropPlan planId with
    | (.ok _, m) => dropPlans rest m
    | (.error e, m) => (.error e, m)

/-- The plans that have expired and are not busy; how many there were. -/
def purgeExpiredPlans (now : Time) (m : Memory) : Except RepositoryError Nat × Memory :=
  let expired := (m.plans.rows.filter fun r => r.plan.expiresAt ≤ now && !m.busy r.plan.planId).map (·.plan.planId)
  let (done, m) := dropPlans expired m
  (done.map fun _ => expired.length, m)

/-! ## Move results -/

/-- `_require_candidate`. -/
def requireCandidate (planId candidateId : String) (m : Memory) : Except RepositoryError CandidateRecord :=
  match m.getCandidate planId candidateId with
  | none => .error (.missingCandidate planId candidateId)
  | some c => .ok c

/-- `_require_matching_candidate`. -/
def requireMatchingCandidate (planId candidateId videoId : String) (m : Memory) : Except RepositoryError Unit := do
  let candidate ← m.requireCandidate planId candidateId
  if candidate.videoId ≠ videoId then .error (.invalid "move result video id does not match candidate")

/-- A result replaces the one its candidate had. -/
def saveMoveResult (planId : String) (result : MoveResult) (m : Memory) : Except RepositoryError Memory := do
  m.requireMatchingCandidate planId result.candidateId result.videoId
  return { m with moveResults := m.moveResults.put (planId, result) }

/-- The result that stands for a candidate. -/
def getMoveResult (planId candidateId : String) (m : Memory) : Option MoveResult :=
  (m.moveResults.find (planId, candidateId)).map (·.2)

/-- A plan's results in the order of their candidates. -/
def listMoveResults (planId : String) (m : Memory) : List MoveResult :=
  (sortedBy codePointLe (fun r => (0, [r.1, r.2.candidateId])) (m.moveResults.rows.filter fun r => r.1 = planId)).map (·.2)

/-! ## Jobs -/

/-- A job replaces the one of its id. -/
def saveJob (record : JobRecord) (m : Memory) : Memory := { m with jobs := m.jobs.put record }

/-- Refused at the cap, and for an id that is taken. -/
def enqueueJob (record : JobRecord) (maxActive : Nat) (m : Memory) : Bool × Memory :=
  if maxActive ≤ m.jobs.active ∨ (m.jobs.find record.jobId).isSome then (false, m)
  else (true, { m with jobs := m.jobs.put record })

/-- The same request again is answered with the job it has; another one of its id is a conflict. -/
def enqueueApplyJob (record : ApplyJobRecord) (maxActive : Nat) (m : Memory) :
    Except RepositoryError EnqueueApplyJobResult × Memory :=
  match m.jobs.find record.job.jobId with
  | some existingJob =>
    match m.applyJobs.find record.job.jobId with
    | some existing =>
      if existing.job.planId = record.job.planId ∧ existing.revision = record.revision ∧
          existing.candidateIds = record.candidateIds then
        ((ApplyJobRecord.make existingJob existing.revision existing.candidateIds existing.result).map
          fun r => ⟨.existing, some r⟩, m)
      else (.ok ⟨.conflict, none⟩, m)
    | none => (.ok ⟨.conflict, none⟩, m)
  | none =>
    if maxActive ≤ m.jobs.active then (.ok ⟨.full, none⟩, m)
    else (.ok ⟨.enqueued, some record⟩, { m with jobs := m.jobs.put record.job, applyJobs := m.applyJobs.put record })

/-- The apply job with its job as it is now. -/
def getApplyJob (jobId : String) (m : Memory) : Except RepositoryError (Option ApplyJobRecord) :=
  match m.applyJobs.find jobId, m.jobs.find jobId with
  | some stored, some job => (ApplyJobRecord.make job stored.revision stored.candidateIds stored.result).map some
  | _, _ => .ok none

/-- The oldest queued job starts to run under a lease. -/
def claimNextJob (ownerId : String) (now leaseExpiresAt : Time) (m : Memory) : Option JobRecord × Memory :=
  match m.jobs.queued codePointLe with
  | [] => (none, m)
  | current :: _ =>
    let claimed := replaceJob current .running now none (some ownerId) (some leaseExpiresAt) none
    (some claimed, { m with jobs := m.jobs.put claimed })

/-- Only for the job its owner still holds. -/
def renewOwnedJobLease (jobId ownerId : String) (now leaseExpiresAt : Time) (m : Memory) : Bool × Memory :=
  match (m.jobs.find jobId).filter (·.owned ownerId now) with
  | none => (false, m)
  | some current =>
    let renewed := replaceJob current .running now none (some ownerId) (some leaseExpiresAt) (some current.progress)
    (true, { m with jobs := m.jobs.put renewed })

/-- Only for the job its owner still holds; its time of change stays. -/
def updateOwnedJobProgress (jobId ownerId : String) (progress : JobProgress) (now : Time) (m : Memory) : Bool × Memory :=
  match (m.jobs.find jobId).filter (·.owned ownerId now) with
  | none => (false, m)
  | some current =>
    let reported := replaceJob current .running current.updatedAt none (some ownerId) current.leaseExpiresAt (some progress)
    (true, { m with jobs := m.jobs.put reported })

/-- Only for the job its owner still holds; a result of the application goes with it. -/
def finishOwnedJob (jobId ownerId : String) (state : JobState) (errorCode : Option String) (now : Time)
    (progress : JobProgress) (applyResult : Option ApplyResult) (m : Memory) : Except RepositoryError Bool × Memory :=
  match (m.jobs.find jobId).filter (·.owned ownerId now) with
  | none => (.ok false, m)
  | some current =>
    let finishedJob := replaceJob current state now errorCode none none (some progress)
    match applyResult with
    | none => (.ok true, { m with jobs := m.jobs.put finishedJob })
    | some result =>
      match m.applyJobs.find jobId with
      | none => (.error (.invalid "apply result requires an apply job"), m)
      | some applyJob =>
        match ApplyJobRecord.make finishedJob applyJob.revision applyJob.candidateIds (some result) with
        | .error e => (.error e, m)
        | .ok finishedApply => (.ok true, { m with jobs := m.jobs.put finishedJob, applyJobs := m.applyJobs.put finishedApply })

/-- Planning can be cancelled until it ends, an application never. -/
def cancelJob (jobId : String) (now : Time) (m : Memory) : CancelJobResult × Memory :=
  match m.jobs.find jobId with
  | none => (⟨.notFound, none, none, none⟩, m)
  | some current =>
    let refused outcome : CancelJobResult × Memory := (⟨outcome, some current, some current.state, current.ownerId⟩, m)
    if current.operation = .apply then refused .notCancellable
    else if current.state = .failed ∧ current.errorCode = some jobCancelledErrorCode then refused .alreadyCancelled
    else if !current.active then refused .alreadyTerminal
    else
      let cancelled := replaceJob current .failed now (some jobCancelledErrorCode) none none
        (some (terminalProgress current.progress now (current.operation = .apply)))
      (⟨.cancelled, some cancelled, some current.state, current.ownerId⟩, { m with jobs := m.jobs.put cancelled })

/-- What the reaper makes of an expired job. -/
def expiredJob (now : Time) (errorCode : String) (j : JobRecord) : JobRecord :=
  replaceJob j .failed now (some errorCode) none none (some (terminalProgress j.progress now (j.operation = .apply)))

/-- Every running job whose lease has expired fails; how many there were. -/
def failExpiredJobs (now : Time) (errorCode : String) (m : Memory) : Nat × Memory :=
  (m.jobs.rows.countP (·.expired now),
    { m with jobs := m.jobs.update (·.expired now) (expiredJob now errorCode) fun _ => rfl })

/-- The job of an id. -/
def getJob (jobId : String) (m : Memory) : Option JobRecord := m.jobs.find jobId

/-- The oldest first, of some states or of all. -/
def listJobs (states : Option (List JobState)) (m : Memory) : List JobRecord :=
  sortedBy codePointLe (fun j => (j.createdAt, [j.jobId])) (m.jobs.rows.filter fun j => states.all (j.state ∈ ·))

/-! ## Journals -/

/-- A journal goes on only where its state allows it. -/
def saveMoveJournal (record : MoveJournalRecord) (m : Memory) : Except RepositoryError Memory := do
  let _ ← m.requireCandidate record.planId record.candidateId
  let current := (m.moveJournal.find (record.planId, record.candidateId)).map (·.state)
  if record.state ∉ journalTransitions current then .error (.invalid "invalid move journal transition")
  else return { m with moveJournal := m.moveJournal.put record }

/-- The journal of a candidate's move. -/
def getMoveJournal (planId candidateId : String) (m : Memory) : Option MoveJournalRecord :=
  m.moveJournal.find (planId, candidateId)

/-- The journals that are not at their end, the least recently written first. -/
def listUnreconciledMoves (m : Memory) : List MoveJournalRecord :=
  sortedBy codePointLe (fun r => (r.updatedAt, [r.planId, r.candidateId]))
    (m.moveJournal.rows.filter fun r => r.state ≠ .reconciled)

/-- `_save_cloud_move_operation_locked`. -/
def saveCloudMoveOperationLocked (record : CloudMoveOperationRecord) (m : Memory) : Except RepositoryError Memory := do
  let candidate ← m.requireCandidate record.planId record.candidateId
  match candidate.cloud with
  | none => .error (.invalid "CloudDrive operations require a CloudDrive candidate")
  | some cloud =>
    if cloud.sourcePath ≠ record.sourcePath ∨ cloud.destinationDir ≠ record.destinationDir then
      .error (.invalid "CloudDrive operation paths must match its candidate")
    else
      let current := m.cloudMoveOperations.find (record.planId, record.candidateId)
      if record.state ∉ cloudMoveTransitions (current.map (·.state)) then
        .error (.invalid "invalid CloudDrive move transition")
      else if current.any (·.attemptId ≠ record.attemptId) then
        .error (.invalid "CloudDrive operation attempt id cannot change")
      else if !record.state.terminal && m.cloudMoveOperations.rows.any fun r =>
          (r.planId, r.candidateId) ≠ (record.planId, record.candidateId) && r.sourcePath = record.sourcePath &&
            !r.state.terminal then
        .error (.invalid "CloudDrive source already has an unresolved operation")
      else return { m with cloudMoveOperations := m.cloudMoveOperations.put record }

/-- A terminal operation is not saved without its result. -/
def saveCloudMoveOperation (record : CloudMoveOperationRecord) (m : Memory) : Except RepositoryError Memory :=
  if record.state.terminal then .error (.invalid "terminal CloudDrive operations must be finalized with their result")
  else m.saveCloudMoveOperationLocked record

/-- The operation of a candidate. -/
def getCloudMoveOperation (planId candidateId : String) (m : Memory) : Option CloudMoveOperationRecord :=
  m.cloudMoveOperations.find (planId, candidateId)

/-- The operations that are not at their end, the least recently written first. -/
def listUnresolvedCloudMoves (m : Memory) : List CloudMoveOperationRecord :=
  sortedBy codePointLe (fun r => (r.updatedAt, [r.planId, r.candidateId]))
    (m.cloudMoveOperations.rows.filter fun r => !r.state.terminal)

/-- A terminal operation and its result come to stand together. -/
def finalizeCloudMove (operation : CloudMoveOperationRecord) (result : MoveResult) (m : Memory) :
    Except RepositoryError Memory := do
  if !operation.state.terminal then throw (.invalid "finalized CloudDrive operation must be terminal")
  m.requireMatchingCandidate operation.planId result.candidateId result.videoId
  if result.candidateId ≠ operation.candidateId then throw (.invalid "CloudDrive result must match its operation")
  let m ← m.saveCloudMoveOperationLocked operation
  return { m with moveResults := m.moveResults.put (operation.planId, result) }

end Memory

end EmbyxManager.FillActor
