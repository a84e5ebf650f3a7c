import EmbyxManager.FillActor.Memory
/-!
# The PostgreSQL repository

`PostgresFillActorRepository` over the tables of `_MIGRATIONS[1]`. A call is one
transaction: what raises leaves the tables as they were. Dependents of a plan or
a candidate go by `ON DELETE CASCADE`. Texts are ordered by the collation of the
database, and a value that its column does not take raises.
-/

namespace EmbyxManager.FillActor

open Atom (Table)

/-- A row of `fill_actor_plans`; its candidates have rows of their own. -/
structure PlanRow where
  plan : FillActorPlan
  configVersion : Nat

/-- A row of `fill_actor_apply_jobs`; the job it is of has a row of its own. -/
structure ApplyJobRow where
  jobId : String
  revision : String
  candidateIds : List String
  result : Option ApplyResult
  deriving DecidableEq

/-- The tables. -/
structure Postgres where
  plans : Table PlanRow String (·.plan.planId)
  candidates : Table (String × CandidateRecord) (String × String) fun r => (r.1, r.2.candidateId)
  moveResults : ResultTable
  jobs : JobTable
  applyJobs : Table ApplyJobRow String ApplyJobRow.jobId
  moveJournal : JournalTable
  cloudMoveOperations : OperationTable

/-! ## Values and columns -/

/-- `TEXT` takes no NUL. -/
def textFits (s : String) : Bool := !s.toList.contains (Char.ofNat 0)

/-- `INTEGER`. -/
def integerFits (n : Nat) : Bool := n < 2147483648

/-- `BIGINT`. -/
def bigintFits (n : Int) : Bool := -9223372036854775808 ≤ n && n < 9223372036854775808

/-- The counts and texts of a progress fit their columns. -/
def JobProgress.fits (p : JobProgress) : Bool :=
  integerFits p.completed && p.total.all integerFits && p.current.all textFits

/-- Every value of a job fits its column. -/
def JobRecord.fits (j : JobRecord) : Bool :=
  textFits j.jobId && j.planId.all textFits && j.errorCode.all textFits && j.ownerId.all textFits && j.progress.fits

/-- The numbers of a fingerprint fit `BIGINT`. -/
def FileFingerprint.fits (f : FileFingerprint) : Bool :=
  bigintFits f.device && bigintFits f.inode && bigintFits f.size && bigintFits f.mtimeNs && bigintFits f.ctimeNs

/-- Every value of a candidate fits its column. The JSON of its file at CloudDrive fits whatever it is, and
is read back as the file it was written from: `CloudFileMetadata.fromMapping_toMapping`. -/
def CandidateRecord.fits (c : CandidateRecord) : Bool :=
  textFits c.candidateId && textFits c.videoId && textFits c.source && textFits c.sourceRoot && textFits c.destination &&
    c.fingerprint.fits &&
    c.cloud.all fun c => textFits c.mappingSha256 && textFits c.sourcePath && textFits c.destinationDir

/-- Every value of a plan and of its candidates fits its column. -/
def PlanRecord.fits (r : PlanRecord) : Bool :=
  textFits r.plan.planId && textFits r.plan.revision && integerFits r.configVersion && r.candidates.all (·.fits)

/-- Every value of an operation fits its column. -/
def CloudMoveOperationRecord.fits (r : CloudMoveOperationRecord) : Bool :=
  textFits r.planId && textFits r.candidateId && textFits r.attemptId && textFits r.sourcePath &&
    textFits r.destinationDir && r.errorCode.all textFits

/-- The driver or a column refuses a value. -/
def requireFit (fits : Bool) : Except RepositoryError Unit :=
  if fits then .ok () else .error (.invalid "value does not fit its column")

namespace Postgres

/-- The tables after the migration. -/
def empty : Postgres := ⟨.empty, .empty, .empty, .empty, .empty, .empty, .empty⟩

/-! ## Plans -/

/-- `DELETE FROM fill_actor_candidates`, and what references the deleted rows. -/
def deleteCandidates (p : String × CandidateRecord → Bool) (s : Postgres) : Postgres :=
  let gone (key : String × String) : Bool := (s.candidates.find key).any p
  { s with
    candidates := s.candidates.keep fun r => !p r
    moveResults := s.moveResults.keep fun r => !gone (r.1, r.2.candidateId)
    moveJournal := s.moveJournal.keep fun r => !gone (r.planId, r.candidateId)
    cloudMoveOperations := s.cloudMoveOperations.keep fun r => !gone (r.planId, r.candidateId) }

/-- `DELETE FROM fill_actor_plans`, and what references the deleted rows. -/
def deletePlans (p : String → Bool) (s : Postgres) : Postgres :=
  let gone := fun planId => p planId && (s.plans.find planId).isSome
  deleteCandidates (fun r => gone r.1) { s with plans := s.plans.keep fun r => !p r.plan.planId }

/-- `UPDATE fill_actor_jobs SET plan_id = NULL`. -/
def forgetPlans (p : String → Bool) (s : Postgres) : Postgres :=
  { s with jobs := s.jobs.update (fun j => j.planId.any p) withoutPlan withoutPlan_jobId }

/-- The plan's row, and the rows of its candidates in the place of those it had. -/
def savePlan (record : PlanRecord) (s : Postgres) : Except RepositoryError Postgres := do
  requireFit record.fits
  let planId := record.plan.planId
  let s := { s with plans := s.plans.put ⟨record.plan, record.configVersion⟩ }
  let s := s.deleteCandidates fun r => r.1 = planId && r.2.candidateId ∉ record.candidates.map (·.candidateId)
  return { s with candidates := record.candidates.foldl (fun t c => t.put (planId, c)) s.candidates }

/-- The candidates in the order of their ids. -/
def candidatesOf (le : String → String → Bool) (planId : String) (s : Postgres) : List CandidateRecord :=
  (sortedBy le (fun r => (0, [r.2.candidateId])) (s.candidates.rows.filter fun r => r.1 = planId)).map (·.2)

/-- The record is built again from its rows. -/
def getPlan (le : String → String → Bool) (planId : String) (s : Postgres) :
    Except RepositoryError (Option PlanRecord) := do
  requireFit (textFits planId)
  match s.plans.find planId with
  | none => return none
  | some row => return some (← PlanRecord.make row.plan (s.candidatesOf le planId) row.configVersion)

/-- A candidate has a row of its own. -/
def getCandidate (planId candidateId : String) (s : Postgres) : Except RepositoryError (Option CandidateRecord) := do
  requireFit (textFits planId && textFits candidateId)
  return (s.candidates.find (planId, candidateId)).map (·.2)

/-- What keeps a plan from being deleted. -/
def blocked (s : Postgres) (planId : String) : Bool :=
  (s.moveJournal.rows.any fun r => r.planId = planId && r.state ≠ .reconciled) ||
  (s.cloudMoveOperations.rows.any fun r => r.planId = planId && !r.state.terminal) ||
  s.jobs.rows.any fun j => j.planId = some planId && j.operation = .apply && j.active

/-- False for a plan that is blocked or not there. -/
def deletePlan (planId : String) (s : Postgres) : Except RepositoryError (Bool × Postgres) := do
  requireFit (textFits planId)
  if s.blocked planId then return (false, s)
  else
    let existed := (s.plans.find planId).isSome
    return (existed, (s.forgetPlans (· = planId)).deletePlans (· = planId))

/-- The plans that have expired and are not blocked; how many there were. -/
def purgeExpiredPlans (now : Time) (s : Postgres) : Except RepositoryError (Nat × Postgres) :=
  let planIds := (s.plans.rows.filter fun r => r.plan.expiresAt ≤ now && !s.blocked r.plan.planId).map (·.plan.planId)
  if planIds = [] then .ok (0, s)
  else .ok (planIds.length, (s.forgetPlans (· ∈ planIds)).deletePlans (· ∈ planIds))

/-! ## Move results -/

/-- `_insert_move_result`. -/
def insertMoveResult (planId : String) (result : MoveResult) (s : Postgres) : Except RepositoryError Postgres := do
  requireFit (textFits planId && textFits result.candidateId)
  match s.candidates.find (planId, result.candidateId) with
  | none => .error (.missingCandidate planId result.candidateId)
  | some row =>
    if row.2.videoId ≠ result.videoId then .error (.invalid "move result video id does not match candidate")
    else return { s with moveResults := s.moveResults.put (planId, result) }

/-- A result replaces the one its candidate had. -/
def saveMoveResult (planId : String) (result : MoveResult) (s : Postgres) : Except RepositoryError Postgres :=
  s.insertMoveResult planId result

/-- The result that stands for a candidate. -/
def getMoveResult (planId candidateId : String) (s : Postgres) : Except RepositoryError (Option MoveResult) := do
  requireFit (textFits planId && textFits candidateId)
  return (s.moveResults.find (planId, candidateId)).map (·.2)

/-- A plan's results in the order of their candidates. -/
def listMoveResults (le : String → String → Bool) (planId : String) (s : Postgres) :
    Except RepositoryError (List MoveResult) := do
  requireFit (textFits planId)
  return (sortedBy le (fun r => (0, [r.2.candidateId])) (s.moveResults.rows.filter fun r => r.1 = planId)).map (·.2)

/-! ## Jobs -/

/-- `_execute_save_job`. -/
def executeSaveJob (record : JobRecord) (s : Postgres) : Except RepositoryError Postgres := do
  requireFit record.fits
  return { s with jobs := s.jobs.put record }

/-- A job replaces the one of its id. -/
def saveJob (record : JobRecord) (s : Postgres) : Except RepositoryError Postgres := s.executeSaveJob record

/-- Refused at the cap, and for an id that is taken. -/
def enqueueJob (record : JobRecord) (maxActive : Nat) (s : Postgres) : Except RepositoryError (Bool × Postgres) := do
  requireFit (textFits record.jobId)
  if maxActive ≤ s.jobs.active ∨ (s.jobs.find record.jobId).isSome then return (false, s)
  else return (true, ← s.executeSaveJob record)

/-- `_apply_job_from_row` on the join of the two rows. -/
def applyJobFromRow (job : JobRecord) (row : ApplyJobRow) : Except RepositoryError ApplyJobRecord :=
  ApplyJobRecord.make job row.revision row.candidateIds row.result

/-- The same request again is answered with the job it has; another one of its id is a conflict. -/
def enqueueApplyJob (record : ApplyJobRecord) (maxActive : Nat) (s : Postgres) :
    Except RepositoryError (EnqueueApplyJobResult × Postgres) := do
  requireFit (textFits record.job.jobId)
  match s.jobs.find record.job.jobId with
  | some existingJob =>
    match s.applyJobs.find record.job.jobId with
    | some row =>
      if existingJob.planId = record.job.planId ∧ row.revision = record.revision ∧
          row.candidateIds = record.candidateIds then
        return (⟨.existing, some (← applyJobFromRow existingJob row)⟩, s)
      else return (⟨.conflict, none⟩, s)
    | none => return (⟨.conflict, none⟩, s)
  | none =>
    if maxActive ≤ s.jobs.active then return (⟨.full, none⟩, s)
    else
      let s ← s.executeSaveJob record.job
      requireFit (textFits record.revision)
      if (s.applyJobs.find record.job.jobId).isSome then .error (.invalid "duplicate key")
      else
        let row : ApplyJobRow := ⟨record.job.jobId, record.revision, record.candidateIds, record.result⟩
        return (⟨.enqueued, some record⟩, { s with applyJobs := s.applyJobs.put row })

/-- The join of the two rows. -/
def getApplyJob (jobId : String) (s : Postgres) : Except RepositoryError (Option ApplyJobRecord) := do
  requireFit (textFits jobId)
  match s.applyJobs.find jobId, s.jobs.find jobId with
  | some row, some job => return some (← applyJobFromRow job row)
  | _, _ => return none

/-- Rows that other transactions have locked are skipped. -/
def claimNextJob (le : String → String → Bool) (locked : String → Bool) (ownerId : String) (now leaseExpiresAt : Time)
    (s : Postgres) : Except RepositoryError (Option JobRecord × Postgres) :=
  match (s.jobs.queued le).filter fun j => !locked j.jobId with
  | [] => .ok (none, s)
  | row :: _ => do
    requireFit (textFits ownerId)
    let claim (j : JobRecord) : JobRecord :=
      { j with state := .running, updatedAt := now, ownerId := some ownerId, leaseExpiresAt := some leaseExpiresAt }
    return (some (claim row), { s with jobs := s.jobs.modify row.jobId (·.state = .queued) claim fun _ => rfl })

/-- An `UPDATE` of the job its owner still holds; it says whether it touched a row. -/
def updateOwned (jobId ownerId : String) (now : Time) (f : JobRecord → JobRecord) (hf : ∀ j, (f j).jobId = j.jobId)
    (s : Postgres) : Bool × Postgres :=
  (s.jobs.matched jobId (·.owned ownerId now), { s with jobs := s.jobs.modify jobId (·.owned ownerId now) f hf })

/-- Only for the job its owner still holds. -/
def renewOwnedJobLease (jobId ownerId : String) (now leaseExpiresAt : Time) (s : Postgres) :
    Except RepositoryError (Bool × Postgres) := do
  requireFit (textFits jobId && textFits ownerId)
  return s.updateOwned jobId ownerId now
    (fun j => { j with updatedAt := now, leaseExpiresAt := some leaseExpiresAt }) fun _ => rfl

/-- Only for the job its owner still holds; its time of change stays. -/
def updateOwnedJobProgress (jobId ownerId : String) (progress : JobProgress) (now : Time) (s : Postgres) :
    Except RepositoryError (Bool × Postgres) := do
  requireFit (progress.fits && textFits jobId && textFits ownerId)
  return s.updateOwned jobId ownerId now (fun j => { j with progress }) fun _ => rfl

/-- Only for the job its owner still holds; a result of the application goes with it. -/
def finishOwnedJob (jobId ownerId : String) (state : JobState) (errorCode : Option String) (now : Time)
    (progress : JobProgress) (applyResult : Option ApplyResult) (s : Postgres) :
    Except RepositoryError (Bool × Postgres) := do
  requireFit (errorCode.all textFits && progress.fits && textFits jobId && textFits ownerId)
  match s.updateOwned jobId ownerId now
    (fun j => { j with state, updatedAt := now, errorCode, ownerId := none, leaseExpiresAt := none, progress })
    fun _ => rfl with
  | (false, _) => return (false, s)
  | (true, s) =>
    match applyResult with
    | none => return (true, s)
    | some result =>
      match s.applyJobs.find jobId, s.jobs.find jobId with
      | some row, some job =>
        let _ ← ApplyJobRecord.make job row.revision row.candidateIds (some result)
        let stored := s.applyJobs.modify jobId (fun _ => true) (fun r => { r with result := some result }) fun _ => rfl
        return (true, { s with applyJobs := stored })
      | _, _ => .error (.invalid "apply result requires an apply job")

/-- Planning can be cancelled until it ends, an application never. -/
def cancelJob (jobId : String) (now : Time) (s : Postgres) : Except RepositoryError (CancelJobResult × Postgres) := do
  requireFit (textFits jobId)
  match s.jobs.find jobId with
  | none => return (⟨.notFound, none, none, none⟩, s)
  | some current =>
    let refused outcome : CancelJobResult × Postgres := (⟨outcome, some current, some current.state, current.ownerId⟩, s)
    if current.operation = .apply then return refused .notCancellable
    else if current.state = .failed ∧ current.errorCode = some jobCancelledErrorCode then return refused .alreadyCancelled
    else if !current.active then return refused .alreadyTerminal
    else
      let progress := terminalProgress current.progress now (current.operation = .apply)
      let cancel (j : JobRecord) : JobRecord :=
        { j with
          state := .failed, updatedAt := now, errorCode := some jobCancelledErrorCode, ownerId := none
          leaseExpiresAt := none, progress }
      let s := { s with jobs := s.jobs.modify jobId JobRecord.active cancel fun _ => rfl }
      return (⟨.cancelled, s.jobs.find jobId, some current.state, current.ownerId⟩, s)

/-- Every running job whose lease has expired fails; how many there were. -/
def failExpiredJobs (now : Time) (errorCode : String) (s : Postgres) : Except RepositoryError (Nat × Postgres) := do
  requireFit (textFits errorCode)
  let fail (j : JobRecord) : JobRecord :=
    { j with
      state := .failed, updatedAt := now, errorCode := some errorCode, ownerId := none, leaseExpiresAt := none
      progress := terminalProgress j.progress now (j.operation = .apply) }
  return (s.jobs.rows.countP (·.expired now), { s with jobs := s.jobs.update (·.expired now) fail fun _ => rfl })

/-- The job of an id. -/
def getJob (jobId : String) (s : Postgres) : Except RepositoryError (Option JobRecord) := do
  requireFit (textFits jobId)
  return s.jobs.find jobId

/-- The oldest first, of some states or of all. -/
def listJobs (le : String → String → Bool) (states : Option (List JobState)) (s : Postgres) : List JobRecord :=
  sortedBy le (fun j => (j.createdAt, [j.jobId])) (s.jobs.rows.filter fun j => states.all (j.state ∈ ·))

/-! ## Journals -/

/-- A journal goes on only where its state allows it. -/
def saveMoveJournal (record : MoveJournalRecord) (s : Postgres) : Except RepositoryError Postgres := do
  requireFit (textFits record.planId && textFits record.candidateId)
  match s.candidates.find (record.planId, record.candidateId) with
  | none => .error (.missingCandidate record.planId record.candidateId)
  | some _ =>
    let current := (s.moveJournal.find (record.planId, record.candidateId)).map (·.state)
    if record.state ∉ journalTransitions current then .error (.invalid "invalid move journal transition")
    else return { s with moveJournal := s.moveJournal.put record }

/-- The journal of a candidate's move. -/
def getMoveJournal (planId candidateId : String) (s : Postgres) : Except RepositoryError (Option MoveJournalRecord) := do
  requireFit (textFits planId && textFits candidateId)
  return s.moveJournal.find (planId, candidateId)

/-- The journals that are not at their end, the least recently written first. -/
def listUnreconciledMoves (le : String → String → Bool) (s : Postgres) : List MoveJournalRecord :=
  sortedBy le (fun r => (r.updatedAt, [r.planId, r.candidateId])) (s.moveJournal.rows.filter fun r => r.state ≠ .reconciled)

/-- `ON CONFLICT DO UPDATE` leaves the attempt and the paths of the row. -/
def upsertOperation (record : CloudMoveOperationRecord) (current : Option CloudMoveOperationRecord) :
    CloudMoveOperationRecord :=
  match current with
  | none => record
  | some row => { row with
      state := record.state, updatedAt := record.updatedAt, errorCode := record.errorCode, coded := record.coded }

/-- `_execute_save_cloud_move_operation`; the partial unique index allows one unresolved operation a source. -/
def executeSaveCloudMoveOperation (record : CloudMoveOperationRecord) (s : Postgres) : Except RepositoryError Postgres := do
  requireFit (textFits record.planId && textFits record.candidateId)
  match s.candidates.find (record.planId, record.candidateId) with
  | none => .error (.missingCandidate record.planId record.candidateId)
  | some (_, candidate) =>
    match candidate.cloud with
    | none => .error (.invalid "CloudDrive operations require a CloudDrive candidate")
    | some cloud =>
      if cloud.sourcePath ≠ record.sourcePath ∨ cloud.destinationDir ≠ record.destinationDir then
        .error (.invalid "CloudDrive operation paths must match its candidate")
      else
        let current := s.cloudMoveOperations.find (record.planId, record.candidateId)
        if record.state ∉ cloudMoveTransitions (current.map (·.state)) then
          .error (.invalid "invalid CloudDrive move transition")
        else if current.any (·.attemptId ≠ record.attemptId) then
          .error (.invalid "CloudDrive operation attempt id cannot change")
        else
          requireFit record.fits
          let row := upsertOperation record current
          if !row.state.terminal && s.cloudMoveOperations.rows.any fun r =>
              (r.planId, r.candidateId) ≠ (row.planId, row.candidateId) && r.sourcePath = row.sourcePath &&
                !r.state.terminal then
            .error (.invalid "CloudDrive source already has an unresolved operation")
          else return { s with cloudMoveOperations := s.cloudMoveOperations.put row }

/-- A terminal operation is not saved without its result. -/
def saveCloudMoveOperation (record : CloudMoveOperationRecord) (s : Postgres) : Except RepositoryError Postgres :=
  if record.state.terminal then .error (.invalid "terminal CloudDrive operations must be finalized with their result")
  else s.executeSaveCloudMoveOperation record

/-- The operation of a candidate. -/
def getCloudMoveOperation (planId candidateId : String) (s : Postgres) :
    Except RepositoryError (Option CloudMoveOperationRecord) := do
  requireFit (textFits planId && textFits candidateId)
  return s.cloudMoveOperations.find (planId, candidateId)

/-- The operations that are not at their end, the least recently written first. -/
def listUnresolvedCloudMoves (le : String → String → Bool) (s : Postgres) : List CloudMoveOperationRecord :=
  sortedBy le (fun r => (r.updatedAt, [r.planId, r.candidateId]))
    (s.cloudMoveOperations.rows.filter fun r => !r.state.terminal)

/-- A terminal operation and its result come to stand together. -/
def finalizeCloudMove (operation : CloudMoveOperationRecord) (result : MoveResult) (s : Postgres) :
    Except RepositoryError Postgres := do
  if !operation.state.terminal then throw (.invalid "finalized CloudDrive operation must be terminal")
  if operation.candidateId ≠ result.candidateId then throw (.invalid "CloudDrive result must match its operation")
  let s ← s.executeSaveCloudMoveOperation operation
  s.insertMoveResult operation.planId result

end Postgres

end EmbyxManager.FillActor
