import EmbyxManager.Monitor.States
/-!
# The records of the fill actor

What its repositories store: plans with their candidates, move results, jobs,
and the journals of local and CloudDrive moves. A record that its class would
refuse to build cannot be built here either.
-/

namespace EmbyxManager.FillActor

/-- What a repository call raises. -/
inductive RepositoryError where
  /-- `KeyError((plan_id, candidate_id))`. -/
  | missingCandidate (planId candidateId : String)
  | invalid (msg : String)
  deriving DecidableEq, Repr

theorem ok_bind {α β : Type} (a : α) (f : α → Except RepositoryError β) : (Except.ok a >>= f) = f a := rfl

/-! ## Jobs -/

/-- How far a job is. -/
inductive JobState where
  | queued | running | completed | partialFailed | failed
  deriving DecidableEq, Repr

/-- The states that count against the cap. -/
def JobState.active : JobState → Bool
  | queued => true
  | running => true
  | _ => false

/-- `JOB_CANCELLED_ERROR_CODE`. -/
def jobCancelledErrorCode : String := "job_cancelled"

/-- What a job is for. -/
inductive JobOperation where
  | createPlan | apply
  deriving DecidableEq, Repr

/-- What a running job is at. -/
inductive JobStage where
  | queued | actorCatalog | libraryScan | magnetLookup | submitting | persisting | done | unknown
  deriving DecidableEq, Repr

/-- What the progress of a stage is counted in. -/
inductive JobProgressUnit where
  | actors | pages | videos | magnets | steps | items
  deriving DecidableEq, Repr

/-- The progress of a job; it never counts past its total. -/
structure JobProgress where
  stage : JobStage
  completed : Nat
  total : Option Nat
  unit : JobProgressUnit
  current : Option String
  stageStartedAt : Time
  updatedAt : Time
  /-- `job progress completed must not exceed total`. -/
  bounded : ∀ t ∈ total, completed ≤ t
  deriving DecidableEq

/-- A job; `progress` is there even where a caller left it out. -/
structure JobRecord where
  jobId : String
  operation : JobOperation
  state : JobState
  createdAt : Time
  updatedAt : Time
  planId : Option String
  errorCode : Option String
  ownerId : Option String
  leaseExpiresAt : Option Time
  actorIds : List String
  progress : JobProgress
  deriving DecidableEq

/-- The job counts against the cap. -/
def JobRecord.active (j : JobRecord) : Bool := j.state.active

/-- The job runs for this owner, and its lease has not expired. -/
def JobRecord.owned (ownerId : String) (now : Time) (j : JobRecord) : Bool :=
  j.ownerId = some ownerId && j.state = .running && j.leaseExpiresAt.any (now < ·)

/-- The job runs, and its lease has expired. -/
def JobRecord.expired (now : Time) (j : JobRecord) : Bool :=
  j.state = .running && j.leaseExpiresAt.all (· ≤ now)

/-- `_replace_job`. -/
def replaceJob (record : JobRecord) (state : JobState) (updatedAt : Time) (errorCode ownerId : Option String)
    (leaseExpiresAt : Option Time) (progress : Option JobProgress) : JobRecord :=
  { record with state, updatedAt, errorCode, ownerId, leaseExpiresAt, progress := progress.getD record.progress }

/-- `_without_plan`. -/
def withoutPlan (record : JobRecord) : JobRecord := { record with planId := none }

theorem withoutPlan_jobId (record : JobRecord) : (withoutPlan record).jobId = record.jobId := rfl

/-- `_terminal_progress`. -/
def terminalProgress (progress : JobProgress) (now : Time) (clearCurrent : Bool) : JobProgress :=
  { progress with
    stage := .done, current := if clearCurrent then none else progress.current, stageStartedAt := now, updatedAt := now }

/-! ## Moves -/

/-- How the move of a candidate ended. -/
inductive MoveState where
  | moved | stale | conflict | invalidPath | failed
  deriving DecidableEq, Repr

/-- What the move of a candidate came to. -/
structure MoveResult where
  candidateId : String
  videoId : String
  fileName : String
  state : MoveState
  errorCode : Option String
  deriving DecidableEq, Repr

/-- How the application of a plan ended. -/
inductive ApplyState where
  | succeeded | partialFailed | failed
  deriving DecidableEq, Repr

/-- What the application of a plan came to. -/
structure ApplyResult where
  planId : String
  revision : String
  state : ApplyState
  results : List MoveResult
  deriving DecidableEq, Repr

/-! ## Apply jobs -/

/-- `ApplyJobRecord.__post_init__`. -/
structure ApplyJobRecord.Valid (job : JobRecord) (revision : String) (candidateIds : List String)
    (result : Option ApplyResult) : Prop where
  operation : job.operation = .apply
  revised : revision ≠ ""
  unique : candidateIds.Nodup
  completed : result.isSome → job.state = .completed
  sameRevision : ∀ r ∈ result, r.revision = revision
  samePlan : ∀ r ∈ result, ∀ p ∈ job.planId, r.planId = p

instance (job : JobRecord) (revision : String) (candidateIds : List String) (result : Option ApplyResult) :
    Decidable (ApplyJobRecord.Valid job revision candidateIds result) :=
  decidable_of_iff
    (job.operation = .apply ∧ revision ≠ "" ∧ candidateIds.Nodup ∧ (result.isSome → job.state = .completed) ∧
      (∀ r ∈ result, r.revision = revision) ∧ ∀ r ∈ result, ∀ p ∈ job.planId, r.planId = p)
    ⟨fun ⟨a, b, c, d, e, f⟩ => ⟨a, b, c, d, e, f⟩, fun ⟨a, b, c, d, e, f⟩ => ⟨a, b, c, d, e, f⟩⟩

/-- A job that applies a plan, with what it was asked for. -/
structure ApplyJobRecord where
  job : JobRecord
  revision : String
  candidateIds : List String
  result : Option ApplyResult
  valid : ApplyJobRecord.Valid job revision candidateIds result
  deriving DecidableEq

/-- `ApplyJobRecord(...)`, which raises on an invalid record. -/
def ApplyJobRecord.make (job : JobRecord) (revision : String) (candidateIds : List String) (result : Option ApplyResult) :
    Except RepositoryError ApplyJobRecord :=
  if h : Valid job revision candidateIds result then .ok ⟨job, revision, candidateIds, result, h⟩
  else .error (.invalid "apply job record")

theorem ApplyJobRecord.make_ok {job : JobRecord} {revision : String} {candidateIds : List String}
    {result : Option ApplyResult} {r : ApplyJobRecord} (h : make job revision candidateIds result = .ok r) :
    r.job = job ∧ r.revision = revision ∧ r.candidateIds = candidateIds ∧ r.result = result := by
  unfold make at h
  split at h
  · cases h
    exact ⟨rfl, rfl, rfl, rfl⟩
  · cases h

/-- What became of a request to apply a plan. -/
inductive EnqueueApplyJobOutcome where
  | enqueued | existing | conflict | full
  deriving DecidableEq, Repr

/-- The answer to it, with the job that stands. -/
structure EnqueueApplyJobResult where
  outcome : EnqueueApplyJobOutcome
  record : Option ApplyJobRecord
  deriving DecidableEq

/-- What became of a request to cancel a job. -/
inductive CancelJobOutcome where
  | cancelled | alreadyCancelled | alreadyTerminal | notCancellable | notFound
  deriving DecidableEq, Repr

/-- The answer to it, with the job as it was. -/
structure CancelJobResult where
  outcome : CancelJobOutcome
  job : Option JobRecord
  previousState : Option JobState
  previousOwnerId : Option String
  deriving DecidableEq

/-! ## Candidates and plans -/

/-- What a file is known again by. -/
structure FileFingerprint where
  device : Nat
  inode : Nat
  size : Nat
  mtimeNs : Int
  ctimeNs : Int
  deriving DecidableEq, Repr

/-- A file as CloudDrive lists it; the hashes are in order. -/
structure CloudFileMetadata where
  path : String
  fileId : String
  name : String
  size : Nat
  writeTime : Nat
  hashes : List (String × String)
  deriving DecidableEq, Repr

/-- `matches_identity`: all but the path. -/
def CloudFileMetadata.matchesIdentity (a b : CloudFileMetadata) : Bool :=
  a.fileId == b.fileId && a.name == b.name && a.size == b.size && a.writeTime == b.writeTime && a.hashes == b.hashes

/-- What a CloudDrive candidate has and a local one has not; its path is the one of its file. -/
structure CloudSource where
  mappingSha256 : String
  destinationDir : String
  file : CloudFileMetadata
  digest : mappingSha256.length = 64
  deriving DecidableEq

/-- The path a candidate is moved from. -/
def CloudSource.sourcePath (c : CloudSource) : String := c.file.path

/-- A candidate; `cloud` is there for the kind `cloud_strm` and for no other. -/
structure CandidateRecord where
  candidateId : String
  videoId : String
  source : String
  sourceRoot : String
  destination : String
  fingerprint : FileFingerprint
  cloud : Option CloudSource
  deriving DecidableEq

/-- The part of a plan that is shown: `content` stands for what no repository reads. -/
structure FillActorPlan where
  planId : String
  revision : String
  createdAt : Time
  expiresAt : Time
  /-- The move candidates of its videos, with their video ids. -/
  moveCandidates : List (String × String)
  content : String
  deriving DecidableEq

/-- `PlanRecord.__post_init__`. -/
structure PlanRecord.Valid (plan : FillActorPlan) (candidates : List CandidateRecord) : Prop where
  /-- `candidate ids must be unique within a plan`. -/
  unique : (candidates.map (·.candidateId)).Nodup
  /-- `private candidate records must match public plan candidates`. -/
  matching : ∀ c ∈ candidates.map (·.candidateId) ++ plan.moveCandidates.map (·.1),
    (candidates.find? (·.candidateId = c)).map (·.videoId) = plan.moveCandidates.reverse.lookup c

instance (plan : FillActorPlan) (candidates : List CandidateRecord) : Decidable (PlanRecord.Valid plan candidates) :=
  decidable_of_iff
    ((candidates.map (·.candidateId)).Nodup ∧ ∀ c ∈ candidates.map (·.candidateId) ++ plan.moveCandidates.map (·.1),
      (candidates.find? (·.candidateId = c)).map (·.videoId) = plan.moveCandidates.reverse.lookup c)
    ⟨fun ⟨a, b⟩ => ⟨a, b⟩, fun ⟨a, b⟩ => ⟨a, b⟩⟩

/-- A plan as it is stored: what is shown of it, and its candidates. -/
structure PlanRecord where
  plan : FillActorPlan
  candidates : List CandidateRecord
  configVersion : Nat
  valid : PlanRecord.Valid plan candidates

/-- `PlanRecord(...)`, which raises on an invalid record. -/
def PlanRecord.make (plan : FillActorPlan) (candidates : List CandidateRecord) (configVersion : Nat) :
    Except RepositoryError PlanRecord :=
  if h : Valid plan candidates then .ok ⟨plan, candidates, configVersion, h⟩ else .error (.invalid "plan record")

/-- The candidate of an id. -/
def PlanRecord.candidate (r : PlanRecord) (candidateId : String) : Option CandidateRecord :=
  r.candidates.find? fun c => c.candidateId = candidateId

/-! ## Move journals -/

/-- How far a local move is. -/
inductive MoveJournalState where
  | prepared | linked | sourceRemoved | reconciled
  deriving DecidableEq, Repr

/-- The journal of a candidate's move. -/
structure MoveJournalRecord where
  planId : String
  candidateId : String
  state : MoveJournalState
  updatedAt : Time
  deriving DecidableEq

/-- `_ALLOWED_JOURNAL_TRANSITIONS`. -/
def journalTransitions : Option MoveJournalState → List MoveJournalState
  | none => [.prepared]
  | some .prepared => [.prepared, .linked, .reconciled]
  | some .linked => [.linked, .sourceRemoved, .reconciled]
  | some .sourceRemoved => [.sourceRemoved, .reconciled]
  | some .reconciled => [.reconciled]

/-- How far a move at CloudDrive is. -/
inductive CloudMoveOperationState where
  | prepared | submitting | verifying | unknown | succeeded | conflict | failed
  deriving DecidableEq, Repr

/-- The states an operation ends in. -/
def CloudMoveOperationState.terminal : CloudMoveOperationState → Bool
  | succeeded => true
  | conflict => true
  | failed => true
  | _ => false

/-- The states that carry an error code. -/
def CloudMoveOperationState.erroneous : CloudMoveOperationState → Bool
  | unknown => true
  | conflict => true
  | failed => true
  | _ => false

/-- A move at CloudDrive; an error code is there in the states that carry one. -/
structure CloudMoveOperationRecord where
  planId : String
  candidateId : String
  attemptId : String
  sourcePath : String
  destinationDir : String
  state : CloudMoveOperationState
  updatedAt : Time
  errorCode : Option String
  named : attemptId ≠ "" ∧ sourcePath ≠ "" ∧ destinationDir ≠ ""
  coded : errorCode.isSome = state.erroneous
  deriving DecidableEq

/-- `_ALLOWED_CLOUD_MOVE_TRANSITIONS`. -/
def cloudMoveTransitions : Option CloudMoveOperationState → List CloudMoveOperationState
  | none => [.prepared]
  | some .prepared => [.prepared, .submitting, .conflict, .failed]
  | some .submitting => [.submitting, .verifying, .unknown]
  | some .verifying => [.verifying, .unknown, .succeeded, .conflict, .failed]
  | some .unknown => [.unknown, .succeeded, .conflict, .failed]
  | some .succeeded => [.succeeded]
  | some .conflict => [.conflict]
  | some .failed => [.failed]

end EmbyxManager.FillActor
