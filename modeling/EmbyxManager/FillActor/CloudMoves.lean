import EmbyxManager.Atom.Mutex
import EmbyxManager.FillActor.Repositories
/-!
# Moving a file at CloudDrive

`_run_cloud_move` submits a move and watches for what came of it; `_recover_cloud_move`
takes up an operation that a stop left behind. Both run under the mutation lock.
The file system, CloudDrive, the clock and the repository are actions; every
repository call is one action, whichever backend answers it.
-/

namespace EmbyxManager.FillActor

open Atom

/-! ## Paths -/

/-- `PurePosixPath(p).parent` of an absolute path. -/
def pathParent (p : String) : String :=
  match (p.toList.reverse.dropWhile (· ≠ '/')).drop 1 with
  | [] => "/"
  | dir => String.ofList dir.reverse

/-- `str(PurePosixPath(dir) / name)`. -/
def pathJoin (dir name : String) : String := if dir = "/" then "/" ++ name else dir ++ "/" ++ name

def isSafeSegment (value : String) : Bool :=
  !(value = "" || value = "." || value = ".." || value.toList.contains '/' || value.toList.contains '\\' ||
    value.toList.contains (Char.ofNat 0))

/-! ## Actions -/

structure CloudMoveResponse where
  success : Bool
  errorMessage : Option String
  resultPaths : List String
  deriving DecidableEq

/-- What a STRM file names: its digest and the CloudDrive path. -/
structure ParsedStrmTarget where
  mappingSha256 : String
  apiPath : String
  deriving DecidableEq

inductive CloudExc where
  /-- `ValueError`, `KeyError` and the other errors of a repository or a parser. -/
  | value (text : String)
  | fileNotFound
  | other (text : String)
  deriving DecidableEq

inductive CloudOp where
  | now
  | token
  | sleep
  | rootsReady
  | stopRequested
  /-- `_run_move` of a candidate that is not a CloudDrive one. -/
  | localMove (planId candidateId : String)
  | hasSymlinkComponent (path root : String)
  | isWithin (path root : String)
  | isFile (path : String)
  | fingerprint (path : String)
  | parseMapping (path : String) (sourceIndex : Nat)
  | listDirectory (directory : String)
  | ensureDirectory (parent name : String)
  /-- On behalf of a candidate. -/
  | moveFile (planId candidateId : String) (source directory : String)
  | getPlan (planId : String)
  | getCandidate (planId candidateId : String)
  | getMoveResult (planId candidateId : String)
  | getCloudMoveOperation (planId candidateId : String)
  | listUnresolvedCloudMoves
  | saveMoveResult (planId : String) (result : MoveResult)
  | saveCloudMoveOperation (record : CloudMoveOperationRecord)
  | finalizeCloudMove (operation : CloudMoveOperationRecord) (result : MoveResult)

def CloudOp.Res : CloudOp → Type
  | now => Time
  | token => String
  | rootsReady | stopRequested | hasSymlinkComponent .. | isWithin .. | isFile _ | ensureDirectory .. => Bool
  | fingerprint _ => FileFingerprint
  | parseMapping .. => ParsedStrmTarget
  | listDirectory _ => List CloudFileMetadata
  | moveFile .. => CloudMoveResponse
  | localMove .. => MoveResult
  | getPlan _ => Option PlanRecord
  | getCandidate .. => Option CandidateRecord
  | getMoveResult .. => Option MoveResult
  | getCloudMoveOperation .. => Option CloudMoveOperationRecord
  | listUnresolvedCloudMoves => List CloudMoveOperationRecord
  | sleep | saveMoveResult .. | saveCloudMoveOperation _ | finalizeCloudMove .. => Unit

/-- A program under the mutation lock. -/
abbrev Move := Prog CloudOp.Res CloudExc

def CloudOp.ask (op : CloudOp) : Move op.Res := Prog.call op

def now : Move Time := CloudOp.ask .now

def fingerprint (path : String) : Move FileFingerprint := CloudOp.ask (.fingerprint path)

def hasSymlinkComponent (path root : String) : Move Bool := CloudOp.ask (.hasSymlinkComponent path root)

def isWithin (path root : String) : Move Bool := CloudOp.ask (.isWithin path root)

def isFile (path : String) : Move Bool := CloudOp.ask (.isFile path)

def ensureDirectory (parent name : String) : Move Bool := CloudOp.ask (.ensureDirectory parent name)

structure CloudMovePaths where
  moveInApiRoot : String

structure FillActorService where
  applyEnabled : Bool
  cloudMode : Bool
  /-- `_cloud_file_mover` is there. -/
  mover : Bool
  cloudMovePaths : Option CloudMovePaths
  additionalBrandPaths : List String
  resolveBrand : String → Option String
  configVersion : Nat

namespace FillActorService

def cloudVerifyAttempts : Nat := 5
def cloudMoveObservationGrace : Time := seconds (15 * 60)

/-! ## Results and records -/

/-- A result for a candidate: `_cloud_result_base` with a state and an error code. -/
def cloudResult (record : CandidateRecord) (cloud : CloudSource) (state : MoveState) (errorCode : Option String) :
    MoveResult :=
  ⟨record.candidateId, record.videoId, cloud.file.name, state, errorCode⟩

/-- The operation in another state; building it raises where the record would be invalid. -/
def withState (operation : CloudMoveOperationRecord) (state : CloudMoveOperationState) (now : Time)
    (errorCode : Option String) : Move CloudMoveOperationRecord :=
  if h : errorCode.isSome = state.erroneous then
    .ret { operation with state, updatedAt := now, errorCode, coded := h }
  else .raise (.value "invalid CloudDrive operation")

def preparedOperation (planId : String) (record : CandidateRecord) (cloud : CloudSource) (attemptId : String) (now : Time) :
    Move CloudMoveOperationRecord :=
  if h : attemptId ≠ "" ∧ cloud.sourcePath ≠ "" ∧ cloud.destinationDir ≠ "" then
    .ret ⟨planId, record.candidateId, attemptId, cloud.sourcePath, cloud.destinationDir, .prepared, now, none, h, rfl⟩
  else .raise (.value "CloudDrive operation identifiers and paths must not be empty")

/-! ## Looking at CloudDrive -/

/-- A folder that is not there is no listing. -/
def listCloudDirectory (directory : String) : Move (Option (List CloudFileMetadata)) := do
  match ← (CloudOp.ask (.listDirectory directory)).attempt with
  | .ok files => pure (some files)
  | .error .fileNotFound => pure none
  | .error e => .raise e

def findCloudFile (apiPath : String) (listing : Option (List CloudFileMetadata)) : Option CloudFileMetadata :=
  listing.bind fun files => files.find? (·.path = apiPath)

def statCloudFile (apiPath : String) : Move (Option CloudFileMetadata) := do
  let listing ← listCloudDirectory (pathParent apiPath)
  pure (findCloudFile apiPath listing)

/-- The parent, the brand and the directory a candidate is moved into. -/
def cloudDestinationComponents (svc : FillActorService) (record : CandidateRecord) (cloud : CloudSource) :
    Option (String × String × String) := do
  let paths ← svc.cloudMovePaths
  let brand ← svc.resolveBrand record.videoId
  if !isSafeSegment brand then none
  else
    let expected := pathJoin paths.moveInApiRoot brand
    if expected ≠ cloud.destinationDir then none else some (paths.moveInApiRoot, brand, expected)

/-- The STRM file is read again; what cannot be read is an invalid target. -/
def parseAgain (svc : FillActorService) (record : CandidateRecord) (cloud : CloudSource) : Move (Option String) := do
  if (← fingerprint record.source) ≠ record.fingerprint then pure (some "source_changed")
  else
    match svc.additionalBrandPaths.findIdx? (· = record.sourceRoot) with
    | none => .raise (.value "not in tuple")
    | some sourceIndex =>
      let parsed ← CloudOp.ask (.parseMapping record.source sourceIndex)
      if parsed.mappingSha256 ≠ cloud.mappingSha256 ∨ parsed.apiPath ≠ cloud.sourcePath then
        pure (some "strm_target_changed")
      else if (svc.cloudDestinationComponents record cloud).isNone then pure (some "cloud_destination_changed")
      else pure none

def validateCloudMapping (svc : FillActorService) (record : CandidateRecord) (cloud : CloudSource) :
    Move (Option String) := do
  if svc.cloudMovePaths.isNone then pure (some "cloud_candidate_incomplete")
  else if ← hasSymlinkComponent record.source record.sourceRoot then pure (some "source_symlink")
  else if !(← isWithin record.source record.sourceRoot) then pure (some "source_missing")
  else if !(← isFile record.source) then pure (some "source_missing")
  else
    match ← (svc.parseAgain record cloud).attempt with
    | .ok error => pure error
    | .error (.other text) => .raise (.other text)
    | .error _ => pure (some "invalid_strm_target")

/-! ## Observation and completion -/

/-- `save_cloud_move_operation` of the operation in another state. -/
def advanceCloudOperation (operation : CloudMoveOperationRecord) (state : CloudMoveOperationState)
    (errorCode : Option String) : Move CloudMoveOperationRecord := do
  let updated ← withState operation state (← now) errorCode
  CloudOp.ask (.saveCloudMoveOperation updated)
  pure updated

def completeCloudMove (planId : String) (record : CandidateRecord) (cloud : CloudSource)
    (operation : CloudMoveOperationRecord) (operationState : CloudMoveOperationState) (moveState : MoveState)
    (errorCode : Option String) : Move MoveResult := do
  if operation.planId ≠ planId then .raise (.value "CloudDrive operation plan mismatch")
  else
    let updated ← withState operation operationState (← now)
      (if operationState ≠ .succeeded then errorCode else none)
    let result := cloudResult record cloud moveState errorCode
    CloudOp.ask (.finalizeCloudMove updated result)
    pure result

/-- The source, and then the destination. -/
def observePair (operation : CloudMoveOperationRecord) (destinationPath : String) :
    Move (Option CloudFileMetadata × Option CloudFileMetadata) := do
  let source ← statCloudFile operation.sourcePath
  let destination ← statCloudFile destinationPath
  pure (source, destination)

/-- Unless it is there already, an operation that says nothing for sure goes to `unknown`. -/
def leaveUnknown (operation : CloudMoveOperationRecord) (errorCode : String) : Move Unit :=
  if operation.state ≠ .unknown then discard (advanceCloudOperation operation .unknown (some errorCode)) else pure ()

/-- Nothing is concluded: the last look leaves the operation under observation. -/
def undecided (record : CandidateRecord) (cloud : CloudSource) (operation : CloudMoveOperationRecord) (final : Bool) :
    Move MoveResult := do
  if !final then pure (cloudResult record cloud .failed (some "cloud_move_verifying"))
  else
    leaveUnknown operation "cloud_move_status_unknown"
    pure (cloudResult record cloud .failed (some "cloud_move_status_unknown"))

/-- What two looks say about a submitted move. -/
def concludeCloudMove (planId : String) (record : CandidateRecord) (cloud : CloudSource)
    (operation : CloudMoveOperationRecord) (response : Option CloudMoveResponse) (final : Bool)
    (source destination : Option CloudFileMetadata) : Move MoveResult := do
  let sourceMatches := source.any cloud.file.matchesIdentity
  let destinationMatches := destination.any cloud.file.matchesIdentity
  let complete := completeCloudMove planId record cloud operation
  if source.isNone && destinationMatches then complete .succeeded .moved none
  else if sourceMatches && destination.isSome && !destinationMatches then
    complete .conflict .conflict (some "cloud_destination_exists")
  else if source.isSome && !sourceMatches then complete .failed .stale (some "cloud_source_changed")
  else if response.any (!·.success) && sourceMatches && destination.isNone then
    complete .failed .failed (some "cloud_move_rejected")
  else if final && response.isNone && sourceMatches && destination.isNone then
    if (← now) - operation.updatedAt ≥ cloudMoveObservationGrace then
      complete .failed .failed (some "cloud_move_not_observed")
    else undecided record cloud operation final
  else undecided record cloud operation final

def observeCloudMove (planId : String) (record : CandidateRecord) (cloud : CloudSource)
    (operation : CloudMoveOperationRecord) (response : Option CloudMoveResponse) (final : Bool) : Move MoveResult := do
  match ← (observePair operation (pathJoin operation.destinationDir cloud.file.name)).attempt with
  | .error _ =>
    leaveUnknown operation "cloud_observation_failed"
    pure (cloudResult record cloud .failed (some "cloud_move_status_unknown"))
  | .ok (source, destination) => concludeCloudMove planId record cloud operation response final source destination

/-- The looks that follow a submission; the last one is final. -/
def verifyCloudMove (planId : String) (record : CandidateRecord) (cloud : CloudSource)
    (operation : CloudMoveOperationRecord) (response : CloudMoveResponse) : Nat → Move MoveResult
  | 0 => pure (cloudResult record cloud .failed (some "cloud_move_status_unknown"))
  | left + 1 => do
    let result ← observeCloudMove planId record cloud operation (some response) (left = 0)
    if result.errorCode ≠ some "cloud_move_verifying" then pure result
    else
      CloudOp.ask .sleep
      verifyCloudMove planId record cloud operation response left

/-! ## Recovery -/

/-- `_terminal_cloud_result`. -/
def terminalCloudResult (record : CandidateRecord) (cloud : CloudSource) (operation : CloudMoveOperationRecord) :
    MoveResult :=
  match operation.state with
  | .succeeded => cloudResult record cloud .moved none
  | .conflict => cloudResult record cloud .conflict operation.errorCode
  | _ => cloudResult record cloud .failed operation.errorCode

def recoverCloudMove (planId : String) (record : CandidateRecord) (cloud : CloudSource)
    (operation : CloudMoveOperationRecord) : Move MoveResult := do
  if operation.state.terminal then
    let result := terminalCloudResult record cloud operation
    CloudOp.ask (.finalizeCloudMove operation result)
    pure result
  else match operation.state with
    | .prepared =>
      completeCloudMove planId record cloud operation .failed .failed (some "cloud_move_not_submitted")
    | .submitting => do
      let operation ← advanceCloudOperation operation .unknown (some "cloud_move_interrupted")
      observeCloudMove planId record cloud operation none true
    | _ => observeCloudMove planId record cloud operation none true

/-! ## Submission -/

/-- Store a result that no operation stands behind. -/
def saved (planId : String) (result : MoveResult) : Move MoveResult := do
  CloudOp.ask (.saveMoveResult planId result)
  pure result

/-- Journal first, then submit, then look. -/
def submitCloudMove (planId : String) (record : CandidateRecord) (cloud : CloudSource) : Move MoveResult := do
  let attemptId ← CloudOp.ask .token
  let operation ← preparedOperation planId record cloud attemptId (← now)
  match ← (CloudOp.ask (.saveCloudMoveOperation operation)).attempt with
  | .error (.value _) => pure (cloudResult record cloud .failed (some "cloud_move_in_progress"))
  | .error e => .raise e
  | .ok () =>
    let operation ← advanceCloudOperation operation .submitting none
    match ← (CloudOp.ask (.moveFile planId record.candidateId cloud.sourcePath cloud.destinationDir)).attempt with
    | .error _ =>
      let operation ← advanceCloudOperation operation .unknown (some "cloud_move_transport_unknown")
      observeCloudMove planId record cloud operation none true
    | .ok response =>
      let operation ← advanceCloudOperation operation .verifying none
      verifyCloudMove planId record cloud operation response cloudVerifyAttempts

/-- The listing of the destination, made where there is none. -/
def ensureDestination (svc : FillActorService) (planId : String) (record : CandidateRecord) (cloud : CloudSource) :
    Move (Except MoveResult (List CloudFileMetadata)) :=
  match svc.cloudDestinationComponents record cloud with
  | none => do
    let result ← saved planId (cloudResult record cloud .invalidPath (some "cloud_destination_changed"))
    pure (.error result)
  | some (parent, brand, _) => do
    let ensured : Move (Option (List CloudFileMetadata)) := do
      if ← ensureDirectory parent brand then listCloudDirectory cloud.destinationDir else pure none
    match ← ensured.attempt with
    | .ok (some listing) => pure (.ok listing)
    | _ => do
      let result ← saved planId (cloudResult record cloud .invalidPath (some "cloud_destination_missing"))
      pure (.error result)

/-- The last look before anything is journalled. -/
def recheckCloudMove (planId : String) (record : CandidateRecord) (cloud : CloudSource) : Move MoveResult := do
  let looks : Move (Option CloudFileMetadata × Option CloudFileMetadata) := do
    let source ← statCloudFile cloud.sourcePath
    let destination ← statCloudFile (pathJoin cloud.destinationDir cloud.file.name)
    pure (source, destination)
  match ← looks.attempt with
  | .error _ => pure (cloudResult record cloud .failed (some "cloud_preflight_failed"))
  | .ok (source, destination) =>
    if !source.any cloud.file.matchesIdentity then
      saved planId (cloudResult record cloud .stale (some "cloud_source_changed"))
    else if destination.isSome then
      saved planId (cloudResult record cloud .conflict (some "cloud_destination_exists"))
    else submitCloudMove planId record cloud

/-- With the destination listed. -/
def checkDestination (planId : String) (record : CandidateRecord) (cloud : CloudSource)
    (listing : List CloudFileMetadata) : Move MoveResult := do
  if (findCloudFile (pathJoin cloud.destinationDir cloud.file.name) (some listing)).isSome then
    saved planId (cloudResult record cloud .conflict (some "cloud_destination_exists"))
  else recheckCloudMove planId record cloud

/-- From the first look at CloudDrive on. -/
def preflightCloudMove (svc : FillActorService) (planId : String) (record : CandidateRecord) (cloud : CloudSource) :
    Move MoveResult := do
  let looks : Move (Option CloudFileMetadata × Option (List CloudFileMetadata)) := do
    let source ← statCloudFile cloud.sourcePath
    let listing ← listCloudDirectory cloud.destinationDir
    pure (source, listing)
  match ← looks.attempt with
  | .error _ => pure (cloudResult record cloud .failed (some "cloud_preflight_failed"))
  | .ok (none, _) => saved planId (cloudResult record cloud .stale (some "cloud_source_missing"))
  | .ok (some source, listing) =>
    if !cloud.file.matchesIdentity source then
      saved planId (cloudResult record cloud .stale (some "cloud_source_changed"))
    else match listing with
      | some listing => checkDestination planId record cloud listing
      | none => do
        match ← svc.ensureDestination planId record cloud with
        | .error result => pure result
        | .ok listing => checkDestination planId record cloud listing

/-- `_run_cloud_move` under the lock. -/
def runLocked (svc : FillActorService) (planId : String) (record : CandidateRecord) (cloud : CloudSource) :
    Move MoveResult := do
  match ← CloudOp.ask (.getMoveResult planId record.candidateId) with
  | some cached => pure cached
  | none =>
    match ← CloudOp.ask (.getCloudMoveOperation planId record.candidateId) with
    | some operation => recoverCloudMove planId record cloud operation
    | none =>
      match ← svc.validateCloudMapping record cloud with
      | some mappingError => saved planId (cloudResult record cloud .stale (some mappingError))
      | none => svc.preflightCloudMove planId record cloud

/-! ## Whole operations -/

/-- A program that takes the mutation lock where it needs it. -/
abbrev Locked := Prog (Locking.Ans CloudOp.Res) CloudExc

def look (op : CloudOp) : Locked op.Res := Locking.lift op.ask

def rootsReady : Locked Bool := look .rootsReady

def stopRequested : Locked Bool := look .stopRequested

def runCloudMove (svc : FillActorService) (planId : String) (record : CandidateRecord) (cloud : CloudSource) :
    Locked MoveResult := do
  if !svc.mover || svc.cloudMovePaths.isNone then
    pure (cloudResult record cloud .failed (some "cloud_move_not_configured"))
  else if !(← rootsReady) then pure (cloudResult record cloud .failed (some "root_unavailable"))
  else Locking.within (svc.runLocked planId record cloud)

def runMove (svc : FillActorService) (planId : String) (record : CandidateRecord) : Locked MoveResult :=
  match record.cloud with
  | some cloud => svc.runCloudMove planId record cloud
  | none => look (.localMove planId record.candidateId)

/-- One candidate after the other, until a stop is requested. -/
def applyEach (svc : FillActorService) (planId : String) :
    List CandidateRecord → List MoveResult → Locked (List MoveResult)
  | [], results => pure results
  | record :: rest, results => do
    if ← stopRequested then pure results
    else
      match ← look (.getMoveResult planId record.candidateId) with
      | some cached => applyEach svc planId rest (results ++ [cached])
      | none => do
        let result ← svc.runMove planId record
        applyEach svc planId rest (results ++ [result])

/-- `_get_plan`. -/
def storedPlan (svc : FillActorService) (planId revision : String) : Locked PlanRecord := do
  match ← look (.getPlan planId) with
  | none => .raise (.other "unknown_plan")
  | some stored =>
    if stored.plan.revision ≠ revision then .raise (.other "revision_mismatch")
    else if stored.configVersion ≠ svc.configVersion then .raise (.other "legacy_plan")
    else if (← Locking.lift now) ≥ stored.plan.expiresAt then .raise (.other "expired_plan")
    else pure stored

def apply (svc : FillActorService) (planId revision : String) (candidateIds : List String) : Locked (List MoveResult) := do
  if !svc.applyEnabled then .raise (.other "move_disabled")
  else
    let stored ← svc.storedPlan planId revision
    let selected := candidateIds.eraseDups
    let records := selected.filterMap stored.candidate
    if records.length ≠ selected.length then .raise (.other "unknown_candidate")
    else if svc.cloudMode && records.any (·.cloud.isNone) then .raise (.other "legacy_plan")
    else svc.applyEach planId records []

/-- One unresolved operation, under the lock. -/
def reconcileLocked (operation : CloudMoveOperationRecord) (record : CandidateRecord) (cloud : CloudSource) :
    Move (Option MoveResult) := do
  match ← CloudOp.ask (.getCloudMoveOperation operation.planId operation.candidateId) with
  | none => pure none
  | some current =>
    if current.state.terminal then pure none
    else do
      let result ← recoverCloudMove operation.planId record cloud current
      pure (some result)

/-- `reconcile_moves` in cloud mode. -/
def reconcileMoves (svc : FillActorService) : Locked (List MoveResult) := do
  if !svc.applyEnabled then pure []
  else if !(← rootsReady) then pure []
  else
    let operations ← look .listUnresolvedCloudMoves
    Prog.foldEach operations [] fun results operation => do
      match ← look (.getCandidate operation.planId operation.candidateId) with
      | none => pure results
      | some record =>
        match record.cloud with
        | none => pure results
        | some cloud => do
          let result ← Locking.within (reconcileLocked operation record cloud)
          pure (results ++ result.toList)

end FillActorService

end EmbyxManager.FillActor
