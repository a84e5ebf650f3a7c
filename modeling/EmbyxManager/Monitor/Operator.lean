import EmbyxManager.Monitor.Intake
/-!
# What an operator can ask for

The dashboard's endpoints on one acquisition (retry, magnet, ignore, resume), and
the replacement of a title the library holds. A refusal is an exception with
its code.
-/

namespace EmbyxManager
open Atom AcquisitionRepository

/-- What the endpoints are built with. -/
structure Dashboard where
  readers : Readers
  /-- The dashboard has a way to submit magnets. -/
  submitMagnet : Bool := true
  cloudConfigured : Bool := true
  fallbackDirs : List String

namespace Dashboard

def load (avid : Avid) : M AcquisitionRecord := do
  match ← get avid with
  | none => .raise (.apiError 404 "unknown_acquisition")
  | some record => pure record

/-- One compare-and-set; a lost race is a 409. -/
def move (record : AcquisitionRecord) (target : AcquisitionState) (note : Option String := none) :
    M AcquisitionRecord := do
  let at_ ← now
  if ← transition record.avid record.state target at_ note then load record.avid
  else .raise (.apiError 409 "acquisition_changed")

/-- The attempt the operator chose, or the next untried one. -/
def claimed (avid : Avid) (attemptNo : Option Nat) (at_ : Time) : M (Option MagnetAttemptRecord) :=
  match attemptNo with
  | none => claimNextPending avid at_
  | some no => do
    match ← (claimAttempt avid no at_).attempt with
    | .ok row => pure row
    | .error (.magnetInUse _ _) => .raise (.apiError 409 "magnet_in_use")
    | .error e => .raise e

/-- Hand a magnet to CloudDrive: a chosen one, or the next untried one. -/
def submit (d : Dashboard) (avid : Avid) (attemptNo : Option Nat := none) : M Unit :=
  if !d.submitMagnet then .raise (.apiError 422 "clouddrive_not_configured")
  else do
    let at_ ← now
    match ← claimed avid attemptNo at_ with
    | none => .raise (.apiError 409 "no_magnet_left")
    | some attempt => do
      if ← EmbyxManager.submitMagnet d.cloudConfigured d.fallbackDirs avid attempt.magnet then pure ()
      else do
        let refused ← now
        discard (transitionAttempt avid attempt.attemptNo .submitted .error refused
          (some "failed to add the offline task"))
        .raise (.apiError 502 "offline_task_rejected")

/-- What follows a submission: the row is the tracker's. -/
def handOver (record : AcquisitionRecord) : M AcquisitionRecord :=
  if record.state = .downloading then load record.avid else move record .downloading

/-- Try this AVID's next magnet now, whatever it is waiting on. -/
def retryAcquisition (d : Dashboard) (avid : Avid) : M AcquisitionRecord := do
  let record ← load avid
  if record.state = .archived then .raise (.apiError 409 "already_archived")
  else do
    d.submit avid
    handOver record

/-- Add an operator's magnet and submit it straight away. -/
def addMagnet (d : Dashboard) (avid : Avid) (magnet : String) : M AcquisitionRecord := do
  let record ← load avid
  if record.state = .archived then .raise (.apiError 409 "already_archived")
  else
    match Intake.isMagnet magnet, d.readers.extractInfoHash magnet with
    | true, some infoHash => do
      let at_ ← now
      if (← addAttempts avid [{ magnet, infoHash := some infoHash, source := "manual" }] at_) = 0 then
        .raise (.apiError 409 "magnet_already_tried")
      else do
        -- the magnet the operator chose, not whichever candidate is next in line
        match (← attemptsFor avid).getLast? with
        | none => .raise (.failure "IndexError")
        | some last => do
          d.submit avid (some last.attemptNo)
          handOver record
    | _, _ => .raise (.apiError 400 "unusable_magnet")

def ignoreAcquisition (avid : Avid) : M AcquisitionRecord := do
  let record ← load avid
  if record.state = .archived then .raise (.apiError 409 "already_archived")
  else move record .ignored (some "ignored by an operator")

/-- Hand a parked AVID back to the tracker. -/
def resumeAcquisition (avid : Avid) : M AcquisitionRecord := do
  let record ← load avid
  if record.state ≠ .needsAttention then .raise (.apiError 409 "not_parked")
  else move record .downloading

end Dashboard

/-! ## Replacing a title -/

inductive ReplaceOutcome where
  | submitted | noMagnet | submitFailed
  deriving DecidableEq

structure ReplacePlan where
  avid : Avid
  holdings : List String
  state : Option AcquisitionState
  taskDirPath : Option String
  /-- Why it cannot start now. -/
  blocked : Option String

/-- What a replacement is built with. -/
structure ReplacementSource where
  readers : Readers
  /-- `str.strip`. -/
  strip : String → String
  intake : Option Intake
  configuredDirs : List String
  routeForTaskDir : String → Option (String × Bool)
  /-- The library directory two levels above a file: route destination over brand. -/
  routeDirOf : String → String
  cloudConfigured : Bool := true
  fallbackDirs : List String

namespace ReplacementSource

/-- The row's own directory, else one feeding where the old copy sits, else any routed one. -/
def taskDirFor (s : ReplacementSource) (record : Option AcquisitionRecord) (holdings : List String) : Option String :=
  match ((record.bind (·.taskDirPath)).filter (· ≠ "")).filter fun dir => (s.routeForTaskDir dir).isSome with
  | some dir => some dir
  | none =>
    let routed := s.configuredDirs.filterMap fun dir => (s.routeForTaskDir dir).map (dir, ·.1)
    match routed.find? fun r => r.2 ∈ holdings.map s.routeDirOf with
    | some r => some r.1
    | none => routed.head?.map (·.1)

def plan (s : ReplacementSource) (text : String) : M ReplacePlan :=
  let avid := s.readers.getAvid (s.strip text)
  if avid = "" then .raise (.replaceError "unreadable_avid")
  else do
    let holdings ← ask (.libraryHoldings avid none)
    let record ← get avid
    let state := record.map (·.state)
    let taskDirPath := s.taskDirFor record holdings
    let blocked :=
      if holdings = [] then some "not_in_library"
      else if state.any (· ∉ AcquisitionState.replaceable) then some "acquisition_active"
      else if taskDirPath = none then some "no_task_dir"
      else if s.intake.isNone then some "clouddrive_not_configured"
      else none
    pure { avid, holdings, state, taskDirPath, blocked }

/-- The pasted magnet as a candidate, refused before anything is written. -/
def operatorCandidate (s : ReplacementSource) (avid : Avid) (magnet : Option String) : M (Option MagnetCandidate) :=
  match (magnet.map s.strip).filter (· ≠ "") with
  | none => pure none
  | some magnet =>
    match Intake.isMagnet magnet, s.readers.extractInfoHash magnet with
    | true, some infoHash => do
      if some infoHash ∈ (← attemptsFor avid).map (·.infoHash) then .raise (.replaceError "magnet_already_tried")
      else pure (some { magnet, infoHash := some infoHash, source := "manual" })
    | _, _ => .raise (.replaceError "unusable_magnet")

/-- Submit exactly the pasted magnet. -/
def submitOperatorMagnet (s : ReplacementSource) (avid : Avid) (candidate : MagnetCandidate) : M ReplaceOutcome := do
  let at_ ← now
  if (← addAttempts avid [candidate] at_) = 0 then pure .submitFailed
  else do
    match (← attemptsFor avid).getLast? with
    | none => .raise (.failure "IndexError")
    | some last => do
      match ← (claimAttempt avid last.attemptNo at_).attempt with
      | .error (.magnetInUse _ _) => .raise (.replaceError "magnet_in_use")
      | .error e => .raise e
      | .ok none => pure .submitFailed
      | .ok (some attempt) => do
        if ← submitMagnet s.cloudConfigured s.fallbackDirs avid attempt.magnet then do
          let submitted ← now
          discard (transition avid .discovered .downloading submitted)
          pure .submitted
        else do
          let refused ← now
          discard (transitionAttempt avid attempt.attemptNo .submitted .error refused
            (some "failed to add the offline task"))
          pure .submitFailed

/-- Ask the resolvers and submit the first untried candidate, an older one included. -/
def submitResolved (i : Intake) (avid : Avid) (taskDir : String) : M ReplaceOutcome := do
  let candidates ← Intake.resolveOrNone i avid
  if ← Intake.recordAndSubmit i avid candidates taskDir then pure .submitted
  else pure (if candidates = [] then .noMagnet else .submitFailed)

/-- The pasted magnet, or what the resolvers find. -/
def submitReplacement (s : ReplacementSource) (i : Intake) (avid : Avid) (taskDir : String) :
    Option MagnetCandidate → M ReplaceOutcome
  | some candidate => s.submitOperatorMagnet avid candidate
  | none => submitResolved i avid taskDir

/-- Begin replacing one title; the old copy stays until the new one is filed. -/
def start (s : ReplacementSource) (text : String) (magnet : Option String := none) :
    M (ReplacePlan × ReplaceOutcome × AcquisitionRecord) := do
  let plan ← s.plan text
  match plan.blocked, s.intake, plan.taskDirPath with
  | some code, _, _ => .raise (.replaceError code)
  | none, some intake, some taskDir => do
    let candidate ← s.operatorCandidate plan.avid magnet
    let at_ ← now
    match ← beginReplacement plan.avid "manual" taskDir plan.holdings at_ with
    | none => .raise (.replaceError "acquisition_changed")
    | some record => do
      let outcome ← s.submitReplacement intake plan.avid taskDir candidate
      runIf (outcome ≠ .submitted) (Intake.parkUnresolved intake plan.avid)
      let current ← get plan.avid
      pure (plan, outcome, current.getD record)
  | none, _, _ => .raise (.replaceError "clouddrive_not_configured")

end ReplacementSource

end EmbyxManager
