import EmbyxManager.Monitor.Cadence
import EmbyxManager.Monitor.Tracker
/-!
# The acquisition intake

One AVID, its magnet candidates, its first offline task. Every source funnels
newly wanted AVIDs through here; a row that gets no magnet in is parked with a
timer.
-/

namespace EmbyxManager
open Atom AcquisitionRepository

/-- The readers of names, magnets, pages and links: functions of their text. -/
structure Readers where
  getAvid : String → Avid
  /-- The info hash of a magnet, none when it has none that can be tracked. -/
  extractInfoHash : String → Option InfoHash
  /-- The largest magnet in the table of a feed item's body. -/
  magnetFromHtml : String → Avid → Option String
  /-- The last path segment of an item's link. -/
  avidCandidateFromLink : Option String → String

inductive IntakeOutcome where
  | submitted | queued | alreadyTracked | noMagnet | submitFailed
  deriving DecidableEq

/-- What an intake is built with. -/
structure Intake where
  readers : Readers
  failedCooldown : Time
  releaseDateLookup : Bool
  /-- How many calls of `_submit_next`, one inside the other, the interpreter has room for when the first is made.
  Its limit counts the whole stack, so of the default of 1000 less is left. -/
  recursionLimit : Nat := 1000

/-- What CloudDrive made of one magnet. -/
inductive AddOutcome where
  | duplicate | failed | success
  deriving DecidableEq

namespace Intake

/-! ## Magnet resolution -/

/-- `MAX_CANDIDATES`. -/
def maxCandidates : Nat := 5

/-- `magnet.lower().startswith('magnet:')`. -/
def isMagnet (magnet : String) : Bool := "magnet:".toList <+: magnet.toList.map Char.toLower

/-- Add a magnet to the candidates, unless it cannot be tracked or is there already. -/
def collect (rd : Readers) (source : String) (candidates : List MagnetCandidate) (magnet : Option String)
    (sizeHint : Option Nat := none) : List MagnetCandidate :=
  match magnet with
  | none => candidates
  | some magnet =>
    if isMagnet magnet then
      match rd.extractInfoHash magnet with
      | none => candidates
      | some h =>
        if candidates.any (·.infoHash = some h) then candidates
        else candidates ++ [{ magnet, infoHash := some h, source, sizeHint }]
    else candidates

/-- The candidates, best first, of what the resolvers answered. -/
def ranked (rd : Readers) (sukebei itemMagnet : Option String) (javbus : List JavBusMagnet) : List MagnetCandidate :=
  let leading := collect rd "rss_item" (collect rd "sukebei" [] sukebei) itemMagnet
  (javbus.foldl (fun cs m => collect rd "javbus" cs (some m.magnet) (some m.sizeInt)) leading).take maxCandidates

/-- Every magnet worth trying for one AVID. JavBus failing leaves the others. -/
def resolve (i : Intake) (avid : Avid) (itemMagnet : Option String := none) : M (List MagnetCandidate) := do
  let sukebei ← ask (.sukebei avid)
  match ← (ask (.javbus avid)).attempt with
  | .ok magnets => pure (ranked i.readers sukebei itemMagnet magnets)
  | .error _ => pure (ranked i.readers sukebei itemMagnet [])

/-- `resolve`, where a failure counts as no candidates. -/
def resolveOrNone (i : Intake) (avid : Avid) (itemMagnet : Option String := none) : M (List MagnetCandidate) := do
  match ← (resolve i avid itemMagnet).attempt with
  | .ok candidates => pure candidates
  | .error _ => pure []

/-! ## CloudDrive offline tasks -/

/-- The failures `CLOUD_RETRY` asks again after. -/
def retried : Exn → Bool
  | .rpcError _ | .httpStatus _ | .fileNotFound | .failure _ => true
  | _ => false

/-- `_add_offline_with_retry`: so many tries, and the last failure is raised. -/
def addOffline (link taskDir : String) : Nat → M Bool
  | 0 => ask (.addOfflineFiles [link] taskDir)
  | n + 1 => do
    match ← (ask (.addOfflineFiles [link] taskDir)).attempt with
    | .ok success => pure success
    | .error e => if retried e then addOffline link taskDir n else .raise e

def addMagnet (link taskDir : String) : M AddOutcome := do
  match ← (addOffline link taskDir 2).attempt with
  | .ok true => pure .success
  | .ok false => pure .failed
  | .error (.rpcError details) => pure (if duplicateTask details then .duplicate else .failed)
  | .error _ => pure .failed

/-- The row of a submitted AVID belongs to the tracker now. -/
def markDownloading (avid : Avid) (at_ : Time) : M Unit := do
  match ← get avid with
  | none => pure ()
  | some record =>
    if record.state = .downloading then pure ()
    else discard (transition avid record.state .downloading at_)

/-- Submit this AVID's next untried magnet; false when none is left. -/
def submitNext (avid : Avid) (taskDir : String) : Nat → M Bool
  | 0 => .raise .recursionError
  | limit + 1 => do
    let at_ ← now
    match ← claimNextPending avid at_ with
    | none => pure false
    | some attempt => do
      match ← addMagnet attempt.magnet taskDir with
      | .failed => do
        discard (transitionAttempt avid attempt.attemptNo .submitted .error at_
          (some "failed to add the offline task"))
        submitNext avid taskDir limit
      | _ => do
        markDownloading avid at_
        pure true

/-- Record the candidates and submit the first; false when none went in. -/
def recordAndSubmit (i : Intake) (avid : Avid) (candidates : List MagnetCandidate) (taskDir : String) : M Bool := do
  let at_ ← now
  discard (addAttempts avid candidates at_)
  submitNext avid taskDir i.recursionLimit

/-! ## Parking -/

def repark (i : Intake) (record : AcquisitionRecord) (note : String) : M Unit := do
  let releaseDate ← ensureReleaseDate i.releaseDateLookup record
  let at_ ← now
  discard (transition record.avid record.state .resolveFailed at_ (some note)
    (some (Cadence.nextResolveAt at_ releaseDate i.failedCooldown)))

/-- Park an AVID with no usable magnet, from whatever parkable state it is in now. -/
def parkUnresolved (i : Intake) (avid : Avid) : M Unit := do
  match ← get avid with
  | none => pure ()
  | some record => if record.state ∈ AcquisitionState.parkable then repark i record "no magnet found" else pure ()

/-! ## One AVID -/

/-- The whole intake for one AVID. -/
def enqueue (i : Intake) (avid : Avid) (source taskDirPath : String) (itemMagnet : Option String := none)
    (releaseDate : Option Date := none) : M IntakeOutcome := do
  let at_ ← now
  if ← discover avid at_ { source, taskDirPath, releaseDate, wake := itemMagnet.isSome } then do
    let candidates ← resolveOrNone i avid itemMagnet
    if candidates = [] then do
      parkUnresolved i avid
      pure .noMagnet
    else if ← recordAndSubmit i avid candidates taskDirPath then pure .submitted
    else pure .submitFailed
  else pure .alreadyTracked

/-- Leave one AVID to the background pass, its timer already due. -/
def queue (avid : Avid) (source taskDirPath : String) (releaseDate : Option Date := none) : M IntakeOutcome := do
  let at_ ← now
  if ← discover avid at_ { source, taskDirPath, nextActionAt := at_, releaseDate } then pure .queued
  else pure .alreadyTracked

/-- One resolve-and-submit pass for a record picked off the action timer. -/
def retry (i : Intake) (record : AcquisitionRecord) (fallbackTaskDir : Option String) : M IntakeOutcome := do
  match (record.taskDirPath.filter (· ≠ "")).or fallbackTaskDir with
  | none => do
    repark i record "no offline directory configured"
    pure .submitFailed
  | some taskDir => do
    let candidates ← resolveOrNone i record.avid
    if candidates = [] then do
      repark i record "no magnet found"
      pure .noMagnet
    else if ← recordAndSubmit i record.avid candidates taskDir then pure .submitted
    else do
      repark i record "no magnet accepted"
      pure .submitFailed

/-- Re-resolve the acquisitions whose cooldown has expired. -/
def retryDue (i : Intake) (fallbackTaskDir : Option String) (limit : Nat := 50) : M Unit := do
  let at_ ← now
  let records ← dueForRetry at_ limit
  Prog.forEach records fun record => discard (retry i record fallbackTaskDir)

end Intake

end EmbyxManager
