import Mathlib.Data.List.Infix
import EmbyxManager.Monitor.Archive
import EmbyxManager.Monitor.Cadence
/-!
# The tracker

`AcquisitionTracker.poll` and everything it calls: the offline listings joined
to the ledger on the info hash, one step for each joined attempt, the sweep of
the attempts no listing holds, and the clear-up. Counters and log lines are left
out. The recursion of `_try_next` runs against the interpreter's limit.
-/

namespace EmbyxManager
open Atom AcquisitionRepository Archive

/-- What a tracker is built with. -/
structure Tracker where
  /-- The directories the offline tasks are queued under, default first. -/
  taskDirPaths : List String
  stallTimeoutHours : Int := 24
  maxAttempts : Nat := 5
  /-- How long CloudDrive is given to register a freshly submitted magnet. -/
  submitGraceSeconds : Int := 300
  /-- Stripped from a library path to give its API path; empty leaves replacements parked. -/
  libraryMountPrefix : String := ""
  archiver : Archiver
  /-- There is a catalog to ask for release dates. -/
  releaseDateLookup : Bool
  /-- The dashboard's submit has a client, and these directories to fall back to. -/
  cloudConfigured : Bool := true
  fallbackDirs : List String
  /-- How many calls of `_try_next`, one inside the other, the interpreter has room for when the first is made.
  Its limit counts the whole stack, so of the default of 1000 less is left. -/
  recursionLimit : Nat := 1000

/-- Tasks by info hash, each with the directory it was listed under, in the order of the listings. -/
abbrev Listing := List (InfoHash × OfflineTask × String)

/-! ## Submitting a magnet -/

/-- CloudDrive already has the task: the details say so. -/
def duplicateTask (details : String) : Bool := "任务已存在".toList <:+: details.toList

/-- `_submit_magnet_at_cloud`: queue a magnet under the directory pinned on its row. -/
def submitMagnet (cloudConfigured : Bool) (fallbackDirs : List String) (avid : Avid) (magnet : String) : M Bool :=
  if !cloudConfigured then pure false
  else do
    let record ← get avid
    match (record.bind (·.taskDirPath)).or fallbackDirs.head? with
    | none => pure false
    | some taskDir => do
      match ← (ask (.addOfflineFiles [magnet] taskDir)).attempt with
      | .ok success => pure success
      | .error (.rpcError details) => pure (duplicateTask details)
      | .error _ => pure false

namespace Tracker

/-! ## The listings -/

/-- The first directory listing a hash wins. -/
def listTask (taskDir : String) (byHash : Listing) (task : OfflineTask) : Listing :=
  if task.infoHash = "" ∨ task.infoHash ∈ byHash.map (·.1) then byHash
  else byHash ++ [(task.infoHash, task, taskDir)]

/-- One more directory's tasks. -/
def mergeTasks (byHash : Listing) (taskDir : String) (tasks : List OfflineTask) : Listing :=
  tasks.foldl (listTask taskDir) byHash

def listTasks (t : Tracker) : M Listing :=
  Prog.foldEach t.taskDirPaths [] fun byHash taskDir => do
    checkCancelled (.listing taskDir)
    let tasks ← ask (.listOfflineFiles taskDir)
    pure (mergeTasks byHash taskDir tasks)

/-! ## Falling through to the next magnet -/

def exhaust (t : Tracker) (avid : Avid) : M Unit := do
  match ← get avid with
  | none => pure ()
  | some record =>
    if record.state = .downloading then do
      let releaseDate ← ensureReleaseDate t.releaseDateLookup record
      let at_ ← now
      discard (transition avid .downloading .exhausted at_ (some "every magnet was tried")
        (some (Cadence.nextResolveAt at_ releaseDate (hours t.stallTimeoutHours))))
    else pure ()

/-- How many magnets were really submitted since the replacement, if any, began. -/
def tried (record : AcquisitionRecord) (attempts : List MagnetAttemptRecord) : Nat :=
  attempts.countP fun a => a.state ≠ .pending ∧ record.replaceAfterAttempt.getD 0 < a.attemptNo

/-- Submit this AVID's next magnet, or mark it out of options. -/
def tryNext (t : Tracker) (avid : Avid) : Nat → M Unit
  | 0 => .raise .recursionError
  | limit + 1 => do
    match ← get avid with
    | none => pure ()
    | some record =>
      if record.state ≠ .downloading then pure ()
      else do
        let attempts ← attemptsFor avid
        if t.maxAttempts ≤ tried record attempts then exhaust t avid
        else do
          let at_ ← now
          match ← claimNextPending avid at_ with
          | none => exhaust t avid
          | some claimed => do
            if ← submitMagnet t.cloudConfigured t.fallbackDirs avid claimed.magnet then pure ()
            else do
              discard (transitionAttempt avid claimed.attemptNo .submitted .error at_
                (some "failed to add the offline task"))
              tryNext t avid limit

/-- Conclude the attempt and move to the next magnet; true when this call did it. -/
def giveUp (t : Tracker) (attempt : MagnetAttemptRecord) (state : AttemptState) (reason : String) : M Bool := do
  let at_ ← now
  if ← transitionAttempt attempt.avid attempt.attemptNo attempt.state state at_ (some reason) then do
    tryNext t attempt.avid t.recursionLimit
    pure true
  else pure false

/-- Drop an abandoned offline task, as far as CloudDrive lets us. -/
def removeTask (infoHash : InfoHash) (taskDir : String) : M Unit :=
  discard (ask (.removeOfflineFiles [infoHash] taskDir true)).attempt

/-! ## Filing a claimed download -/

def pathParts (path : String) : List String :=
  ((path.toList.splitOn '/').map String.ofList).filter fun part => part ≠ "" ∧ part ≠ "."

/-- The CloudDrive API path of a file seen through the mount; none outside it. -/
def apiPath (path mountPrefix : String) : Option String :=
  let parts := pathParts path
  let above := pathParts mountPrefix
  if (path.toList.head? = some '/') = (mountPrefix.toList.head? = some '/') ∧ above <+: parts then
    some ("/" ++ String.intercalate "/" (parts.drop above.length))
  else none

/-- The first path outside the mount, or every API path. -/
def apiPaths (mountPrefix : String) : List String → Except String (List String)
  | [] => .ok []
  | path :: paths =>
    match apiPath path mountPrefix with
    | none => .error path
    | some api => (apiPaths mountPrefix paths).map (api :: ·)

def parentDir (path : String) : String := "/" ++ String.intercalate "/" (pathParts path).dropLast

/-- Which of these files CloudDrive lists, from one fresh listing per directory. -/
def cloudListed (paths : List String) : M (List String) := do
  let listed ← Prog.foldEach ((paths.map parentDir).dedup.insertionSort (· ≤ ·)) [] fun listed directory => do
    match ← (ask (.listDirectory directory)).attempt with
    | .ok entries => pure (listed ++ (entries.filter fun e => !e.isDirectory).map (·.fullPath))
    | .error .fileNotFound => pure listed
    | .error e => .raise e
  pure (paths.filter (· ∈ listed))

/-- Delete the copy a replacement replaces; none once the library no longer shows it. -/
def removeReplaced (t : Tracker) (avid : Avid) (replacing : List String) : M (Option ArchiveResult) :=
  let problem (outcome : Outcome) (reason : String) : Option ArchiveResult := some { outcome, avid, reason }
  if t.libraryMountPrefix = "" then
    pure (problem .needsAttention "a replacement needs merge.cloud_mount_prefix to delete the old copy")
  else do
    let present ← ask (.replacedCopies avid replacing)
    if present = [] then pure none
    else
      match apiPaths t.libraryMountPrefix present with
      | .error path =>
        pure (problem .needsAttention (path ++ " is outside the CloudDrive mount " ++ t.libraryMountPrefix))
      | .ok paths => do
        let listed ← cloudListed paths
        runIf (listed ≠ []) (ask (.deleteFiles listed))
        -- reading each directory again makes the mount drop the deleted files
        discard (cloudListed paths)
        let left ← ask (.replacedCopies avid replacing)
        if left = [] then pure none
        else pure (problem .failed "the replaced copy is still on the mount; filing on the next poll")

/-- Archive a claimed download, clearing the copy it replaces out of the way first. -/
def file (t : Tracker) (attempt : MagnetAttemptRecord) (folder : Folder) (route : TrackerRoute) : M ArchiveResult := do
  let record ← get attempt.avid
  let replacing := (record.map (·.replacePaths)).getD []
  if replacing = [] then archiveFolder t.archiver folder route.dst route.priority attempt.avid
  else do
    match ← inspectFolder t.archiver folder attempt.avid with
    | .error result => pure result
    | .ok selection => do
      match ← (removeReplaced t attempt.avid replacing).attempt with
      | .error e => pure { outcome := .failed, avid := attempt.avid, reason := e.str }
      | .ok (some problem) => pure problem
      | .ok none => fileSelection folder selection route.dst route.priority

def settle (t : Tracker) (attempt : MagnetAttemptRecord) (result : ArchiveResult) : M Unit := do
  let at_ ← now
  match result.outcome with
  | .archived => do
    discard (transitionAttempt attempt.avid attempt.attemptNo .archiving .archived at_)
    discard (transition attempt.avid .downloading .archived at_ none none (some result.archivedPaths))
  | .junk => do
    discard (transitionAttempt attempt.avid attempt.attemptNo .archiving .junk at_)
    tryNext t attempt.avid t.recursionLimit
  | outcome => do
    -- release the claim, and park the AVID when a human has to look at it
    discard (transitionAttempt attempt.avid attempt.attemptNo .archiving .finished at_)
    runIf (outcome = .needsAttention)
      (discard (transition attempt.avid .downloading .needsAttention at_ (some result.reason)))

/-- Have CloudDrive read the finished task's directory again. -/
def refreshMount (task : OfflineTask) (taskDir : String) : M Unit :=
  discard (do
    discard (ask (.listDirectory taskDir))
    ask (.listDirectory (taskDir ++ "/" ++ task.name))).attempt

/-- The two compare-and-sets that take a finished attempt. -/
def claimFinished (attempt : MagnetAttemptRecord) (at_ : Time) : M Bool :=
  if attempt.state = .finished then transitionAttempt attempt.avid attempt.attemptNo .finished .archiving at_
  else do
    if ← transitionAttempt attempt.avid attempt.attemptNo attempt.state .finished at_ then
      transitionAttempt attempt.avid attempt.attemptNo .finished .archiving at_
    else pure false

def archiveFinished (t : Tracker) (attempt : MagnetAttemptRecord) (task : OfflineTask) (taskDir : String) :
    M Unit := do
  let at_ ← now
  match ← get attempt.avid with
  | none => pure ()
  | some record =>
    if record.state ≠ .downloading then pure ()
    else do
      if ← claimFinished attempt at_ then do
        refreshMount task taskDir
        match ← ask (.locate task.name attempt.avid) with
        | none => do
          -- the mount may simply not show the folder yet
          let released ← now
          discard (transitionAttempt attempt.avid attempt.attemptNo .archiving .finished released)
        | some (folder, route) => do
          let result ← file t attempt folder route
          settle t attempt result
          runIf (result.outcome = .junk) (removeTask task.infoHash taskDir)
      else pure ()

/-! ## One attempt -/

/-- `f'{q:.0f}'`: halves go to the even neighbour. -/
def roundHalfEven (q : Rat) : Int :=
  let low := q.floor
  if q - low < 1 / 2 then low
  else if 1 / 2 < q - low then low + 1
  else if low % 2 = 0 then low else low + 1

def stallReason (stalledFor : Time) (progress : Option Rat) : String :=
  "no progress for " ++ toString (stalledFor / days 1) ++ "d at " ++ toString (roundHalfEven (progress.getD 0)) ++ "%"

def refreshProgress (t : Tracker) (attempt : MagnetAttemptRecord) (task : OfflineTask) (taskDir : String) :
    M Unit := do
  let at_ ← now
  if ← recordProgress attempt.avid attempt.attemptNo .downloading (some task.progress) at_ then pure ()
  else
    -- nothing was written, so `updatedAt` still marks the last real progress
    let stalledFor := at_ - attempt.updatedAt
    if hours t.stallTimeoutHours ≤ stalledFor then do
      let gaveUp ← giveUp t attempt .stalled (stallReason stalledFor attempt.progress)
      runIf gaveUp (removeTask task.infoHash taskDir)
    else pure ()

def advance (t : Tracker) (attempt : MagnetAttemptRecord) (task : OfflineTask) (taskDir : String) : M Unit :=
  match task.status with
  | .finished => archiveFinished t attempt task taskDir
  | .error => do
    let gaveUp ← giveUp t attempt .error "CloudDrive reported the download failed"
    runIf gaveUp (removeTask task.infoHash taskDir)
  | _ => if attempt.state ∈ AttemptState.inFlight then refreshProgress t attempt task taskDir else pure ()

/-- One joined attempt: a look at the stop token, and its step. -/
def consider (t : Tracker) (byHash : Listing) (joined : InfoHash × MagnetAttemptRecord) : M Unit :=
  match byHash.lookup joined.1 with
  | some (task, taskDir) => do
    checkCancelled (.advance joined.2 task)
    advance t joined.2 task taskDir
  | none => .raise (.failure "KeyError")

/-! ## Tasks that vanished -/

def archiveOrphaned (t : Tracker) (attempt : MagnetAttemptRecord) (folder : Folder) (route : TrackerRoute) :
    M Unit := do
  let at_ ← now
  if ← transitionAttempt attempt.avid attempt.attemptNo attempt.state .finished at_ then do
    if ← transitionAttempt attempt.avid attempt.attemptNo .finished .archiving at_ then do
      let result ← file t attempt folder route
      settle t attempt result
    else pure ()
  else pure ()

/-- The attempt was submitted too recently for its absence to mean anything. -/
def inGrace (t : Tracker) (attempt : MagnetAttemptRecord) (at_ : Time) : Bool :=
  attempt.submittedAt.any fun s => at_ - s < seconds t.submitGraceSeconds

/-- Some listing of this poll holds the attempt, or nothing could be looked for. -/
def listed (byHash : Listing) (attempt : MagnetAttemptRecord) : Bool :=
  attempt.infoHash.all (· ∈ byHash.map (·.1))

def sweepOne (t : Tracker) (byHash : Listing) (at_ : Time) (attempt : MagnetAttemptRecord) : M Unit := do
  checkCancelled (.sweep attempt)
  if listed byHash attempt then pure ()
  else if inGrace t attempt at_ then pure ()
  else do
    match ← ask (.findFolderFor attempt.avid) with
    | some (folder, route) => archiveOrphaned t attempt folder route
    | none => discard (giveUp t attempt .lost "CloudDrive no longer lists this task")

/-- The attempts in flight that CloudDrive no longer lists. -/
def sweepLost (t : Tracker) (byHash : Listing) : M Unit := do
  let at_ ← now
  let attempts ← inFlightAttempts
  Prog.forEach attempts (sweepOne t byHash at_)

/-! ## The poll -/

/-- `CLEAR_BATCH`. -/
def clearBatch : Nat := 100

/-- Hashes by directory, the directories in the order they are first met. -/
def groupByDir (dirOf : InfoHash → Option String) (groups : List (String × List InfoHash)) (h : InfoHash) :
    List (String × List InfoHash) :=
  match dirOf h with
  | none => groups
  | some dir =>
    if dir ∈ groups.map (·.1) then groups.map fun g => if g.1 = dir then (g.1, g.2 ++ [h]) else g
    else groups ++ [(dir, [h])]

/-- Drop the finished tasks whose attempt archived, keeping their files. -/
def clearArchived (byHash : Listing) : M Unit := do
  let finished := byHash.filter fun entry => entry.2.1.status = .finished
  let archived ← archivedInfoHashes (finished.map (·.1))
  let byDir := (archived.insertionSort (· ≤ ·)).foldl (groupByDir fun h => (finished.lookup h).map (·.2)) []
  Prog.forEach byDir fun (taskDir, hashes) =>
    Prog.forEach (hashes.toChunks clearBatch) fun batch =>
      discard (ask (.removeOfflineFiles batch taskDir false)).attempt

/-- One pass over the offline task lists of every configured directory. -/
def poll (t : Tracker) : M Unit :=
  -- no directory to read is no evidence either way
  if t.taskDirPaths = [] then pure ()
  else do
    let byHash ← listTasks t
    let attempts ← attemptsByInfoHash (byHash.map (·.1))
    Prog.forEach attempts (consider t byHash)
    sweepLost t byHash
    clearArchived byHash

end Tracker

end EmbyxManager
