import Mathlib
import EmbyxManager.Merge.Detect
/-!
# Merging titles one after another

The automatic merger, which polls every minute and queues the next title when nothing else is
under way. A round reads the task table, the last scan of the mapping tree and CloudDrive's
listings through actions, and keeps what it remembers between rounds in a memory of its own.
-/

namespace EmbyxManager.Merge.Auto

open Atom Config

inductive AutoState where
  | off
  /-- Merging cannot run in this deployment, or the library is not configured. -/
  | unavailable
  /-- A task is under way. -/
  | busy
  /-- A task failed, and nothing more is queued until it is retried or removed. -/
  | paused
  /-- Nothing left that fits. -/
  | idle
  deriving DecidableEq

structure SkippedTitle where
  avid : String
  size : Option Int
  reason : String
  deriving DecidableEq

structure AutoStatus where
  state : AutoState
  room : Option Int := none
  /-- The first titles skipped in the last round. -/
  skipped : List SkippedTitle := []
  skippedCount : Nat := 0
  checkedAt : Option Time := none

/-- What the automatic merger reads of `merge`. -/
structure AutoConfig where
  autoEnabled : Bool
  autoPauseOnFailure : Bool
  autoIncludeStackable : Bool
  freeSpaceReserveGib : Int
  workDir : String
  cloudMountPrefix : Path

/-- What it reads of `archive`. -/
structure ArchiveDirs where
  dstDir : String
  catalog : Catalog

/-- What it remembers between rounds. -/
structure Memory where
  /-- The total of each title's parts, which never changes. -/
  sizes : List (List String × Int) := []
  /-- Titles refused for a reason only a new scan can change, and the scan they came from. -/
  refused : List (String × SkippedTitle) := []
  refusedScan : Option Time := none
  status : AutoStatus := { state := .off }

/-! ## Actions -/

inductive Op where
  | mergeConfig
  | archive
  /-- `mapping.dst_dir`. -/
  | mapping
  /-- Whether the service is unavailable. -/
  | unavailable
  /-- Whether there is a CloudDrive client. -/
  | cloud
  | now
  | openTasks
  | cancelledAvids
  | mergedAvids
  | lastDoneAt
  /-- `TitleScanCache.titles`. -/
  | titles (root libraryRoot : String) (refresh : Bool)
  /-- `scan_multipart` of one directory below the root. -/
  | scan (root directory libraryRoot : String)
  | freeSpace (path : String)
  | listDirectory (dir : Path) (forceRefresh : Bool)
  | wake
  | memory
  | remember (memory : Memory)
  | enqueue (op : EnqueueOp)

def Res : Op → Type
  | .mergeConfig => AutoConfig
  | .archive => ArchiveDirs
  | .mapping => String
  | .unavailable | .cloud => Bool
  | .now => Time
  | .openTasks => List MergeTask
  | .cancelledAvids | .mergedAvids => List String
  | .lastDoneAt => Option Time
  | .titles .. => List MultipartTitle × Time
  | .scan .. => List MultipartTitle
  | .freeSpace _ => Int
  | .listDirectory .. => List CloudFile
  | .memory => Memory
  | .enqueue op => EnqueueRes op
  | .wake | .remember _ => Unit

abbrev M := Prog Res EnqueueExc

def ask (op : Op) : M (Res op) := Prog.call op

def now : M Time := ask .now

def archive : M ArchiveDirs := ask .archive

def mapping : M String := ask .mapping

def memory : M Memory := ask .memory

def remember (memory : Memory) : M Unit := ask (.remember memory)

/-- `self._status = ...`. -/
def setStatus (status : AutoStatus) : M Unit := do
  let m ← memory
  remember { m with status }

/-! ## Titles -/

def rescanInterval : Time := hours 24

def scannedTitles (root libraryRoot : String) (refresh : Bool) : M (List MultipartTitle × Time) :=
  ask (.titles root libraryRoot refresh)

/-- `_titles`: the last scan, scanned again when a title was filed since or it has grown old. -/
def titles : M (Option (List MultipartTitle × Time)) := do
  let dirs ← archive
  let root ← mapping
  if root = "" ∨ dirs.dstDir = "" then pure none
  else
    let scanned ← scannedTitles root dirs.dstDir false
    let lastDone : Option Time ← ask .lastDoneAt
    let time ← now
    if time - scanned.2 > rescanInterval ∨ (lastDone.any (· > scanned.2)) = true then do
      let again ← scannedTitles root dirs.dstDir true
      pure (some again)
    else pure (some scanned)

/-- `_scan`. -/
def scan (refresh : Bool) : M (Option (List MultipartTitle × Time)) := do
  let dirs ← archive
  let root ← mapping
  if root = "" ∨ dirs.dstDir = "" then pure none
  else do
    let scanned ← scannedTitles root dirs.dstDir refresh
    pure (some scanned)

section names
variable (py : Casing)

def titleNamed (wanted : String) (titles : List MultipartTitle) : Option MultipartTitle :=
  titles.find? fun title => py.upper title.avid = wanted

/-- The title's directory, scanned again. -/
def rescanned (wanted : String) (found : MultipartTitle) : M (Option MultipartTitle) := do
  let root ← mapping
  let dirs ← archive
  let again ← ask (.scan root found.directory dirs.dstDir)
  pure (titleNamed py wanted again)

/-- `current_title`: the title as its directory holds it now, found through the last scan. -/
def currentTitle (avid : String) : M (Option MultipartTitle) := do
  let wanted := py.upper (strip avid)
  match ← scan false with
  | none => pure none
  | some first =>
    match titleNamed py wanted first.1 with
    | some found => rescanned py wanted found
    | none =>
      match ← scan true with
      | none => pure none
      | some second =>
        match titleNamed py wanted second.1 with
        | some found => rescanned py wanted found
        | none => pure none

/-- `whole_copies`. -/
def wholeCopies (avid : String) (names : List String) : List String :=
  names.filter fun name =>
    videoSuffixes.contains (py.lower (String.ofList (suffix name))) && isWholeCopy py (String.ofList (stem name)) avid

def maxStackedParts : Nat := 9

/-- `_eligible`. -/
def eligible (title : MultipartTitle) (config : AutoConfig) (settled : List String) : Bool :=
  if !title.complete || settled.contains title.avid then false
  else config.autoIncludeStackable || decide (title.partCount > maxStackedParts)

/-! ## What CloudDrive lists -/

def targets (title : MultipartTitle) : List String := title.parts.map (·.target)

/-- Each part's file name. -/
def partNames (title : MultipartTitle) : List String :=
  title.parts.map fun part => (PosixPath.of part.target).names.getLastD ""

/-- The directory of the first part, as CloudDrive addresses it. -/
def partsApiDir (config : AutoConfig) (title : MultipartTitle) : Except Exc Path :=
  apiPath (PosixPath.of ((targets title).headD "")).names.dropLast config.cloudMountPrefix

/-- A listing of the parts' directory; none when it fails. -/
def listParts (config : AutoConfig) (title : MultipartTitle) (forceRefresh : Bool) : M (Option (List CloudFile)) :=
  match partsApiDir config title with
  | .error _ => pure none
  | .ok dir => do
    match ← (ask (.listDirectory dir forceRefresh)).attempt with
    | .error _ => pure none
    | .ok listing => pure (some (listing.filter (!·.isDirectory)))

/-- Each part's size; a name that is listed twice has the later one. -/
def partSizes (title : MultipartTitle) (files : List CloudFile) : Option (List Int) :=
  (partNames title).mapM fun name => (files.reverse.find? (·.name = name)).map (·.size)

/-- `_size`: the parts' total size, or why it is unknown. -/
def titleSize (config : AutoConfig) (title : MultipartTitle) : M (Option Int × Option String) := do
  let m ← memory
  match m.sizes.lookup (targets title) with
  | some size => pure (some size, none)
  | none =>
    if !(← ask .cloud) then pure (none, some "size_unknown")
    else
      match ← listParts config title false with
      | none => pure (none, some "size_unknown")
      | some files =>
        match partSizes title files with
        | none => pure (none, some "parts_missing")
        | some sizes => do
          remember { m with sizes := (targets title, sizes.sum) :: m.sizes }
          pure (some sizes.sum, none)

/-- `WHOLE_COPY`. -/
def wholeCopyReason : String := "whole_copy"

/-- `_unlisted`: why CloudDrive, asked afresh, does not list every part alone. -/
def unlisted (config : AutoConfig) (title : MultipartTitle) : M (Option String) := do
  if !(← ask .cloud) then pure (some "size_unknown")
  else
    match ← listParts config title true with
    | none => pure (some "size_unknown")
    | some files =>
      let names := files.map (·.name)
      if !(partNames title).all names.contains then pure (some "parts_missing")
      else pure (if wholeCopies py title.avid names = [] then none else some wholeCopyReason)

/-! ## Rounds -/

/-- `_blocked`: why no title may be queued now. -/
def blocked (config : AutoConfig) (openTasks : List MergeTask) : M (Option AutoState) := do
  if !config.autoEnabled then pure (some .off)
  else
    let unavailable : Bool ← ask .unavailable
    let failed := openTasks.filter (·.state = .failed)
    if unavailable then pure (some .unavailable)
    else if failed ≠ [] ∧ config.autoPauseOnFailure = true then pure (some .paused)
    else pure (if openTasks.length > failed.length then some .busy else none)

def enqueueing {α : Type} (p : Enqueueing α) : M α := p.handle fun op => Prog.call (Op.enqueue op)

/-- `enqueue(...)` of the title as it is now; an AVID no request may carry is refused by the request's model. -/
def enqueueTitle (avid : String) : M MergeTask := do
  let dirs ← archive
  let current ← currentTitle py avid
  if avid.length = 0 ∨ avid.length > 64 then .raise (.outside "ValidationError")
  else enqueueing (enqueue dirs.catalog (current.map (·.toTitle)) none)

/-- Remember a refusal until the next scan. -/
def refuse (refused : SkippedTitle) : M Unit := do
  let m ← memory
  remember { m with refused := (refused.avid, refused) :: m.refused }

def forgetSize (title : MultipartTitle) : M Unit := do
  let m ← memory
  remember { m with sizes := m.sizes.filter (·.1 ≠ targets title) }

/-- The title fits and CloudDrive lists its parts: queue it, or note why not. -/
def tryEnqueue (title : MultipartTitle) (size : Int) (skipped : List SkippedTitle) : M (Bool × List SkippedTitle) := do
  match ← (enqueueTitle py title.avid).attempt with
  | .ok _ => do
    ask .wake
    pure (true, skipped)
  | .error (.api _ code) => do
    let refused : SkippedTitle := ⟨title.avid, some size, code⟩
    refuse refused
    pure (false, skipped ++ [refused])
  | .error e => .raise e

/-- `_try_queue`: whether the title was queued, and the titles skipped so far. -/
def tryQueue (title : MultipartTitle) (config : AutoConfig) (room : Int) (skipped : List SkippedTitle) :
    M (Bool × List SkippedTitle) := do
  let m ← memory
  match m.refused.lookup title.avid with
  | some refused => pure (false, skipped ++ [refused])
  | none =>
    match ← titleSize config title with
    | (none, reason) => pure (false, skipped ++ [⟨title.avid, none, reason.getD "too_big"⟩])
    | (some size, reason) =>
      if size > room then pure (false, skipped ++ [⟨title.avid, some size, reason.getD "too_big"⟩])
      else
        match ← unlisted py config title with
        | some reason => do
          forgetSize title
          let refused : SkippedTitle := ⟨title.avid, none, reason⟩
          if reason = wholeCopyReason then refuse refused
          pure (false, skipped ++ [refused])
        | none => tryEnqueue py title size skipped

def skippedShown : Nat := 20

/-- `_report`. -/
def report (state : AutoState) (room : Int) (skipped : List SkippedTitle) : M Unit := do
  let checkedAt ← now
  setStatus {
    state, room := some (max room 0), skipped := skipped.take skippedShown, skippedCount := skipped.length
    checkedAt := some checkedAt }

/-- The titles one after another, until one is queued. -/
def consider (config : AutoConfig) (room : Int) (settled failed : List String) :
    List MultipartTitle → List SkippedTitle → M Unit
  | [], skipped => report .idle room skipped
  | title :: rest, skipped =>
    if !eligible title config settled then consider config room settled failed rest skipped
    else if failed.contains title.avid then
      consider config room settled failed rest (skipped ++ [⟨title.avid, none, "failed"⟩])
    else do
      let tried ← tryQueue py title config room skipped
      if tried.1 then report .busy room tried.2
      else consider config room settled failed rest tried.2

def gib : Int := 1073741824

/-- A refusal lasts as long as the scan it came from. -/
def forgetRefused (scannedAt : Time) : M Unit := do
  let m ← memory
  if some scannedAt ≠ m.refusedScan then remember { m with refused := [], refusedScan := some scannedAt }

/-- The titles a round may take, once nothing is under way. -/
def queueNext (config : AutoConfig) (openTasks : List MergeTask) (scanned : List MultipartTitle × Time) : M Unit := do
  forgetRefused scanned.2
  let free : Int ← ask (.freeSpace config.workDir)
  let room := free - config.freeSpaceReserveGib * gib
  let cancelled : List String ← ask .cancelledAvids
  let merged : List String ← ask .mergedAvids
  let failed := (openTasks.filter (·.state = .failed)).map (·.avid)
  consider py config room (cancelled ++ merged) failed scanned.1 []

/-- `step`: queue the next title that fits, when nothing else is under way. -/
def step : M Unit := do
  let config : AutoConfig ← ask .mergeConfig
  let openTasks : List MergeTask ← ask .openTasks
  match ← blocked config openTasks with
  | some state => setStatus { state }
  | none =>
    match ← titles with
    | none => setStatus { state := .unavailable }
    | some scanned => queueNext py config openTasks scanned

end names

end EmbyxManager.Merge.Auto
