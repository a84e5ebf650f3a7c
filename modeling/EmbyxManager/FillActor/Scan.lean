import EmbyxManager.Core.Avid
import EmbyxManager.FillActor.CloudMoves
import EmbyxManager.FillActor.LocalMoves
/-!
# Scanning actors into a plan

`create_plan`: the actors' videos are listed, each is looked for in the library and in the
additional roots, what is found there becomes a move candidate, and what is missing is
handed to the tracker. The settings are read through a callable, and each read is an action
of its own, so that a configuration can be saved between any two of them. The catalog, the
file system, CloudDrive and the repository are actions too, and so is the hand-over of the
missing videos as a whole.
-/

namespace EmbyxManager.FillActor.Scan

open Atom Atom.Regex Parts
open Local (pathName startsWith)

/-! ## Settings -/

structure FillActorPaths where
  actorBrandPath : String
  additionalBrandPaths : List String
  moveInPath : String

/-- `CloudMovePaths`; `source_api_roots` stand beside the additional roots. -/
structure CloudMovePaths where
  strmMountPrefix : String
  sourceApiRoots : List String
  moveInApiRoot : String

/-- The settings a scan reads, with the version they were saved as. -/
structure FillActorRuntime where
  version : Nat
  paths : Option FillActorPaths
  moveInByBrand : Bool
  cloudMovePaths : Option CloudMovePaths

/-! ## What is raised -/

inductive Exc where
  | notConfigured
  | invalidActorId (actorId : String)
  | tooManyActors (count : Nat)
  | tooManyVideos (count : Nat)
  | legacyPlan
  /-- `InvalidStrmTargetError`, a `ValueError`. -/
  | invalidStrmTarget (text : String)
  | value (text : String)
  | fileNotFound
  | os (text : String)
  /-- `AttributeError`, `IndexError`, `RuntimeError` and whatever else. -/
  | other (text : String)
  deriving DecidableEq

/-! ## The plan -/

inductive VideoState where
  | exists_ | additionalFound | magnetFound | queued | submitted | alreadyTracked | submitFailed | missing | invalidVideoId | scanFailed
  deriving DecidableEq

inductive AcquisitionOutcome where
  | queued | submitted | alreadyTracked | noMagnet | submitFailed | cloudNotConfigured | taskDirNotConfigured
  deriving DecidableEq

/-- `_OUTCOME_STATES`. -/
def AcquisitionOutcome.state : AcquisitionOutcome → VideoState
  | queued => .queued
  | submitted => .submitted
  | alreadyTracked => .alreadyTracked
  | noMagnet => .missing
  | submitFailed | cloudNotConfigured | taskDirNotConfigured => .submitFailed

/-- `_OUTCOME_WARNINGS`. -/
def AcquisitionOutcome.warning : AcquisitionOutcome → Option String
  | submitFailed => some "submit_failed"
  | cloudNotConfigured => some "cloud_not_configured"
  | taskDirNotConfigured => some "task_dir_not_configured"
  | _ => none

/-- A date, by its day. -/
abbrev Date := Int

structure ActorPlan where
  actorId : String
  scrapedCount : Nat
  videoIds : List String := []
  errorCode : Option String := none
  actorName : Option String := none
  talentId : Option Int := none
  aliases : List String := []
  errorMessage : Option String := none

structure MoveCandidate where
  candidateId : String
  videoId : String
  fileName : String
  sourceLabel : String
  destinationConflict : Bool

structure VideoPlan where
  videoId : String
  actorIds : List String
  state : VideoState
  releaseDate : Option Date := none
  existingFiles : List String := []
  moveCandidates : List MoveCandidate := []
  warnings : List String := []

structure Plan where
  planId : String
  revision : String
  createdAt : Time
  expiresAt : Time
  actors : List ActorPlan
  videos : List VideoPlan

structure CatalogListing where
  actorName : Option String
  talentId : Option Int
  aliases : List String
  videoIds : List String
  releaseDates : List (String × Date)

structure JobProgressEvent where
  stage : JobStage
  completed : Nat
  total : Option Nat
  unit : JobProgressUnit
  current : Option String := none

/-- A mapping file as it is read. -/
structure Payload where
  size : Nat
  hasNul : Bool
  sha256 : String
  digest : sha256.length = 64
  /-- The text, when it is UTF-8, by `str.splitlines`. -/
  lines : Option (List String)

/-- What a missing video's hand-over came to, with the row's warning. -/
abbrev Submitted := String × AcquisitionOutcome × Option String

/-! ## Actions -/

inductive Op where
  /-- `self._runtime()`. -/
  | runtime
  /-- The event that stops a scan in its thread. -/
  | stopRequested
  | progress (event : JobProgressEvent)
  | resolveBrand (videoId : String)
  | isDir (path : String)
  | isSymlink (path : String)
  | isFile (path : String)
  | hasSymlinkComponent (path root : String)
  | isWithin (path root : String)
  | iterdir (dir : String)
  | fingerprint (path : String)
  | pathExists (path : String)
  | readBytes (path : String)
  | token
  | now
  /-- The directory cache of the scan. -/
  | cached (directory : String)
  | keep (directory : String) (listing : Option (List CloudFileMetadata))
  | listDirectory (directory : String)
  | queueMissing (videoIds : List String) (releaseDates : List (String × Date))

def Res : Op → Type
  | .runtime => FillActorRuntime
  | .stopRequested | .isDir _ | .isSymlink _ | .isFile _ | .hasSymlinkComponent .. | .isWithin .. | .pathExists _ => Bool
  | .resolveBrand _ => Option String
  | .iterdir _ => List String
  | .fingerprint _ => FileFingerprint
  | .readBytes _ => Payload
  | .token => String
  | .now => Time
  | .cached _ => Option (Option (List CloudFileMetadata))
  | .listDirectory _ => List CloudFileMetadata
  | .queueMissing .. => List Submitted
  | .progress _ | .keep .. => Unit

abbrev M := Prog Res Exc

def ask (op : Op) : M (Res op) := Prog.call op

def runtime : M FillActorRuntime := ask .runtime

def now : M Time := ask .now

def stopRequested : M Bool := ask .stopRequested

def isDir (path : String) : M Bool := ask (.isDir path)

def isSymlink (path : String) : M Bool := ask (.isSymlink path)

def isFile (path : String) : M Bool := ask (.isFile path)

def hasSymlinkComponent (path root : String) : M Bool := ask (.hasSymlinkComponent path root)

def isWithin (path root : String) : M Bool := ask (.isWithin path root)

def report (event : JobProgressEvent) : M Unit := ask (.progress event)

def orRaise {α : Type} (e : Exc) : Option α → M α
  | some a => pure a
  | none => .raise e

/-- `self._paths`. -/
def paths : M FillActorPaths := do
  let rt ← runtime
  orRaise .notConfigured rt.paths

/-- An attribute of `self._cloud_move_paths`, which None does not have. -/
def cloudMovePaths : M CloudMovePaths := do
  let rt ← runtime
  orRaise (.other "AttributeError") rt.cloudMovePaths

/-- `self._paths.additional_brand_paths[index]`. -/
def additionalBrandPath (index : Nat) : M String := do
  let ps ← paths
  orRaise (.other "IndexError") ps.additionalBrandPaths[index]?

/-! ## Names -/

/-- What a scan leaves to the language and to the parser of IDs. -/
structure Names where
  /-- `_VIDEO_ID_PARSER.get_avid`. -/
  getAvid : List Char → List Char
  /-- `str.upper`. -/
  upper : List Char → List Char
  /-- `str.casefold`. -/
  casefold : String → String

/-- `DATED_VIDEO_ID_RE`. -/
def datedVideoIdRe : Regex :=
  .all [.start, .group 1 (plus (.one notLineFeed)), .one (· = '_'), Regex.times 4 (.one isDecimal), .one (· = '-'),
    Regex.times 2 (.one isDecimal), .one (· = '-'), Regex.times 2 (.one isDecimal), .finish]

/-- `_normalize_video_id`. -/
def normalizeVideoId (names : Names) (videoId : String) : String :=
  let cleaned := Core.strip videoId.toList
  let cleaned := match datedVideoIdRe.matchStart cleaned with
    | some found => (found.group 1).getD []
    | none => cleaned
  match names.getAvid cleaned with
  | [] => String.ofList (names.upper cleaned)
  | avid => String.ofList avid

/-- `^{id}(?:-cd\d{1,2})?\..+` under `IGNORECASE`. -/
def videoFileRe (videoId : String) : Regex :=
  .all [Regex.text (fun c x => ignoreCase x = ignoreCase c) videoId.toList, opt (.seq (word "-cd") twoDigits), .one (· = '.'),
    plus (.one notLineFeed)]

/-- `pattern.fullmatch(name)`. -/
def matchesVideoFileName (name videoId : String) : Bool :=
  (Regex.matchStart (.all [videoFileRe videoId, .aheadNot (.one fun _ => true)]) name.toList).isSome

/-- `ACTOR_REF_RE.fullmatch`. -/
def actorRef (actorId : String) : Bool :=
  0 < actorId.length && actorId.length ≤ 64 && actorId.toList.all fun c => ' ' ≤ c && c ≠ '/' && c ≠ '\\'

/-- `_validate_actor_ids`. -/
def validateActorIds (maxActors : Nat) (actorIds : List String) : Except Exc (List String) :=
  let normalized := (actorIds.map fun actorId => String.ofList (Core.strip actorId.toList)).eraseDups
  if normalized = [] then .error (.invalidActorId "")
  else if normalized.length > maxActors then .error (.tooManyActors normalized.length)
  else match normalized.find? fun actorId => !actorRef actorId with
    | some actorId => .error (.invalidActorId actorId)
    | none => .ok normalized

/-- `sorted(set(...))`. -/
def sortedSet (xs : List String) : List String := xs.dedup.insertionSort (· ≤ ·)

/-! ## Paths at CloudDrive -/

def posixParts (value : List Char) : List (List Char) := (value.splitOn '/').filter fun part => part ≠ [] ∧ part ≠ ['.']

/-- `str(PurePosixPath(value))`; two slashes at the start are kept, and no other number of them. -/
def posixText (value : List Char) : List Char :=
  let body := ['/'].intercalate (posixParts value)
  match value with
  | '/' :: '/' :: '/' :: _ => '/' :: body
  | '/' :: '/' :: _ => '/' :: '/' :: body
  | '/' :: _ => '/' :: body
  | _ => if body = [] then ['.'] else body

/-- `_absolute_cloud_path`. -/
def absoluteCloudPath (value : String) : Option String :=
  let cs := value.toList
  if cs = [] ∨ cs.contains (Char.ofNat 0) ∨ Core.inText "://".toList cs ∨ cs.contains '\\' then none
  else if cs.head? ≠ some '/' ∨ ['.', '.'] ∈ posixParts cs ∨ posixText cs ≠ (cs.reverse.dropWhile (· = '/')).reverse then none
  else some (String.ofList (posixText cs))

/-- `PurePosixPath(path).relative_to(root)`, both normalized and absolute. -/
def relativeTo (path root : String) : Option String :=
  if path = root then some ""
  else if startsWith path (pathJoin root "") then some (String.ofList (path.toList.drop (pathJoin root "").length))
  else none

/-- What a mapping names. -/
structure ParsedStrmTarget where
  mappingSha256 : String
  apiPath : String
  digest : mappingSha256.length = 64

def maxStrmBytes : Nat := 4096

/-- `VIDEO_SUFFIXES`. -/
def videoSuffixes : List String := [".mp4", ".mkv", ".avi", ".wmv", ".mov", ".flv", ".m4v", ".ts", ".rmvb"]

/-- `path.suffix.casefold()`. -/
def foldedSuffix (names : Names) (path : String) : String := names.casefold (String.ofList (suffix (pathName path)))

def strmTarget (names : Names) (cloud : CloudMovePaths) (root : String) (payload : Payload) : Except Exc ParsedStrmTarget :=
  if payload.size = 0 ∨ payload.size > maxStrmBytes ∨ payload.hasNul then .error (.invalidStrmTarget "STRM mapping size is invalid")
  else match payload.lines with
    | none => .error (.invalidStrmTarget "STRM mapping must be UTF-8")
    | some [line] =>
      if line = "" ∨ line.toList ≠ Core.strip line.toList then
        .error (.invalidStrmTarget "STRM mapping must contain one absolute path")
      else match absoluteCloudPath line with
        | none => .error (.value "STRM target must be an absolute POSIX path")
        | some mounted =>
          if foldedSuffix names mounted ∉ videoSuffixes then .error (.invalidStrmTarget "STRM target is not a supported video file")
          else match relativeTo mounted cloud.strmMountPrefix with
            | none => .error (.invalidStrmTarget "STRM target is outside the configured mount prefix")
            | some relative =>
              let apiPath := "/" ++ relative
              if (relativeTo apiPath root).isNone then
                .error (.invalidStrmTarget "STRM target is outside the configured CloudDrive source root")
              else .ok ⟨payload.sha256, apiPath, payload.digest⟩
    | some _ => .error (.invalidStrmTarget "STRM mapping must contain one absolute path")

/-- `CloudMovePaths.parse_mapping`. -/
def parseMapping (names : Names) (cloud : CloudMovePaths) (mappingPath : String) (sourceIndex : Nat) : M ParsedStrmTarget :=
  match cloud.sourceApiRoots[sourceIndex]? with
  | none => .raise (.invalidStrmTarget "CloudDrive source root mapping is incomplete")
  | some root => do
    match ← (ask (.readBytes mappingPath)).attempt with
    | .error (.os _) | .error .fileNotFound => .raise (.invalidStrmTarget "STRM mapping is unavailable")
    | .error e => .raise e
    | .ok payload =>
      match strmTarget names cloud root payload with
      | .ok parsed => pure parsed
      | .error e => .raise e

/-- `CloudMovePaths.destination_directory`. -/
def destinationDirectory (cloud : CloudMovePaths) (brand : String) : M String :=
  if !isSafeSegment brand then .raise (.value "CloudDrive destination brand is invalid")
  else pure (pathJoin cloud.moveInApiRoot brand)

/-! ## Looking for files -/

/-- `_find_matching_files`; a scan that is stopped finds nothing. -/
def findMatchingFiles (root brand videoId : String) : M (List String) := do
  if ← stopRequested then pure []
  else if !(← isDir root) then .raise (.os "scan root unavailable")
  else if ← isSymlink root then .raise (.os "scan root unavailable")
  else if ← stopRequested then pure []
  else if !(← isDir (pathJoin root brand)) then pure []
  else if ← hasSymlinkComponent (pathJoin root brand) root then .raise (.value "unsafe brand path")
  else if !(← isWithin (pathJoin root brand) root) then .raise (.value "unsafe brand path")
  else do
    let names ← ask (.iterdir (pathJoin root brand))
    -- none once the scan is stopped
    let found ← Prog.foldEach names (some []) fun found name =>
      match found with
      | none => pure none
      | some found => do
        let path := pathJoin (pathJoin root brand) name
        if ← stopRequested then pure none
        else if ← isSymlink path then pure (some found)
        else if !(← isFile path) then pure (some found)
        else if matchesVideoFileName name videoId then pure (some (found ++ [name]))
        else pure (some found)
    pure (((found.getD []).insertionSort (· ≤ ·)).map (pathJoin (pathJoin root brand)))

/-- `_find_additional_files`: the index of the root, and the path. -/
def findAdditionalFiles (brand videoId : String) : M (List (Nat × String)) := do
  let ps ← paths
  let found ← Prog.foldEach ps.additionalBrandPaths.zipIdx (some []) fun found x =>
    match found with
    | none => pure none
    | some found => do
      if ← stopRequested then pure none
      else
        let matching ← findMatchingFiles x.1 brand videoId
        pure (some (found ++ matching.map fun path => (x.2, path)))
  pure ((found.getD []).insertionSort fun a b => a.1 < b.1 ∨ (a.1 = b.1 ∧ pathName a.2 ≤ pathName b.2))

def findCloudFile (apiPath : String) (listing : Option (List CloudFileMetadata)) : Option CloudFileMetadata :=
  (listing.getD []).find? (·.path = apiPath)

section scan
-- `_cloud_file_mover` is there
variable (names : Names) (mover : Bool)

/-- `_list_cloud_directory_cached`. -/
def listCloudDirectoryCached (directory : String) : M (Option (List CloudFileMetadata)) := do
  match ← ask (.cached directory) with
  | some listing => pure listing
  | none =>
    if !mover then .raise (.other "CloudDrive mover is not configured")
    else
      let listing ← match ← (ask (.listDirectory directory)).attempt with
        | .ok files => pure (some files)
        | .error .fileNotFound => pure none
        | .error e => .raise e
      ask (.keep directory listing)
      pure listing

/-- `_cloud_file_cached`. -/
def cloudFileCached (apiPath : String) : M (Option CloudFileMetadata) := do
  let listing ← listCloudDirectoryCached mover (pathParent apiPath)
  pure (findCloudFile apiPath listing)

/-- `move_in_path / brand if move_in_by_brand else move_in_path`. -/
def destinationRoot (brand : String) : M String := do
  let rt ← runtime
  let ps ← paths
  pure (if rt.moveInByBrand then pathJoin ps.moveInPath brand else ps.moveInPath)

/-- The candidates a video has so far, beside their records. -/
structure Found where
  candidates : List MoveCandidate := []
  records : List CandidateRecord := []
  existingFiles : List String := []
  warnings : List String := []

def Found.warn (f : Found) (warning : String) : Found := { f with warnings := f.warnings ++ [warning] }

/-- A candidate and its record, appended. -/
def Found.add (f : Found) (candidate : MoveCandidate) (record : CandidateRecord) : Found :=
  { f with candidates := f.candidates ++ [candidate], records := f.records ++ [record] }

/-- A candidate on the disk. -/
def localCandidate (videoId brand : String) (f : Found) (x : Nat × String) : M Found := do
  let candidateId ← ask .token
  let root ← destinationRoot brand
  let destination := pathJoin root (pathName x.2)
  let sourceRoot ← additionalBrandPath x.1
  let fingerprint ← ask (.fingerprint x.2)
  let sourceLabel ← additionalBrandPath x.1
  let destinationConflict ← ask (.pathExists destination)
  pure (f.add { candidateId, videoId, fileName := pathName x.2, sourceLabel, destinationConflict }
    { candidateId, videoId, source := x.2, sourceRoot, destination, fingerprint, cloud := none })

/-- A mapping file whose file is at CloudDrive. -/
def takeCloudFile (videoId brand destinationDir : String) (destinationConflict : Bool) (f : Found) (x : Nat × String)
    (parsed : ParsedStrmTarget) (file : CloudFileMetadata) : M Found := do
  if !matchesVideoFileName file.name videoId then pure (f.warn "cloud_source_name_mismatch")
  else
    let candidateId ← ask .token
    let root ← destinationRoot brand
    let sourceRoot ← additionalBrandPath x.1
    let fingerprint ← ask (.fingerprint x.2)
    let sourceLabel ← additionalBrandPath x.1
    pure (f.add { candidateId, videoId, fileName := file.name, sourceLabel, destinationConflict }
      { candidateId, videoId, source := x.2, sourceRoot, destination := pathJoin root (pathName x.2), fingerprint
        cloud := some ⟨parsed.mappingSha256, destinationDir, file, parsed.digest⟩ })

/-- A mapping file, which names a file at CloudDrive. -/
def cloudCandidate (videoId brand destinationDir : String) (destinationListing : Option (List CloudFileMetadata)) (f : Found)
    (x : Nat × String) : M Found := do
  if foldedSuffix names x.2 ≠ ".strm" then pure (f.warn "cloud_mapping_not_strm")
  else
    let cloud ← cloudMovePaths
    match ← (parseMapping names cloud x.2 x.1).attempt with
    | .error (.invalidStrmTarget _) | .error (.value _) => pure (f.warn "invalid_strm_target")
    | .error e => .raise e
    | .ok parsed =>
      let cloudFile ← cloudFileCached mover parsed.apiPath
      let destinationFile := findCloudFile (pathJoin destinationDir (pathName parsed.apiPath)) destinationListing
      match cloudFile, destinationFile with
      | none, some file => pure { f with existingFiles := f.existingFiles ++ [file.name] }
      | none, none => pure (f.warn "cloud_source_missing")
      | some file, _ => takeCloudFile videoId brand destinationDir destinationFile.isSome f x parsed file

/-- `_create_cloud_video_plan`. -/
def createCloudVideoPlan (videoId : String) (actorIds : List String) (brand : String) (additional : List (Nat × String)) :
    M (VideoPlan × List CandidateRecord × Bool) := do
  let rt ← runtime
  if rt.cloudMovePaths.isNone then .raise (.other "CloudDrive paths are not configured")
  else
    let cloud ← cloudMovePaths
    let destinationDir ← destinationDirectory cloud brand
    let destinationListing ← listCloudDirectoryCached mover destinationDir
    let found ← Prog.foldEach additional {} (cloudCandidate names mover videoId brand destinationDir destinationListing)
    let plan : VideoPlan := { videoId, actorIds, state := .additionalFound }
    if found.candidates ≠ [] then
      pure ({ plan with
        existingFiles := sortedSet found.existingFiles, moveCandidates := found.candidates
        warnings := found.warnings.eraseDups }, found.records, false)
    else if found.existingFiles ≠ [] then
      pure ({ plan with
        state := .exists_, existingFiles := sortedSet found.existingFiles
        warnings := ["mapping_convergence_pending"] }, [], false)
    else
      let warnings := found.warnings.eraseDups
      pure ({ plan with state := .scanFailed, warnings := if warnings = [] then ["cloud_scan_failed"] else warnings }, [], false)

/-- `_create_video_plan`: the entry, the records of its candidates, and whether the video is missing. -/
def createVideoPlan (videoId : String) (actorIds : List String) : M (VideoPlan × List CandidateRecord × Bool) := do
  let brand := (← ask (.resolveBrand videoId)).getD ""
  let plan : VideoPlan := { videoId, actorIds, state := .additionalFound }
  if !isSafeSegment brand then pure ({ plan with state := .invalidVideoId, warnings := ["brand_not_found"] }, [], false)
  else
    let ps ← paths
    let existing ← findMatchingFiles ps.actorBrandPath brand videoId
    if existing ≠ [] then pure ({ plan with state := .exists_, existingFiles := existing.map pathName }, [], false)
    else
      let additional ← findAdditionalFiles brand videoId
      if additional = [] then pure ({ plan with state := .missing }, [], true)
      else
        let rt ← runtime
        if mover && rt.cloudMovePaths.isSome then createCloudVideoPlan names mover videoId actorIds brand additional
        else
          let found ← Prog.foldEach additional {} (localCandidate videoId brand)
          pure ({ plan with moveCandidates := found.candidates }, found.records, false)

end scan

/-! ## The plan as a whole -/

/-- The actions of a library scan, the catalog, and the repository. -/
inductive PlanOp where
  | scan (op : Op)
  | listVideos (actorId : String)
  | savePlan (plan : Plan) (record : PlanRecord)

def PlanRes : PlanOp → Type
  | .scan op => Res op
  | .listVideos _ => CatalogListing
  | .savePlan .. => Unit

abbrev Planning := Prog PlanRes Exc

def scanning {α : Type} (p : M α) : Planning α := p.handle fun op => Prog.call (PlanOp.scan op)

def listVideos (actorId : String) : Planning CatalogListing := Prog.call (PlanOp.listVideos actorId)

def savePlan (plan : Plan) (record : PlanRecord) : Planning Unit := Prog.call (PlanOp.savePlan plan record)

/-- What the catalogs have said. -/
structure Catalog where
  actorPlans : List ActorPlan := []
  /-- `video_actors`, as pairs. -/
  videoActors : List (String × String) := []
  releaseDates : List (String × Date) := []

/-- `sorted(video_actors)`. -/
def Catalog.videoIds (c : Catalog) : List String := sortedSet (c.videoActors.map (·.1))

/-- `tuple(sorted(video_actors[video_id]))`. -/
def Catalog.actorsOf (c : Catalog) (videoId : String) : List String :=
  sortedSet ((c.videoActors.filter (·.1 = videoId)).map (·.2))

/-- `release_dates.setdefault(...)`. -/
def setDefault (dates : List (String × Date)) (videoId : String) (date : Date) : List (String × Date) :=
  if (dates.lookup videoId).isSome then dates else dates ++ [(videoId, date)]

/-- The listing's ids, as the ledger spells them. -/
def CatalogListing.normalizedIds (names : Names) (listing : CatalogListing) : List String :=
  sortedSet ((listing.videoIds.filter fun videoId => Core.strip videoId.toList ≠ []).map (normalizeVideoId names))

/-- What one actor's listing adds. -/
def Catalog.listed (names : Names) (c : Catalog) (actorId : String) (listing : CatalogListing) : Catalog where
  actorPlans := c.actorPlans ++ [{
    actorId, scrapedCount := listing.videoIds.dedup.length, videoIds := listing.normalizedIds names
    actorName := listing.actorName, talentId := listing.talentId, aliases := listing.aliases }]
  videoActors := c.videoActors ++ (listing.normalizedIds names).map fun videoId => (videoId, actorId)
  releaseDates := listing.releaseDates.foldl (fun dates x => setDefault dates (normalizeVideoId names x.1) x.2) c.releaseDates

/-- What one actor's failed listing adds. -/
def Catalog.failed (c : Catalog) (actorId : String) (message : Option String) : Catalog :=
  { c with actorPlans := c.actorPlans ++ [{
      actorId, scrapedCount := 0, errorCode := some "actor_catalog_error", errorMessage := message }] }

/-- `_candidate_destination_key`. -/
def candidateDestinationKey (record : CandidateRecord) : String :=
  match record.cloud with
  | some cloud => pathJoin cloud.destinationDir cloud.file.name
  | none => record.destination

/-- `records.update(...)`. -/
def putRecord (records : List CandidateRecord) (record : CandidateRecord) : List CandidateRecord :=
  if records.any (·.candidateId = record.candidateId) then
    records.map fun r => if r.candidateId = record.candidateId then record else r
  else records ++ [record]

/-- How many records end up at this destination. -/
def destinationCount (records : List CandidateRecord) (key : String) : Nat :=
  records.countP fun record => candidateDestinationKey record = key

/-- `_mark_duplicate_destination_conflicts`. -/
def markDuplicateDestinationConflicts (records : List CandidateRecord) (video : VideoPlan) : VideoPlan :=
  { video with moveCandidates := video.moveCandidates.map fun candidate =>
      { candidate with destinationConflict := candidate.destinationConflict ||
          (records.find? (·.candidateId = candidate.candidateId)).any fun record =>
            destinationCount records (candidateDestinationKey record) > 1 } }

/-- What the hand-over of a missing video makes of its entry. -/
def withOutcome (videos : List VideoPlan) (x : Submitted) : List VideoPlan :=
  videos.map fun video =>
    if video.videoId = x.1 then { video with state := x.2.1.state, warnings := x.2.2.toList } else video

/-- What the library scan has found so far. -/
structure Scanned where
  videos : List VideoPlan := []
  records : List CandidateRecord := []
  missing : List String := []

/-- A service's own numbers, and what it leaves to the language. -/
structure Service where
  names : Names
  mover : Bool
  maxActors : Nat
  maxVideos : Nat
  planTtl : Time
  /-- `_redact_error_message`. -/
  redact : Exc → Option String
  /-- What is stored of a plan besides its candidates. -/
  content : Plan → String

/-- The plan as a repository stores it. -/
def Plan.stored (content : Plan → String) (plan : Plan) : FillActorPlan where
  planId := plan.planId
  revision := plan.revision
  createdAt := plan.createdAt
  expiresAt := plan.expiresAt
  moveCandidates := plan.videos.flatMap fun video => video.moveCandidates.map fun c => (c.candidateId, c.videoId)
  content := content plan

namespace Service
variable (svc : Service)

/-- What one actor's listing, or its failure, makes of the catalog. -/
def withListing (c : Catalog) (actorId : String) : Except Exc CatalogListing → Except Exc Catalog
  | .error e => .ok (c.failed actorId (svc.redact e))
  | .ok listing =>
    let next := c.listed svc.names actorId listing
    if next.videoIds.length > svc.maxVideos then .error (.tooManyVideos next.videoIds.length) else .ok next

/-- One actor of the first loop. -/
def listActor (total : Nat) (c : Catalog) (x : String × Nat) : Planning Catalog := do
  let answer ← (listVideos x.1).attempt
  match svc.withListing c x.1 answer with
  | .error e => .raise e
  | .ok next => do
    scanning (report ⟨.actorCatalog, x.2 + 1, some total, .actors, some s!"演员 {x.2 + 1}/{total} · {x.1}"⟩)
    pure next

/-- One video of the second loop. -/
def scanVideo (catalog : Catalog) (total : Nat) (s : Scanned) (x : String × Nat) : M Scanned := do
  let next ← match ← (createVideoPlan svc.names svc.mover x.1 (catalog.actorsOf x.1)).attempt with
    | .error _ =>
      let failed : VideoPlan := { videoId := x.1, actorIds := catalog.actorsOf x.1, state := .scanFailed, warnings := ["scan_failed"] }
      pure { s with videos := s.videos ++ [failed] }
    | .ok (plan, records, missing) =>
      pure {
        videos := s.videos ++ [{ plan with releaseDate := catalog.releaseDates.lookup x.1 }]
        records := records.foldl putRecord s.records
        missing := if missing then s.missing ++ [x.1] else s.missing }
  report ⟨.libraryScan, x.2 + 1, some total, .videos, some x.1⟩
  pure next

/-- The actors' listings. -/
def listActors (actorIds : List String) : Planning Catalog := do
  scanning (report ⟨.actorCatalog, 0, some actorIds.length, .actors, some s!"演员 1/{actorIds.length}"⟩)
  Prog.foldEach actorIds.zipIdx {} (svc.listActor actorIds.length)

/-- The library scan, the hand-over of what is missing, and every entry after it. -/
def scanLibrary (catalog : Catalog) : M (List VideoPlan × List CandidateRecord) := do
  report ⟨.libraryScan, 0, some catalog.videoIds.length, .videos, none⟩
  let scanned ← Prog.foldEach catalog.videoIds.zipIdx {} (svc.scanVideo catalog catalog.videoIds.length)
  let videos := scanned.videos.map (markDuplicateDestinationConflicts scanned.records)
  report ⟨.submitting, 0, some scanned.missing.length, .videos, none⟩
  let submitted ← ask (.queueMissing scanned.missing catalog.releaseDates)
  pure (submitted.foldl withOutcome videos, scanned.records)

/-- A token where the caller has given none. -/
def orToken (given : Option String) : M String :=
  match given.filter (· ≠ "") with
  | some text => pure text
  | none => ask .token

/-- Everything between the listings and the last look at the settings. -/
def assemble (catalog : Catalog) (planId revision : Option String) : M (Plan × List CandidateRecord) := do
  let (videos, records) ← svc.scanLibrary catalog
  let createdAt ← now
  let planId ← orToken planId
  let revision ← orToken revision
  report ⟨.persisting, 0, some 1, .steps, some "保存扫描结果"⟩
  pure ({ planId, revision, createdAt, expiresAt := createdAt + svc.planTtl, actors := catalog.actorPlans, videos }, records)

/-- The plan is stored under the version the scan began with, while that is still the one in force. -/
def createPlan (actorIds : List String) (planId revision : Option String) : Planning Plan := do
  let rt ← scanning runtime
  match validateActorIds svc.maxActors actorIds with
  | .error e => .raise e
  | .ok normalized => do
    let catalog ← svc.listActors normalized
    let (plan, records) ← scanning (svc.assemble catalog planId revision)
    let rt' ← scanning runtime
    if rt'.version ≠ rt.version then .raise .legacyPlan
    else match PlanRecord.make (plan.stored svc.content) records rt.version with
      | .error _ => .raise (.value "plan record")
      | .ok record => do
        savePlan plan record
        scanning (report ⟨.persisting, 1, some 1, .steps, some "扫描结果已保存"⟩)
        pure plan

end Service

end EmbyxManager.FillActor.Scan
