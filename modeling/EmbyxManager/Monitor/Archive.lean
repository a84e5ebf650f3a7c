import EmbyxManager.Core.Digits
import EmbyxManager.Monitor.Repository
/-!
# Archiving one folder

`archive_folder` in its two halves: which video to file, and filing it. The
AVID is read from the names of the videos, from the folder's name only when
they give nothing, and has to agree with the AVID the caller expects, if any.

Reading an AVID off a text, telling copies apart and arranging several videos
are functions of names and sizes alone; an `Archiver` carries them.
-/

namespace EmbyxManager
open Atom

/-- What the archive pipeline decides from names and sizes alone. -/
structure Archiver where
  /-- The AVID a name reads as; empty when none can be read. -/
  getAvid : String → Avid
  /-- The videos that are left once same-sized copies of a file are dropped. -/
  dropCopies : List Video → List Video
  /-- The videos to archive in order, none for an operator to look at. -/
  arrange : List Video → Avid → Option (List Video)

inductive Outcome where
  | archived | junk | needsAttention | failed
  deriving DecidableEq

structure ArchiveResult where
  outcome : Outcome
  avid : Avid := ""
  archivedPaths : List String := []
  reason : String := ""
  deriving DecidableEq

/-- The videos of one folder that are worth archiving, in order. -/
structure VideoSet where
  avid : Avid
  videos : List Video
  deriving DecidableEq

/-- `str(exc)`. -/
def Exn.str : Exn → String
  | .valueError m | .rpcError m | .failure m | .replaceError m | .talentMoved m => m
  | .apiError _ code => code
  | _ => ""

/-- `type(exc).__name__`, as far as the code itself names the type. -/
def Exn.typeName : Exn → String
  | .illegalAcquisition _ _ | .illegalAttempt _ _ => "IllegalTransitionError"
  | .uniqueViolation => "UniqueViolationError"
  | .foreignKeyViolation => "ForeignKeyViolationError"
  | .valueError _ => "ValueError"
  | .runCancelled => "RunCancelledError"
  | .recursionError => "RecursionError"
  | .rpcError _ => "RpcError"
  | .fileNotFound => "FileNotFoundError"
  | .httpStatus _ => "HTTPStatusError"
  | .magnetInUse _ _ => "MagnetInUseError"
  | .subscriptionExists => "SubscriptionExistsError"
  | .talentMoved _ => "TalentMovedError"
  | .apiError _ _ => "ApiError"
  | .replaceError _ => "ReplaceError"
  | .failure _ => "Exception"

namespace Archive

/-- `BRAND-0dddd`: two to ten capitals, and a zero that fills the number to five digits. -/
def zeroPadded (padded unpadded : Avid) : Bool :=
  let brand := padded.toList.takeWhile Char.isUpper
  match padded.toList.dropWhile Char.isUpper with
  | '-' :: '0' :: number =>
    2 ≤ brand.length ∧ brand.length ≤ 10 ∧ number.length = 4 ∧ number.all isDecimal ∧
      unpadded.toList = brand ++ '-' :: number
  | _ => false

/-- The two differ at most by one padding zero. -/
def paddingEquivalent (a b : Avid) : Bool := a = b ∨ zeroPadded a b ∨ zeroPadded b a

/-- The last clue is the folder's name; then the AVID has to be the expected one. -/
def reconcileAvid (arch : Archiver) (folder : String) (avid expected : Avid) : Except ArchiveResult Avid :=
  let avid := if avid = "" then arch.getAvid folder else avid
  if avid = "" then .error { outcome := .needsAttention, reason := "no avid could be read" }
  else if expected = "" ∨ avid = expected then .ok avid
  else if paddingEquivalent expected avid then .ok expected
  else .error { outcome := .needsAttention, avid, reason := "expected " ++ expected ++ " but found " ++ avid }

/-- Read the videos' AVID and reconcile it with a trusted expected value. -/
def identifyAvid (arch : Archiver) (folder : String) (videos : List Video) (expected : Avid) :
    Except ArchiveResult Avid :=
  match (videos.map fun v => arch.getAvid v.name).dedup with
  | [] => .error { outcome := .failed }
  | [avid] => reconcileAvid arch folder avid expected
  | avids =>
    if expected ≠ "" ∧ avids.all (paddingEquivalent expected) then reconcileAvid arch folder expected expected
    else
      .error { outcome := .needsAttention
               reason := "multiple avids in one folder: " ++ String.intercalate ", " (avids.insertionSort (· ≤ ·)) }

/-- Which files of a folder are the video, or why we cannot tell. -/
def select (arch : Archiver) (folder : String) (videos : List Video) (expected : Avid) :
    Except ArchiveResult VideoSet :=
  if videos = [] then .error { outcome := .junk, reason := "no video above the size threshold" }
  else
    let kept := arch.dropCopies videos
    match identifyAvid arch folder kept expected with
    | .error result => .error result
    | .ok avid =>
      if kept.length ≤ 1 then .ok ⟨avid, kept⟩
      else
        match arch.arrange kept avid with
        | none =>
          .error { outcome := .needsAttention, avid, reason := "several unrelated videos in one folder" }
        | some arranged => .ok ⟨avid, arranged⟩

theorem reconcileAvid_error {arch : Archiver} {name : String} {avid expected : Avid} {result : ArchiveResult}
    (h : reconcileAvid arch name avid expected = .error result) : result.outcome ≠ .archived := by
  unfold reconcileAvid at h
  dsimp only at h
  generalize (if avid = "" then arch.getAvid name else avid) = avid' at h
  split at h
  · cases h
    simp
  split at h
  · cases h
  split at h
  · cases h
  · cases h
    simp

theorem identifyAvid_error {arch : Archiver} {name : String} {videos : List Video} {expected : Avid} {result : ArchiveResult}
    (h : identifyAvid arch name videos expected = .error result) : result.outcome ≠ .archived := by
  unfold identifyAvid at h
  split at h
  · cases h
    simp
  · exact reconcileAvid_error h
  · split at h
    · exact reconcileAvid_error h
    · cases h
      simp

/-- What is not selected is not archived. -/
theorem select_error {arch : Archiver} {name : String} {videos : List Video} {expected : Avid} {result : ArchiveResult}
    (h : select arch name videos expected = .error result) : result.outcome ≠ .archived := by
  unfold select at h
  split at h
  · cases h
    simp
  dsimp only at h
  cases hid : identifyAvid arch name (arch.dropCopies videos) expected with
  | error result' =>
    rw [hid] at h
    cases h
    exact identifyAvid_error hid
  | ok avid =>
    rw [hid] at h
    dsimp only at h
    split at h
    · cases h
    · split at h
      · cases h
        simp
      · cases h

/-- `_select_videos`; a copy that cannot be deleted is only logged. -/
def selectVideos (arch : Archiver) (folder : Folder) (expected : Avid) : M (Except ArchiveResult VideoSet) := do
  if ← ask (.isDir folder.path) then
    let videos ← ask (.largeVideos folder.path)
    Prog.forEach (videos.filter fun v => v ∉ arch.dropCopies videos) fun v => discard (ask (.unlink v.path)).attempt
    pure (select arch folder.name videos expected)
  else pure (.error { outcome := .failed, reason := folder.path ++ " is not a directory" })

/-- The first half: nothing outside the folder is touched. -/
def inspectFolder (arch : Archiver) (folder : Folder) (expected : Avid := "") :
    M (Except ArchiveResult VideoSet) := do
  match ← (selectVideos arch folder expected).attempt with
  | .ok selection => pure selection
  | .error .runCancelled => .raise .runCancelled
  | .error e => pure (.error { outcome := .failed, reason := e.str })

/-- The second half: move the video in and delete the folder, as far as it lets itself. -/
def fileSelection (folder : Folder) (selection : VideoSet) (dst : String) (priority : Bool) : M ArchiveResult := do
  match ← (ask (.moveIntoLibrary selection.avid selection.videos dst priority)).attempt with
  | .error .runCancelled => .raise .runCancelled
  | .error e => pure { outcome := .failed, avid := selection.avid, reason := e.str }
  | .ok [] =>
    pure { outcome := .needsAttention, avid := selection.avid, reason := "destination already holds this avid" }
  | .ok archived => do
    discard (ask (.discard folder.path)).attempt
    pure { outcome := .archived, avid := selection.avid, archivedPaths := archived }

/-- Move one folder's video into the library and delete the folder. -/
def archiveFolder (arch : Archiver) (folder : Folder) (dst : String) (priority : Bool) (expected : Avid := "") :
    M ArchiveResult := do
  match ← inspectFolder arch folder expected with
  | .error result => pure result
  | .ok selection => fileSelection folder selection dst priority

/-- File one AVID's loose videos, in name order; there is no folder to delete. -/
def archiveLooseGroup (avid : Avid) (videos : List Video) (dst : String) (priority : Bool) : M ArchiveResult := do
  match ← ask (.moveIntoLibrary avid (videos.insertionSort fun v v' => v.name ≤ v'.name) dst priority) with
  | [] => pure { outcome := .needsAttention, avid, reason := "destination already holds this avid" }
  | archived => pure { outcome := .archived, avid, archivedPaths := archived }

end Archive

end EmbyxManager
