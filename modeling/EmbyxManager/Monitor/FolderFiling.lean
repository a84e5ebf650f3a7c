import EmbyxManager.Monitor.OneCopy
import EmbyxManager.Monitor.PartOrder
/-!
# Filing a folder, call by call

`archive_folder` once more, with every call on the file system an action of its own: the
sizes it weighs videos by as well. The folder's videos stand beside the library, so a run
can be compared with what was there before it.
-/

namespace EmbyxManager.FolderFiling
open Atom Prog Parts

/-! ## Calls -/

/-- What filing a folder asks of the world. -/
inductive FolderOp where
  /-- `video.stat().st_size`. -/
  | size (video : Video)
  | call (op : LibraryOp)

/-- The type of an answer. -/
abbrev FolderOp.Res : FolderOp → Type
  | size _ => Unit
  | call op => op.Res

/-- The programs that file a folder. -/
abbrev FolderM := Prog FolderOp.Res Exn

/-- An `Archiver`, with the videos that arranging several takes the size of. -/
structure Arranger extends Archiver where
  weighed : List Video → List Video

/-- A question to the world outside the library. -/
def query (q : Query) : FolderM q.Res := Prog.call (FolderOp.call (.outside (.ask q)))

/-- A program on the library, as part of one on a folder. -/
def onLibrary {α : Type} (p : LibraryM α) : FolderM α := p.handle fun op => Prog.call (FolderOp.call op)

/-- Every video's size, looked up in turn. -/
def weigh (videos : List Video) : FolderM Unit := Prog.forEach videos fun v => Prog.call (FolderOp.size v)

/-- Several videos of one AVID are arranged, for which some are weighed once more. -/
def weighAgain (arch : Arranger) (folder : Folder) (kept : List Video) (expected : Avid) : FolderM Unit :=
  match Archive.identifyAvid arch.toArchiver folder.name kept expected with
  | .error _ => pure ()
  | .ok _ => if kept.length ≤ 1 then pure () else weigh (arch.weighed kept)

/-- `_select_videos`: copies of a same-sized file are deleted before anything is decided. -/
def selectVideos (arch : Arranger) (folder : Folder) (expected : Avid) : FolderM (Except ArchiveResult VideoSet) := do
  if ← query (.isDir folder.path) then
    let videos ← query (.largeVideos folder.path)
    weigh videos
    Prog.forEach (videos.filter (· ∉ arch.dropCopies videos)) fun v => discard (query (.unlink v.path)).attempt
    weighAgain arch folder (arch.dropCopies videos) expected
    pure (Archive.select arch.toArchiver folder.name videos expected)
  else pure (.error { outcome := .failed, reason := folder.path ++ " is not a directory" })

/-- `inspect_folder`: the videos to file, or why none are. -/
def inspectFolder (arch : Arranger) (folder : Folder) (expected : Avid) : FolderM (Except ArchiveResult VideoSet) := do
  match ← (selectVideos arch folder expected).attempt with
  | .ok selection => pure selection
  | .error .runCancelled => .raise .runCancelled
  | .error e => pure (.error { outcome := .failed, reason := e.str })

/-- `file_selection`. -/
def fileSelection (routes : LibraryRoutes) (folder : Folder) (selection : VideoSet) (dst : String) (priority : Bool) :
    FolderM ArchiveResult := do
  match ← (onLibrary (Archive.moveIntoLibrary routes selection.avid selection.videos dst priority)).attempt with
  | .error .runCancelled => .raise .runCancelled
  | .error e => pure { outcome := .failed, avid := selection.avid, reason := e.str }
  | .ok [] =>
    pure { outcome := .needsAttention, avid := selection.avid, reason := "destination already holds this avid" }
  | .ok archived => do
    discard (query (.discard folder.path)).attempt
    pure { outcome := .archived, avid := selection.avid, archivedPaths := archived }

/-- `archive_folder`: what is understood of the folder is filed. -/
def archiveFolder (arch : Arranger) (routes : LibraryRoutes) (folder : Folder) (dst : String) (priority : Bool)
    (expected : Avid) : FolderM ArchiveResult := do
  match ← inspectFolder arch folder expected with
  | .error result => pure result
  | .ok selection => fileSelection routes folder selection dst priority

/-- The videos `_drop_phone_rips` weighs, where the arrangement comes to it. -/
def weighedRips (fold : Char → List Char) (videos : List Video) : List Video :=
  if multiPartVideoCheck videos then []
  else match collapseResolutionVariants fold videos with
    | none => []
    | some collapsed =>
      if collapsed.length = 1 then [] else if (orderAsParts fold collapsed).isSome then [] else collapsed

/-! ## The pipeline's own program -/

/-- A size costs nothing. -/
def unweighed : (op : FolderOp) → LibraryM op.Res
  | .size _ => pure ()
  | .call op => Prog.call op

section unweighed
variable {α : Type} (arch : Arranger) (routes : LibraryRoutes) (folder : Folder) (expected : Avid)

theorem handle_onLibrary (p : LibraryM α) : (onLibrary p).handle unweighed = p := by
  unfold onLibrary
  induction p with
  | ret a => rfl
  | raise e => rfl
  | act op k ih =>
    refine congrArg (Prog.act op) (funext fun r => ?_)
    cases r <;> exact ih _

theorem handle_weigh (videos : List Video) : (weigh videos).handle unweighed = pure () := by
  unfold weigh
  rw [handle_forEach]
  induction videos with
  | nil => rfl
  | cons v vs ih => exact ih

theorem handle_weighAgain (kept : List Video) : (weighAgain arch folder kept expected).handle unweighed = pure () := by
  unfold weighAgain
  split
  · rfl
  · split
    · rfl
    · exact handle_weigh _

theorem handle_query {q : Query} (hq : Archive.library routes (.ask q) = Prog.call (LibraryOp.outside (.ask q))) :
    (query q).handle unweighed = (ask q).handle (Archive.library routes) :=
  (handle_call unweighed _).trans (hq.symm.trans (handle_call (Archive.library routes) (.ask q)).symm)

theorem handle_unlinks (videos : List Video) :
    (Prog.forEach videos fun v => discard (query (.unlink v.path)).attempt).handle unweighed =
      (Prog.forEach videos fun v => discard (ask (.unlink v.path)).attempt).handle (Archive.library routes) := by
  rw [handle_forEach, handle_forEach]
  refine congrArg _ (funext fun v => ?_)
  rw [handle_discard, handle_discard, handle_attempt, handle_attempt, handle_query routes rfl]

theorem selectVideos_unweighed : (selectVideos arch folder expected).handle unweighed =
    (Archive.selectVideos arch.toArchiver folder expected).handle (Archive.library routes) := by
  unfold selectVideos Archive.selectVideos
  rw [handle_bind, handle_bind, handle_query routes rfl]
  refine congrArg _ (funext fun (b : Bool) => ?_)
  cases b with
  | false => rfl
  | true =>
    simp only [if_true]
    rw [handle_bind, handle_bind, handle_query routes rfl]
    refine congrArg _ (funext fun (videos : List Video) => ?_)
    rw [handle_bind, handle_weigh]
    change (_ >>= _ : FolderM _).handle unweighed = _
    rw [handle_bind, handle_bind, handle_bind, handle_unlinks routes, handle_weighAgain]
    rfl

theorem inspectFolder_unweighed : (inspectFolder arch folder expected).handle unweighed =
    (Archive.inspectFolder arch.toArchiver folder expected).handle (Archive.library routes) := by
  unfold inspectFolder Archive.inspectFolder
  rw [handle_bind, handle_bind, handle_attempt, handle_attempt, selectVideos_unweighed]
  refine congrArg _ (funext fun r => ?_)
  cases r with
  | ok selection => rfl
  | error e => cases e <;> rfl

theorem fileSelection_unweighed (selection : VideoSet) (dst : String) (priority : Bool) :
    (fileSelection routes folder selection dst priority).handle unweighed =
      (Archive.fileSelection folder selection dst priority).handle (Archive.library routes) := by
  unfold fileSelection Archive.fileSelection
  rw [handle_bind, handle_bind, handle_attempt, handle_attempt, handle_onLibrary]
  have moved : (ask (.moveIntoLibrary selection.avid selection.videos dst priority)).handle (Archive.library routes) =
      Archive.moveIntoLibrary routes selection.avid selection.videos dst priority := handle_call _ _
  rw [moved]
  refine congrArg _ (funext fun r => ?_)
  cases r with
  | error e => cases e <;> rfl
  | ok archived =>
    cases archived with
    | nil => rfl
    | cons path paths =>
      dsimp only
      rw [handle_bind, handle_bind, handle_discard, handle_discard, handle_attempt, handle_attempt, handle_query routes rfl]
      rfl

/-- With the sizes left out it is the program of the pipeline. -/
theorem archiveFolder_unweighed (videos : List Video) (dst : String) (priority : Bool) :
    (archiveFolder arch routes folder dst priority expected).handle unweighed =
      (ArchiveCall.folder folder videos dst priority expected).program arch.toArchiver routes := by
  change _ = (Archive.archiveFolder arch.toArchiver folder dst priority expected).handle (Archive.library routes)
  unfold archiveFolder Archive.archiveFolder
  rw [handle_bind, handle_bind, inspectFolder_unweighed arch routes]
  refine congrArg _ (funext fun r => ?_)
  cases r with
  | error result => rfl
  | ok selection => exact fileSelection_unweighed routes folder selection dst priority

end unweighed

end EmbyxManager.FolderFiling
