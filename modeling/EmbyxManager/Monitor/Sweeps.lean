import EmbyxManager.Monitor.Archive
/-!
# The library sweeps

The two components that file what the tracker never saw: `ReconcileScanner`
walks the archive routes, `MoveInSweeper` the staging tree. Both write what they
did into the ledger in the same way, under a source of their own.
-/

namespace EmbyxManager
open Atom AcquisitionRepository Archive

/-! ## Recording an outcome -/

/-- The row an outcome goes to, discovered first when there is none. -/
def rowFor (source : String) (avid : Avid) (at_ : Time) : M (Option AcquisitionRecord) := do
  match ← get avid with
  | some record => pure (some record)
  | none => do
    discard (discover avid at_ { source })
    get avid

/-- `_record_archived`. -/
def recordArchived (source : String) (avid : Avid) (archivedPaths : List String) (at_ : Time) : M Unit := do
  match ← rowFor source avid at_ with
  | none => pure ()
  | some record =>
    if record.state = .archived then pure ()
    else discard (transition avid record.state .archived at_ none none (some archivedPaths))

/-- `_record_attention`: park the AVID, unless it is parked already or archived. -/
def recordAttention (source : String) (avid : Avid) (reason : String) (at_ : Time) : M Unit := do
  match ← get avid with
  | some record =>
    if record.state = .needsAttention ∨ record.state = .archived then pure ()
    else discard (transition avid record.state .needsAttention at_ (some reason))
  | none => do
    discard (discover avid at_ { source })
    match ← get avid with
    | none => pure ()
    | some record =>
      if record.state = .archived then pure ()
      else discard (transition avid record.state .needsAttention at_ (some reason))

/-! ## The reconcile scan -/

/-- One archive route of the configuration: its source below `src_dir`, and what it feeds. -/
structure Route where
  src : String
  dst : String
  priority : Bool
  deriving DecidableEq

/-- What a scanner is built with. -/
structure Scanner where
  archiver : Archiver
  /-- The priority routes first. -/
  routes : List Route
  srcDir : String
  /-- The folder is, or contains, another route's source. -/
  coversOtherRoute : Folder → String → Bool

/-- What a scanner remembers from pass to pass: how folders looked, and which were reported. -/
structure Scan where
  seen : List (String × Sighting) := []
  reported : List String := []

namespace Scanner

def see (scan : Scan) (folder : Folder) (sighting : Sighting) : Scan :=
  { scan with seen := (folder.path, sighting) :: scan.seen.filter (·.1 ≠ folder.path) }

/-- The folder has looked the same for two consecutive passes. -/
def isSettled (scan : Scan) (folder : Folder) : M (Scan × Bool) := do
  let sighting ← ask (.measure folder.path)
  pure (see scan folder sighting, scan.seen.lookup folder.path = some sighting)

/-- File one settled folder and record what became of it. -/
def reconcileFolder (s : Scanner) (scan : Scan) (folder : Folder) (route : Route) : M Scan := do
  let result ← archiveFolder s.archiver folder route.dst route.priority
  let at_ ← now
  match result.outcome with
  | .archived => do
    recordArchived "reconcile" result.avid result.archivedPaths at_
    pure { scan with seen := scan.seen.filter (·.1 ≠ folder.path) }
  | .needsAttention =>
    if result.avid ≠ "" then do
      recordAttention "reconcile" result.avid result.reason at_
      pure scan
    else pure (if folder.path ∈ scan.reported then scan else { scan with reported := folder.path :: scan.reported })
  | _ => pure scan

/-- The tracker owns the download: the folder's name reads as an active AVID. -/
def leftToTracker (s : Scanner) (active : List Avid) (folder : Folder) : Bool :=
  let avid := s.archiver.getAvid folder.name
  avid ≠ "" ∧ avid ∈ active

def scanFolder (s : Scanner) (active : List Avid) (root : String) (route : Route) (scan : Scan) (folder : Folder) :
    M Scan := do
  checkCancelled (.folder folder.path)
  if s.coversOtherRoute folder root then pure scan
  else if s.leftToTracker active folder then pure scan
  else do
    let (scan, settled) ← isSettled scan folder
    if settled then s.reconcileFolder scan folder route else pure scan

def scanRoute (s : Scanner) (active : List Avid) (scan : Scan) (route : Route) : M Scan := do
  checkCancelled (.route route.src)
  let root := s.srcDir ++ "/" ++ route.src
  if ← ask (.isDir root) then do
    let folders ← ask (.listFolders root)
    Prog.foldEach folders scan (s.scanFolder active root route)
  else pure scan

/-- One run over every route; the active AVIDs are those of its start. -/
def run (s : Scanner) (scan : Scan) : M Scan := do
  let active ← activeAvids
  Prog.foldEach s.routes scan (s.scanRoute active)

end Scanner

/-! ## The move-in sweep -/

/-- What a sweeper is built with. -/
structure Sweeper where
  getAvid : String → Avid
  taskDirPath : String
  /-- The library subdirectory and priority of the route the offline directory feeds. -/
  routeForTaskDir : String → Option (String × Bool)

namespace Sweeper

/-- The staged videos by AVID; those without one are left where they are. -/
def groupByAvid (getAvid : String → Avid) (groups : List (Avid × List Video)) (v : Video) : List (Avid × List Video) :=
  let avid := getAvid v.name
  if avid = "" then groups
  else if avid ∈ groups.map (·.1) then groups.map fun g => if g.1 = avid then (g.1, g.2 ++ [v]) else g
  else groups ++ [(avid, [v])]

/-- File one AVID's staged videos; a group that cannot be filed at all is only logged. -/
def fileGroup (avid : Avid) (videos : List Video) (dst : String) (priority : Bool) : M Unit := do
  match ← (archiveLooseGroup avid videos dst priority).attempt with
  | .error _ => pure ()
  | .ok result => do
    let at_ ← now
    match result.outcome with
    | .archived => recordArchived "fill_actor" avid result.archivedPaths at_
    | _ => recordAttention "fill_actor" avid result.reason at_

def run (s : Sweeper) : M Unit :=
  if s.taskDirPath = "" then pure ()
  else
    match s.routeForTaskDir s.taskDirPath with
    | none => pure ()
    | some (dst, priority) => do
      let staged ← ask .stagedVideos
      Prog.forEach (staged.foldl (groupByAvid s.getAvid) []) fun (avid, videos) => do
        checkCancelled (.group avid)
        fileGroup avid videos dst priority

end Sweeper

end EmbyxManager
