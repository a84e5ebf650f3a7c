import EmbyxManager.Monitor.Replaced
/-!
# Which folders the archive is handed

`archive_folder` deletes a folder once its video is filed, so it must never be handed a
route's own source or a folder above one. Three callers pick folders: the archive run and
the reconcile scan walk the routes and ask `covers_other_route`, the tracker joins the name
CloudDrive reports onto the route roots, or reads the AVID off the names it finds there.
-/

namespace EmbyxManager.Routes

/-! ## Directories -/

/-- A place in the file system: the names from its root down. -/
abbrev Place := List String

/-- One component followed from a directory. -/
def enter (here : Place) (part : String) : Place := if part = ".." then here.dropLast else here ++ [part]

/-- Where a path starts: relative ones from the working directory. -/
def start (cwd : Place) (p : PurePath) : Place := if p.absolute then [] else cwd

/-- Where a path leads. -/
def place (cwd : Place) (p : PurePath) : Place := p.parts.foldl enter (start cwd p)

/-- What the mount shows: its directories, and the entries of each. -/
structure Tree where
  isDirAt : Place → Bool
  entries : Place → List String
  entries_named : ∀ dir, ∀ name ∈ entries dir, name ≠ ".."

namespace Tree

/-- Every directory on the way down exists. -/
def reaches (tree : Tree) (here : Place) : List String → Bool
  | [] => tree.isDirAt here
  | part :: rest => tree.isDirAt here && tree.reaches (enter here part) rest

/-- `Path.is_dir`. -/
def isDir (tree : Tree) (cwd : Place) (p : PurePath) : Bool := tree.reaches (start cwd p) p.parts

/-- `sorted(dir.iterdir())`. -/
def iterdir (tree : Tree) (cwd : Place) (dir : PurePath) : List PurePath :=
  ((tree.entries (place cwd dir)).insertionSort (· ≤ ·)).map dir.child

end Tree

/-- `Path.parents`. -/
def parents (p : PurePath) : List PurePath :=
  (List.range p.parts.length).map fun n => ⟨p.absolute, p.parts.take n⟩

/-- `Path.name`. -/
def name (p : PurePath) : String := p.parts.getLast?.getD ""

/-! ## The routes -/

/-- One archive route, resolved to the directory it covers. -/
structure Route where
  root : PurePath
  dst : String
  priority : Bool
  deriving DecidableEq

/-- The route tables, with what the validators of `ArchiveConfig` let through. -/
structure Config where
  srcDir : PurePath
  priorityMapping : List (String × String)
  mapping : List (String × String)
  source_relative : ∀ entry ∈ priorityMapping ++ mapping,
    (PurePath.of entry.1).absolute = false ∧ ".." ∉ (PurePath.of entry.1).parts

namespace Config

def route (cfg : Config) (priority : Bool) (entry : String × String) : Route :=
  ⟨cfg.srcDir.join (PurePath.of entry.1), entry.2, priority⟩

/-- The archive routes, priority routes first. -/
def routes (cfg : Config) : List Route :=
  cfg.priorityMapping.map (cfg.route true) ++ cfg.mapping.map (cfg.route false)

/-- Whether a folder in one route is, or contains, another route's source. -/
def coversOtherRoute (cfg : Config) (folder routeRoot : PurePath) : Bool :=
  (cfg.routes.map Route.root).any fun other =>
    decide (other ≠ routeRoot) && (decide (other = folder) || decide (folder ∈ parents other))

end Config

/-! ## The archive run -/

/-- A scan under way: the tree as the filings so far have left it, and the folders handed over. -/
structure Scanned where
  tree : Tree
  handed : List PurePath := []

variable (cfg : Config) (cwd : Place)

/-- One entry of a route; `archive` is what `archive_folder` does to the tree. -/
def scanEntry (archive : Tree → PurePath → Tree) (root : PurePath) (s : Scanned) (folder : PurePath) : Scanned :=
  if !s.tree.isDir cwd folder then s
  else if cfg.coversOtherRoute folder root then s
  else { tree := archive s.tree folder, handed := s.handed ++ [folder] }

/-- `ArchivePipeline.scan_route`. -/
def scanRoute (archive : Tree → PurePath → Tree) (root : PurePath) (s : Scanned) : Scanned :=
  (s.tree.iterdir cwd root).foldl (scanEntry cfg cwd archive root) s

/-- `ArchivePipeline.run`: a cancelled run hands over a first part of these folders. -/
def archiveRun (archive : Tree → PurePath → Tree) (tree : Tree) : Scanned :=
  cfg.routes.foldl (fun s route => if s.tree.isDir cwd route.root then scanRoute cfg cwd archive route.root s else s)
    { tree }

/-! ## The reconcile scan -/

/-- What the scan reads besides the routes. -/
structure Reconciler where
  avidOf : String → Avid
  active : List Avid
  measure : Tree → PurePath → Sighting
  /-- What `archive_folder` does to the tree, and what it reports. -/
  archive : Tree → PurePath → Tree × Outcome

/-- A reconcile scan under way, with how the folders looked when they were last seen. -/
structure Reconciled extends Scanned where
  seen : List (PurePath × Sighting)

/-- The tracker owns the download: the folder's name reads as an active AVID. -/
def Reconciler.leaves (r : Reconciler) (folder : PurePath) : Bool :=
  decide (r.avidOf (name folder) ≠ "") && decide (r.avidOf (name folder) ∈ r.active)

/-- One folder of a route: filed once it has looked the same for two passes. -/
def reconcileFolder (r : Reconciler) (root : PurePath) (s : Reconciled) (folder : PurePath) : Reconciled :=
  if cfg.coversOtherRoute folder root then s
  else if r.leaves folder then s
  else
    let sighting := r.measure s.tree folder
    let others := s.seen.filter (·.1 ≠ folder)
    if s.seen.lookup folder = some sighting then
      let (tree, outcome) := r.archive s.tree folder
      { tree, handed := s.handed ++ [folder], seen := if outcome = .archived then others else (folder, sighting) :: others }
    else { s with seen := (folder, sighting) :: others }

/-- `ReconcileScanner._scan_route`. -/
def reconcileRoute (r : Reconciler) (root : PurePath) (s : Reconciled) : Reconciled :=
  ((s.tree.iterdir cwd root).filter (s.tree.isDir cwd)).foldl (reconcileFolder cfg r root) s

/-- `ReconcileScanner.run`. -/
def reconcileRun (r : Reconciler) (seen : List (PurePath × Sighting)) (tree : Tree) : Reconciled :=
  cfg.routes.foldl (fun s route => if s.tree.isDir cwd route.root then reconcileRoute cfg cwd r route.root s else s)
    { tree, seen }

/-! ## Locating a download -/

/-- The directories of one route, in name order. -/
def folders (tree : Tree) (route : Route) : List PurePath :=
  if tree.isDir cwd route.root then (tree.iterdir cwd route.root).filter (tree.isDir cwd) else []

/-- `_find_folder_for`: the route folder whose name reads as this AVID. -/
def findFolderFor (tree : Tree) (avidOf : String → Avid) (avid : Avid) : Option (PurePath × Route) :=
  cfg.routes.findSome? fun route =>
    ((folders cwd tree route).find? fun folder => avidOf (name folder) = avid).map fun folder => (folder, route)

/-- `_locate`: by the exact task name first, then by the AVID. -/
def locate (tree : Tree) (avidOf : String → Avid) (task : String) (avid : Avid) : Option (PurePath × Route) :=
  match cfg.routes.find? fun route => tree.isDir cwd (route.root.join (PurePath.of task)) with
  | some route => some (route.root.join (PurePath.of task), route)
  | none => findFolderFor cfg cwd tree avidOf avid

/-! ## Folders that may be deleted -/

/-- The folder is strictly inside a route's root. -/
def Inside (folder : PurePath) : Prop :=
  ∃ route ∈ cfg.routes, ∃ first rest, place cwd folder = place cwd route.root ++ first :: rest

/-- The folder is strictly inside a route, and neither is nor contains the source of any. -/
def Download (folder : PurePath) : Prop :=
  Inside cfg cwd folder ∧ ∀ other ∈ cfg.routes, ¬ place cwd folder <+: place cwd other.root

/-- The names lead from the route's source to that of another route, or some way towards it. -/
def OnTheWay (route : Route) (names : List String) : Prop :=
  ∃ other ∈ cfg.routes, route.root.parts ++ names <+: other.root.parts

/-- The names of the routes' directories, route by route and each in order. -/
def listing (tree : Tree) : List (String × Route) :=
  cfg.routes.flatMap fun route => (folders cwd tree route).map fun folder => (name folder, route)

/-- The first listed name that reads as the AVID, if any, is not on the way to another route. -/
def ReadsDownload (tree : Tree) (avidOf : String → Avid) (avid : Avid) : Prop :=
  ∀ before first route after, listing cfg cwd tree = before ++ (first, route) :: after →
    (∀ entry ∈ before, avidOf entry.1 ≠ avid) → avidOf first = avid → ¬ OnTheWay cfg route [first]

/-- What a task may be named where a directory of that name is below the route: a name without `..` is not empty
and not on the way to another route, any other leads below some route and is not on the way from there. -/
def PlainFrom (route : Route) (task : PurePath) : Prop :=
  if task.absolute = false ∧ ".." ∉ task.parts then task.parts ≠ [] ∧ ¬ OnTheWay cfg route task.parts
  else ∃ base ∈ cfg.routes, ∃ first rest,
    task.parts.foldl enter (if task.absolute then [] else place cwd route.root) = place cwd base.root ++ first :: rest ∧
      ¬ OnTheWay cfg base (first :: rest)

/-- The first route below which the task's name is a directory. -/
def NamesDownload (tree : Tree) (task : String) : Prop :=
  ∀ before route after, cfg.routes = before ++ route :: after →
    (∀ earlier ∈ before, tree.isDir cwd (earlier.root.join (PurePath.of task)) = false) →
    tree.isDir cwd (route.root.join (PurePath.of task)) = true → PlainFrom cfg cwd route (PurePath.of task)

/-- Below no route is the task's name a directory. -/
def NamesNothing (tree : Tree) (task : String) : Prop :=
  ∀ route ∈ cfg.routes, tree.isDir cwd (route.root.join (PurePath.of task)) = false

variable {cfg : Config} {cwd : Place}

/-! ## Where the roots lie -/

theorem foldl_enter {parts : List String} (h : ".." ∉ parts) (here : Place) :
    parts.foldl enter here = here ++ parts := by
  induction parts generalizing here with
  | nil => simp
  | cons part rest ih =>
    have hpart : part ≠ ".." := fun e => h (by simp [e])
    have hrest : ".." ∉ rest := fun m => h (List.mem_cons_of_mem _ m)
    simp [enter, hpart, ih hrest]

theorem place_append {absolute : Bool} {parts names : List String} (h : ".." ∉ names) :
    place cwd ⟨absolute, parts ++ names⟩ = place cwd ⟨absolute, parts⟩ ++ names := by
  unfold place start
  rw [List.foldl_append, foldl_enter h]

theorem place_child {dir : PurePath} {name : String} (h : name ≠ "..") : place cwd (dir.child name) = place cwd dir ++ [name] :=
  place_append (by simpa using h.symm)

theorem name_child (dir : PurePath) (n : String) : name (dir.child n) = n := by simp [name, PurePath.child]

theorem mem_routes {route : Route} (h : route ∈ cfg.routes) :
    ∃ entry ∈ cfg.priorityMapping ++ cfg.mapping, route.root = cfg.srcDir.join (PurePath.of entry.1) := by
  simp only [Config.routes, List.mem_append, List.mem_map] at h
  rcases h with ⟨entry, he, rfl⟩ | ⟨entry, he, rfl⟩
  · exact ⟨entry, by simp [he], rfl⟩
  · exact ⟨entry, by simp [he], rfl⟩

/-- Every root is `src_dir` followed by names. -/
theorem root_parts {route : Route} (h : route ∈ cfg.routes) :
    ∃ names, ".." ∉ names ∧ route.root = ⟨cfg.srcDir.absolute, cfg.srcDir.parts ++ names⟩ := by
  obtain ⟨entry, he, hroot⟩ := mem_routes h
  obtain ⟨hrel, hup⟩ := cfg.source_relative entry he
  exact ⟨_, hup, by simp [hroot, PurePath.join, hrel]⟩

theorem root_absolute {route : Route} (h : route ∈ cfg.routes) : route.root.absolute = cfg.srcDir.absolute := by
  obtain ⟨names, -, hroot⟩ := root_parts h
  rw [hroot]

/-- `src_dir` may lead anywhere: below it the routes' roots are compared by their names. -/
theorem place_prefix_iff {route other : Route} (hroute : route ∈ cfg.routes) (hother : other ∈ cfg.routes)
    (rest : List String) :
    place cwd route.root ++ rest <+: place cwd other.root ↔ route.root.parts ++ rest <+: other.root.parts := by
  obtain ⟨names, hup, hroot⟩ := root_parts hroute
  obtain ⟨names', hup', hroot'⟩ := root_parts hother
  rw [hroot, hroot', place_append hup, place_append hup', List.append_assoc, List.append_assoc,
    List.prefix_append_right_inj, List.prefix_append_right_inj]

/-! ## The guard -/

theorem mem_parents {p folder : PurePath} :
    folder ∈ parents p ↔ folder.absolute = p.absolute ∧ folder.parts <+: p.parts ∧ folder.parts ≠ p.parts := by
  simp only [parents, List.mem_map, List.mem_range]
  constructor
  · rintro ⟨n, hn, rfl⟩
    refine ⟨rfl, List.take_prefix _ _, fun e => ?_⟩
    have hlen := congrArg List.length e
    simp only [List.length_take] at hlen
    omega
  · rintro ⟨habs, hpre, hne⟩
    refine ⟨folder.parts.length, ?_, ?_⟩
    · rcases Nat.lt_or_ge folder.parts.length p.parts.length with hlt | hge
      · exact hlt
      · exact absurd (hpre.eq_of_length_le hge) hne
    · rw [← List.prefix_iff_eq_take.1 hpre, ← habs]

theorem coversOtherRoute_iff {folder routeRoot : PurePath} :
    cfg.coversOtherRoute folder routeRoot = true ↔
      ∃ other ∈ cfg.routes, other.root ≠ routeRoot ∧ folder.absolute = other.root.absolute ∧
        folder.parts <+: other.root.parts := by
  simp only [Config.coversOtherRoute, List.any_map, List.any_eq_true, Function.comp, Bool.and_eq_true, Bool.or_eq_true,
    decide_eq_true_eq, mem_parents]
  refine exists_congr fun other => and_congr_right fun _ => and_congr_right fun _ => ?_
  constructor
  · rintro (rfl | ⟨habs, hpre, -⟩)
    · exact ⟨rfl, List.prefix_rfl⟩
    · exact ⟨habs, hpre⟩
  · rintro ⟨habs, hpre⟩
    by_cases e : folder.parts = other.root.parts
    · exact .inl (by cases folder; cases h : other.root; simp_all)
    · exact .inr ⟨habs, hpre, e⟩

/-- Below a route, the guard asks for the names on the way. -/
theorem coversOtherRoute_below {route : Route} (hroute : route ∈ cfg.routes) (first : String) (rest : List String) :
    cfg.coversOtherRoute ⟨route.root.absolute, route.root.parts ++ first :: rest⟩ route.root = true ↔
      OnTheWay cfg route (first :: rest) := by
  rw [coversOtherRoute_iff]
  constructor
  · rintro ⟨other, hother, -, -, hpre⟩
    exact ⟨other, hother, hpre⟩
  · rintro ⟨other, hother, hpre⟩
    have hne : other.root ≠ route.root := fun e => by
      have hlen := hpre.length_le
      rw [e] at hlen
      simp at hlen
    exact ⟨other, hother, hne, by rw [root_absolute hroute, root_absolute hother], hpre⟩

/-- What lies below a route is a download unless it is on the way to another. -/
theorem download_iff {route : Route} (hroute : route ∈ cfg.routes) {folder : PurePath} {first : String} {rest : List String}
    (hplace : place cwd folder = place cwd route.root ++ first :: rest) :
    Download cfg cwd folder ↔ ¬ OnTheWay cfg route (first :: rest) := by
  constructor
  · rintro ⟨-, hclear⟩ ⟨other, hother, hpre⟩
    refine hclear other hother ?_
    rw [hplace, place_prefix_iff hroute hother]
    exact hpre
  · refine fun hway => ⟨⟨route, hroute, first, rest, hplace⟩, fun other hother hpre => hway ⟨other, hother, ?_⟩⟩
    rwa [hplace, place_prefix_iff hroute hother] at hpre

/-! ## What the scans hand over -/

theorem mem_iterdir {tree : Tree} {dir folder : PurePath} (h : folder ∈ tree.iterdir cwd dir) :
    ∃ name, name ≠ ".." ∧ folder = dir.child name := by
  simp only [Tree.iterdir, List.mem_map, List.mem_insertionSort] at h
  obtain ⟨name, hname, rfl⟩ := h
  exact ⟨name, tree.entries_named _ name hname, rfl⟩

/-- An entry of a route is a download exactly when the guard lets it pass. -/
theorem entry_download_iff {tree : Tree} {route : Route} (hroute : route ∈ cfg.routes) {folder : PurePath}
    (h : folder ∈ tree.iterdir cwd route.root) :
    Download cfg cwd folder ↔ cfg.coversOtherRoute folder route.root = false := by
  obtain ⟨name, hname, rfl⟩ := mem_iterdir h
  rw [download_iff hroute (place_child hname), ← coversOtherRoute_below hroute, Bool.not_eq_true]
  rfl

/-- Everything handed over so far was a download. -/
def Spares (cfg : Config) (cwd : Place) (s : Scanned) : Prop := ∀ folder ∈ s.handed, Download cfg cwd folder

theorem spares_append {s : Scanned} (h : Spares cfg cwd s) {folder : PurePath} (hd : Download cfg cwd folder)
    (tree : Tree) : Spares cfg cwd { tree, handed := s.handed ++ [folder] } := by
  intro f hf
  rcases List.mem_append.1 hf with hf | hf
  · exact h f hf
  · rw [List.mem_singleton.1 hf]
    exact hd

theorem foldl_spares {α σ : Type} (scanned : σ → Scanned) {step : σ → α → σ} {l : List α}
    (hstep : ∀ s, ∀ x ∈ l, Spares cfg cwd (scanned s) → Spares cfg cwd (scanned (step s x))) {s : σ}
    (h : Spares cfg cwd (scanned s)) : Spares cfg cwd (scanned (l.foldl step s)) := by
  induction l generalizing s with
  | nil => exact h
  | cons x rest ih =>
    exact ih (fun s y hy => hstep s y (List.mem_cons_of_mem _ hy)) (hstep s x List.mem_cons_self h)

theorem spares_scanRoute (archive : Tree → PurePath → Tree) {route : Route} (hroute : route ∈ cfg.routes)
    {s : Scanned} (h : Spares cfg cwd s) : Spares cfg cwd (scanRoute cfg cwd archive route.root s) := by
  refine foldl_spares id (fun s' folder hf hs => ?_) h
  unfold scanEntry
  split
  · exact hs
  · split
    · exact hs
    · rename_i hguard
      exact spares_append hs ((entry_download_iff hroute hf).2 (by simpa using hguard)) _

theorem spares_archiveRun (archive : Tree → PurePath → Tree) (tree : Tree) :
    Spares cfg cwd (archiveRun cfg cwd archive tree) := by
  refine foldl_spares id (fun s route hroute hs => ?_) (fun _ hf => by cases hf)
  split
  · exact spares_scanRoute archive hroute hs
  · exact hs

theorem spares_reconcileRoute (r : Reconciler) {route : Route} (hroute : route ∈ cfg.routes) {s : Reconciled}
    (h : Spares cfg cwd s.toScanned) : Spares cfg cwd (reconcileRoute cfg cwd r route.root s).toScanned := by
  refine foldl_spares Reconciled.toScanned (fun s' folder hf hs => ?_) h
  unfold reconcileFolder
  split
  · exact hs
  · rename_i hguard
    have hd := (entry_download_iff hroute (List.mem_of_mem_filter hf)).2 (by simpa using hguard)
    split
    · exact hs
    · dsimp only
      split
      · exact spares_append hs hd _
      · exact hs

theorem spares_reconcileRun (r : Reconciler) (seen : List (PurePath × Sighting)) (tree : Tree) :
    Spares cfg cwd (reconcileRun cfg cwd r seen tree).toScanned := by
  refine foldl_spares Reconciled.toScanned (fun s route hroute hs => ?_) (fun _ hf => by cases hf)
  split
  · exact spares_reconcileRoute r hroute hs
  · exact hs

/-! ## What the tracker locates -/

variable {tree : Tree} {avidOf : String → Avid} {avid : Avid}

/-- A directory of a route is below it under the name it has. -/
theorem mem_folders {folder : PurePath} {route : Route} (h : folder ∈ folders cwd tree route) :
    name folder ≠ ".." ∧ folder = route.root.child (name folder) := by
  unfold folders at h
  split at h
  · obtain ⟨n, hn, rfl⟩ := mem_iterdir (List.mem_of_mem_filter h)
    rw [name_child]
    exact ⟨hn, rfl⟩
  · cases h

theorem mem_listing {n : String} {route : Route} (h : (n, route) ∈ listing cfg cwd tree) :
    route ∈ cfg.routes ∧ n ≠ ".." := by
  simp only [listing, List.mem_flatMap, List.mem_map, Prod.mk.injEq] at h
  obtain ⟨other, hother, folder, hfolder, rfl, rfl⟩ := h
  exact ⟨hother, (mem_folders hfolder).1⟩

/-- The search route by route is a search of the whole listing. -/
theorem findFolderFor_eq :
    findFolderFor cfg cwd tree avidOf avid =
      ((listing cfg cwd tree).find? fun entry => avidOf entry.1 = avid).map fun entry => (entry.2.root.child entry.1, entry.2) := by
  unfold findFolderFor listing
  induction cfg.routes with
  | nil => rfl
  | cons route rest ih =>
    rw [List.findSome?_cons, List.flatMap_cons, List.find?_append, List.find?_map, ih]
    cases h : (folders cwd tree route).find? fun folder => avidOf (name folder) = avid with
    | none =>
      have : (folders cwd tree route).find? ((fun entry => decide (avidOf entry.1 = avid)) ∘ fun folder => (name folder, route)) = none := h
      simp only [this, Option.map_none, Option.none_or]
    | some folder =>
      have : (folders cwd tree route).find? ((fun entry => decide (avidOf entry.1 = avid)) ∘ fun folder => (name folder, route)) =
        some folder := h
      simp only [this, Option.map_some, Option.some_or]
      rw [← (mem_folders (List.mem_of_find?_eq_some h)).2]

theorem findFolderFor_iff :
    (∀ found, findFolderFor cfg cwd tree avidOf avid = some found → Download cfg cwd found.1) ↔
      ReadsDownload cfg cwd tree avidOf avid := by
  rw [findFolderFor_eq]
  constructor
  · intro h before first route after hlist hbefore hreads
    have hmem : (first, route) ∈ listing cfg cwd tree := by simp [hlist]
    obtain ⟨hroute, hname⟩ := mem_listing hmem
    refine (download_iff hroute (place_child hname)).1 (h (route.root.child first, route) ?_)
    have : (listing cfg cwd tree).find? (fun entry => avidOf entry.1 = avid) = some (first, route) :=
      List.find?_eq_some_iff_append.2 ⟨by simpa using hreads, before, after, hlist, fun e he => by simpa using hbefore e he⟩
    rw [this]
    rfl
  · intro h found hfound
    obtain ⟨⟨first, route⟩, hfind, rfl⟩ := Option.map_eq_some_iff.1 hfound
    obtain ⟨hroute, hname⟩ := mem_listing (List.mem_of_find?_eq_some hfind)
    obtain ⟨hreads, before, after, hlist, hbefore⟩ := List.find?_eq_some_iff_append.1 hfind
    exact (download_iff hroute (place_child hname)).2
      (h before first route after hlist (fun e he => by simpa using hbefore e he) (by simpa using hreads))

/-- Where a task's name leads from a route. -/
theorem place_join (cwd : List String) (root task : PurePath) :
    place cwd (root.join task) = task.parts.foldl enter (if task.absolute then [] else place cwd root) := by
  unfold PurePath.join place start
  cases habs : task.absolute with
  | true => simp [habs]
  | false => simp [List.foldl_append]

/-- The folder a task's name leads to is a download for the names that are plain, and for no other. -/
theorem plainFrom_iff {route : Route} (hroute : route ∈ cfg.routes) (task : PurePath) :
    Download cfg cwd (route.root.join task) ↔ PlainFrom cfg cwd route task := by
  have hplace := place_join cwd route.root task
  unfold PlainFrom
  split
  · rename_i hplain
    obtain ⟨habs, hup⟩ := hplain
    rw [habs, foldl_enter hup] at hplace
    cases hparts : task.parts with
    | nil =>
      refine iff_of_false (fun hdownload => ?_) fun h => h.1 rfl
      refine hdownload.2 route hroute ?_
      rw [hplace, hparts]
      simp
    | cons first rest =>
      rw [hparts] at hplace
      rw [download_iff hroute hplace]
      simp
  · rw [← hplace]
    constructor
    · rintro hdownload
      obtain ⟨base, hbase, first, rest, hbelow⟩ := hdownload.1
      exact ⟨base, hbase, first, rest, hbelow, (download_iff hbase hbelow).1 hdownload⟩
    · rintro ⟨base, hbase, first, rest, hbelow, hway⟩
      exact (download_iff hbase hbelow).2 hway

theorem locate_iff (task : String) :
    (∀ found, locate cfg cwd tree avidOf task avid = some found → Download cfg cwd found.1) ↔
      NamesDownload cfg cwd tree task ∧ (NamesNothing cfg cwd tree task → ReadsDownload cfg cwd tree avidOf avid) := by
  unfold locate
  cases hnamed : cfg.routes.find? fun route => tree.isDir cwd (route.root.join (PurePath.of task)) with
  | some route =>
    obtain ⟨hdir, before, after, hroutes, hbefore⟩ := List.find?_eq_some_iff_append.1 hnamed
    simp only [Option.some.injEq]
    constructor
    · intro h
      refine ⟨fun b r a hsplit hb hr => ?_, fun hnone => ?_⟩
      · have : cfg.routes.find? (fun route => tree.isDir cwd (route.root.join (PurePath.of task))) = some r :=
          List.find?_eq_some_iff_append.2 ⟨hr, b, a, hsplit, fun e he => by simpa using hb e he⟩
        rw [hnamed, Option.some.injEq] at this
        subst this
        exact (plainFrom_iff (by simp [hsplit]) _).1 (h _ rfl)
      · have := hnone route (by simp [hroutes])
        rw [this] at hdir
        cases hdir
    · rintro ⟨h, -⟩ found rfl
      exact (plainFrom_iff (by simp [hroutes]) _).2 (h before route after hroutes (fun e he => by simpa using hbefore e he) hdir)
  | none =>
    have hnone : NamesNothing cfg cwd tree task := fun route hroute => by
      simpa using List.find?_eq_none.1 hnamed route hroute
    have hname : NamesDownload cfg cwd tree task := fun before route after hroutes _ hr => by
      rw [hnone route (by simp [hroutes])] at hr
      cases hr
    simp only [hname, hnone, true_and, true_implies]
    exact findFolderFor_iff

/-- The scans hand over nothing but downloads, whatever the routes and the tree. The tracker locates a download
exactly when the task is plainly named from the first route that has a directory of its name, and the first listed
name that reads as the AVID, where there is no such route, is not on the way to another one. -/
theorem archives_downloads (cfg : Config) (cwd : Place) :
    (∀ archive tree, ∀ folder ∈ (archiveRun cfg cwd archive tree).handed, Download cfg cwd folder) ∧
    (∀ r seen tree, ∀ folder ∈ (reconcileRun cfg cwd r seen tree).handed, Download cfg cwd folder) ∧
    (∀ tree avidOf avid,
      (∀ found, findFolderFor cfg cwd tree avidOf avid = some found → Download cfg cwd found.1) ↔
        ReadsDownload cfg cwd tree avidOf avid) ∧
    ∀ tree avidOf task avid,
      (∀ found, locate cfg cwd tree avidOf task avid = some found → Download cfg cwd found.1) ↔
        NamesDownload cfg cwd tree task ∧ (NamesNothing cfg cwd tree task → ReadsDownload cfg cwd tree avidOf avid) :=
  ⟨spares_archiveRun, spares_reconcileRun, fun _ _ _ => findFolderFor_iff, fun _ _ task _ => locate_iff task⟩

/-! ## A task named like a nested route -/

namespace Nested

/-- Everything goes to the inbox, one category to a directory inside it. -/
def config : Config where
  srcDir := PurePath.of "/dl"
  priorityMapping := []
  mapping := [("inbox", "library"), ("inbox/pro", "library/pro")]
  source_relative := by decide

def mount : Tree where
  isDirAt dir := [[], ["dl"], ["dl", "inbox"], ["dl", "inbox", "pro"], ["dl", "inbox", "pro", "ABC-123"]].contains dir
  entries dir := if dir = ["dl", "inbox"] then ["pro"] else if dir = ["dl", "inbox", "pro"] then ["ABC-123"] else []
  entries_named dir name h := by
    rintro rfl
    split at h
    · simp at h
    · split at h <;> simp at h

end Nested

/-- CloudDrive reports a finished task named `pro`: the tracker locates the source of the nested route. -/
theorem locates_nested_route :
    ¬ ∀ (cfg : Config) (cwd : Place) (tree : Tree) (avidOf : String → Avid) (task : String) (avid : Avid) found,
      locate cfg cwd tree avidOf task avid = some found → Download cfg cwd found.1 := by
  intro h
  have hfound : locate Nested.config [] Nested.mount id "pro" "DEF-456" =
      some (⟨true, ["dl", "inbox", "pro"]⟩, ⟨⟨true, ["dl", "inbox"]⟩, "library", false⟩) := by decide
  obtain ⟨-, hclear⟩ := h _ _ _ _ _ _ _ hfound
  exact hclear ⟨⟨true, ["dl", "inbox", "pro"]⟩, "library/pro", false⟩ (by decide) (by decide)

end EmbyxManager.Routes
