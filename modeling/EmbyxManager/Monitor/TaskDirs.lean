import EmbyxManager.Config.Paths
/-!
# The route an offline directory feeds

CloudDrive names a directory from its own root, the routes are configured below the mount
of the same tree. Two functions match one against the other by the last components of the
path, without knowing where the mount begins, and take the first route that fits.
-/

namespace EmbyxManager.TaskDirs

open Config
open Routes (Place place)

/-! ## The configuration -/

/-- The part of `ArchiveConfig` that says where downloads arrive. -/
structure ArchiveConfig where
  srcDir : String
  mapping : List (String × String)
  priorityMapping : List (String × String)
  deriving DecidableEq

/-- One entry of the route tables. -/
structure IntakeRoute where
  source : String
  dst : String
  priority : Bool
  deriving DecidableEq

/-- `_validate_mapping`; `repr` is Python's. -/
def validateMapping (repr : String → String) (label : String) :
    List (String × String) → List (String × String) → Except String (List (String × String))
  | [], mapping => .ok mapping
  | (src, dst) :: rest, mapping =>
    match normalizeRelativeSubpath (label ++ " source") src with
    | .error e => .error e
    | .ok source =>
      if source ∈ mapping.map (·.1) then
        .error (label ++ " must not repeat the source subdirectory " ++ repr source)
      else
        match normalizeRelativeSubpath (label ++ " destination") dst with
        | .error e => .error e
        | .ok destination => validateMapping repr label rest (mapping ++ [(source, destination)])

namespace ArchiveConfig

/-- `set(self.mapping) & set(self.priority_mapping)`. -/
def overlap (cfg : ArchiveConfig) : List String :=
  (cfg.mapping.map (·.1)).filter fun source => source ∈ cfg.priorityMapping.map (·.1)

/-- `ArchiveConfig.model_validate`: the fields first, then the two tables against each other. `src_dir`
is taken as it is. An error names its field, that of the model names none. -/
def validate (repr : String → String) (raw : ArchiveConfig) : Except (List (Option String × String)) ArchiveConfig :=
  match validateMapping repr "archive.mapping" raw.mapping [],
    validateMapping repr "archive.priority_mapping" raw.priorityMapping [] with
  | .ok mapping, .ok priorityMapping =>
    let cfg : ArchiveConfig := ⟨raw.srcDir, mapping, priorityMapping⟩
    if cfg.overlap = [] then .ok cfg
    else .error [(none, "archive.mapping and archive.priority_mapping must not share the source subdirectory " ++
      String.intercalate ", " ((cfg.overlap.insertionSort (· ≤ ·)).map repr))]
  | .error e, .ok _ => .error [(some "mapping", e)]
  | .ok _, .error e => .error [(some "priority_mapping", e)]
  | .error e, .error e' => .error [(some "mapping", e), (some "priority_mapping", e')]

/-- Priority routes first, as both functions go through them. -/
def routes (cfg : ArchiveConfig) : List IntakeRoute :=
  cfg.priorityMapping.map (fun entry => ⟨entry.1, entry.2, true⟩) ++
    cfg.mapping.map fun entry => ⟨entry.1, entry.2, false⟩

/-- `src_dir / source`. -/
def sourcePath (cfg : ArchiveConfig) (source : String) : PosixPath := (PosixPath.of cfg.srcDir).join (PosixPath.of source)

end ArchiveConfig

/-! ## Matching -/

/-- `len(parts) >= len(wanted) and parts[len(parts) - len(wanted) :] == wanted`. -/
def endsIn (parts wanted : List String) : Bool :=
  decide (wanted.length ≤ parts.length) && decide (parts.drop (parts.length - wanted.length) = wanted)

/-- The components to look for: the root goes when it is one slash. -/
def wantedParts (taskDirPath : String) : List String :=
  match (PosixPath.of taskDirPath).parts with
  | "/" :: rest => rest
  | parts => parts

/-- `ArchivePipeline.route_for_task_dir`. -/
def routeForTaskDir (cfg : ArchiveConfig) (taskDirPath : String) : Option (String × Bool) :=
  let wanted := wantedParts taskDirPath
  if wanted = [] then none
  else
    [(cfg.priorityMapping, true), (cfg.mapping, false)].findSome? fun (table, priority) =>
      (table.find? fun entry => endsIn (cfg.sourcePath entry.1).parts wanted).map fun entry => (entry.2, priority)

/-- `route_sources`. -/
def routeSources (cfg : ArchiveConfig) : List String := cfg.priorityMapping.map (·.1) ++ cfg.mapping.map (·.1)

/-- `merge.detect.source_for_task_dir`. -/
def sourceForTaskDir (cfg : ArchiveConfig) (taskDirPath : Option String) : Option String :=
  match taskDirPath with
  | none => none
  | some path =>
    if path = "" ∨ cfg.srcDir = "" then none
    else
      let wanted := (PosixPath.of path).parts.drop 1
      if wanted = [] then none else (routeSources cfg).find? fun source => endsIn (cfg.sourcePath source).parts wanted

theorem endsIn_iff {parts wanted : List String} : endsIn parts wanted = true ↔ wanted <:+ parts := by
  unfold endsIn
  rw [Bool.and_eq_true, decide_eq_true_eq, decide_eq_true_eq]
  constructor
  · rintro ⟨-, h⟩
    exact List.suffix_iff_eq_drop.2 h.symm
  · intro h
    exact ⟨h.length_le, (List.suffix_iff_eq_drop.1 h).symm⟩

theorem routeForTaskDir_eq (cfg : ArchiveConfig) {path : String} (h : wantedParts path ≠ []) :
    routeForTaskDir cfg path =
      (cfg.routes.find? fun r => endsIn (cfg.sourcePath r.source).parts (wantedParts path)).map fun r =>
        (r.dst, r.priority) := by
  unfold routeForTaskDir ArchiveConfig.routes
  rw [if_neg h, List.findSome?_cons, List.findSome?_singleton, List.find?_append, List.find?_map, List.find?_map]
  simp only [Function.comp_def]
  cases cfg.priorityMapping.find? fun entry => endsIn (cfg.sourcePath entry.1).parts (wantedParts path) with
  | some entry => rfl
  | none =>
    cases cfg.mapping.find? fun entry => endsIn (cfg.sourcePath entry.1).parts (wantedParts path) with
    | some entry => rfl
    | none => rfl

theorem routeSources_eq (cfg : ArchiveConfig) : routeSources cfg = cfg.routes.map (·.source) := by
  simp [routeSources, ArchiveConfig.routes, Function.comp_def]

/-! ## What the validators promise -/

/-- A source as it is stored: relative, going up nowhere, and written the one way. -/
structure Source (source : String) : Prop where
  relative : (PosixPath.of source).root = ""
  noUp : ".." ∉ (PosixPath.of source).names
  written : (PosixPath.of source).str = source

/-- A table as it is stored. -/
structure Table (table : List (String × String)) : Prop where
  nodup : (table.map (·.1)).Nodup
  sources : ∀ entry ∈ table, Source entry.1

theorem Table.append {table : List (String × String)} (h : Table table) {source destination : String}
    (hnew : source ∉ table.map (·.1)) (hs : Source source) : Table (table ++ [(source, destination)]) := by
  constructor
  · rw [List.map_append, List.map_singleton]
    exact List.nodup_append.2 ⟨h.nodup, List.nodup_singleton _, fun a ha b hb e => hnew (by
      have hsame : a = source := e.trans (List.mem_singleton.1 hb)
      rwa [← hsame])⟩
  · intro entry he
    rcases List.mem_append.1 he with he | he
    · exact h.sources entry he
    · rw [List.mem_singleton.1 he]
      exact hs

theorem validateMapping_ok {repr : String → String} {label : String} {value mapping table : List (String × String)}
    (hmapping : Table mapping) (h : validateMapping repr label value mapping = .ok table) : Table table := by
  induction value generalizing mapping with
  | nil =>
    cases h
    exact hmapping
  | cons entry rest ih =>
    obtain ⟨src, dst⟩ := entry
    unfold validateMapping at h
    cases hsource : normalizeRelativeSubpath (label ++ " source") src with
    | error e => simp [hsource] at h
    | ok source =>
      rw [hsource] at h
      dsimp only at h
      split at h
      · cases h
      · rename_i hnew
        cases hdst : normalizeRelativeSubpath (label ++ " destination") dst with
        | error e => simp [hdst] at h
        | ok destination =>
          rw [hdst] at h
          obtain ⟨hroot, hup, hstr⟩ := normalizeRelativeSubpath_ok hsource
          exact ih (hmapping.append hnew ⟨hroot, hup, hstr⟩) h

namespace ArchiveConfig

/-- The routes of a configuration that was let through. -/
structure Valid (cfg : ArchiveConfig) : Prop where
  nodup : (cfg.routes.map (·.source)).Nodup
  sources : ∀ r ∈ cfg.routes, Source r.source

theorem validate_ok {repr : String → String} {raw cfg : ArchiveConfig} (h : raw.validate repr = .ok cfg) : cfg.Valid := by
  have hempty : Table [] := ⟨List.nodup_nil, fun _ he => by cases he⟩
  unfold validate at h
  split at h
  · rename_i mapping priorityMapping hmapping hpriority
    dsimp only at h
    split at h
    · rename_i hoverlap
      cases h
      have hm := validateMapping_ok hempty hmapping
      have hp := validateMapping_ok hempty hpriority
      rw [overlap, List.filter_eq_nil_iff] at hoverlap
      constructor
      · rw [routes, List.map_append, List.map_map, List.map_map]
        refine List.nodup_append.2 ⟨hp.nodup, hm.nodup, fun a ha b hb e => ?_⟩
        have hnot : b ∉ priorityMapping.map (·.1) := by simpa using hoverlap b hb
        exact hnot (e ▸ ha)
      · intro r hr
        rcases List.mem_append.1 hr with hr | hr
        · obtain ⟨entry, he, rfl⟩ := List.mem_map.1 hr
          exact hp.sources entry he
        · obtain ⟨entry, he, rfl⟩ := List.mem_map.1 hr
          exact hm.sources entry he
    · cases h
  · cases h
  · cases h
  · cases h

variable {cfg : ArchiveConfig}

theorem sourcePath_eq {source : String} (h : Source source) : cfg.sourcePath source =
    ⟨(PosixPath.of cfg.srcDir).root, (PosixPath.of cfg.srcDir).names ++ (PosixPath.of source).names⟩ := by
  unfold sourcePath PosixPath.join
  rw [if_pos h.relative]

/-- Two routes with one source path are the same route. -/
theorem Valid.route_inj (h : cfg.Valid) {r r' : IntakeRoute} (hr : r ∈ cfg.routes) (hr' : r' ∈ cfg.routes)
    (hpath : cfg.sourcePath r.source = cfg.sourcePath r'.source) : r = r' := by
  have hs := h.sources r hr
  have hs' := h.sources r' hr'
  rw [sourcePath_eq hs, sourcePath_eq hs', PosixPath.mk.injEq, List.append_cancel_left_eq] at hpath
  have hof : PosixPath.of r.source = PosixPath.of r'.source :=
    PosixPath.ext (hs.relative.trans hs'.relative.symm) hpath.2
  have hsource : r.source = r'.source := by rw [← hs.written, ← hs'.written, hof]
  exact List.inj_on_of_nodup_map h.nodup hr hr' hsource

end ArchiveConfig

/-! ## First matches -/

/-- Of routes told apart by their sources the first match is this one, exactly when it matches and none
before it does. -/
theorem find_source_iff {routes before after : List IntakeRoute} {r : IntakeRoute} {matching : IntakeRoute → Bool}
    (hnodup : (routes.map (·.source)).Nodup) (hsplit : routes = before ++ r :: after) :
    (routes.find? matching).map (·.source) = some r.source ↔ matching r = true ∧ ∀ e ∈ before, matching e = false := by
  constructor
  · intro h
    have hother : ∀ e ∈ before ++ after, e.source ≠ r.source := by
      rw [hsplit, List.map_append, List.map_cons] at hnodup
      have hnot := (List.nodup_middle.1 hnodup)
      intro e he hsame
      refine (List.nodup_cons.1 hnot).1 ?_
      rw [← List.map_append, ← hsame]
      exact List.mem_map_of_mem he
    rw [hsplit, List.find?_append] at h
    cases hbefore : before.find? matching with
    | some e =>
      rw [hbefore] at h
      exact absurd (Option.some.inj h) (hother e (List.mem_append_left _ (List.mem_of_find?_eq_some hbefore)))
    | none =>
      refine ⟨?_, fun e he => by simpa using List.find?_eq_none.1 hbefore e he⟩
      by_contra hmatch
      rw [hbefore, Option.none_or, List.find?_cons_of_neg hmatch] at h
      obtain ⟨e, hfind, hsource⟩ := Option.map_eq_some_iff.1 h
      exact hother e (List.mem_append_right _ (List.mem_of_find?_eq_some hfind)) hsource
  · rintro ⟨hmatch, hnone⟩
    rw [hsplit, List.find?_append, List.find?_eq_none.2 (fun e he => by simp [hnone e he]), Option.none_or,
      List.find?_cons_of_pos hmatch]
    rfl

/-! ## The directory and the route -/

section feeds
variable {cfg : ArchiveConfig} {path : String}

/-- A root is no component. -/
theorem suffix_parts_iff {p : PosixPath} (hp : p.WellFormed) {names : List String}
    (h : ∀ name ∈ names, PathComponent name) : names <:+ p.parts ↔ names <:+ p.names := by
  unfold PosixPath.parts
  split
  · exact Iff.rfl
  · rename_i hroot
    rw [List.suffix_cons_iff]
    refine or_iff_right fun heq => ?_
    have hslash := (h p.root (heq ▸ List.mem_cons_self)).noSlash
    rcases hp.root with hr | hr | hr
    · exact hroot hr
    · exact hslash (by rw [hr]; decide)
    · exact hslash (by rw [hr]; decide)

theorem sourcePath_wellFormed (hcfg : cfg.Valid) {r : IntakeRoute} (hr : r ∈ cfg.routes) :
    (cfg.sourcePath r.source).WellFormed := by
  rw [ArchiveConfig.sourcePath_eq (hcfg.sources r hr)]
  refine ⟨(PosixPath.wellFormed_of _).root, fun name hname => ?_⟩
  rcases List.mem_append.1 hname with h | h
  · exact (PosixPath.wellFormed_of _).names name h
  · exact (PosixPath.wellFormed_of _).names name h

/-- A path with two slashes for its root ends nothing but itself. -/
theorem suffix_parts_root_iff {p q : PosixPath} (hp : p.WellFormed) (hq : q.root = "//") :
    q.parts <:+ p.parts ↔ p = q := by
  have hparts : q.parts = "//" :: q.names := by
    unfold PosixPath.parts
    rw [if_neg (by rw [hq]; decide), hq]
  rw [hparts]
  constructor
  · intro h
    have hnot : ¬("//" :: q.names) <:+ p.names := fun hs =>
      (hp.names "//" (hs.subset List.mem_cons_self)).noSlash (by decide)
    unfold PosixPath.parts at h
    split at h
    · exact absurd h hnot
    · rcases List.suffix_cons_iff.1 h with heq | hs
      · obtain ⟨hroot, hnames⟩ := List.cons.inj heq
        exact PosixPath.ext (hroot.symm.trans hq.symm) hnames.symm
      · exact absurd hs hnot
  · rintro rfl
    exact ⟨[], hparts.symm⟩

theorem sourceForTaskDir_iff (hcfg : cfg.Valid) (hpath : (PosixPath.of path).root ≠ "")
    {before after : List IntakeRoute} {r : IntakeRoute} (hsplit : cfg.routes = before ++ r :: after) :
    sourceForTaskDir cfg (some path) = some r.source ↔
      cfg.srcDir ≠ "" ∧ (PosixPath.of path).names ≠ [] ∧ (PosixPath.of path).names <:+ (cfg.sourcePath r.source).names ∧
        ∀ e ∈ before, ¬(PosixPath.of path).names <:+ (cfg.sourcePath e.source).names := by
  have hset : path ≠ "" := by
    rintro rfl
    exact hpath rfl
  have hdrop : (PosixPath.of path).parts.drop 1 = (PosixPath.of path).names := by
    unfold PosixPath.parts
    rw [if_neg hpath]
    rfl
  have hends : ∀ e ∈ cfg.routes, endsIn (cfg.sourcePath e.source).parts (PosixPath.of path).names = true ↔
      (PosixPath.of path).names <:+ (cfg.sourcePath e.source).names := fun e he => by
    rw [endsIn_iff, suffix_parts_iff (sourcePath_wellFormed hcfg he) (PosixPath.wellFormed_of path).names]
  unfold sourceForTaskDir
  dsimp only
  by_cases hsrc : cfg.srcDir = ""
  · simp [hsrc]
  rw [if_neg (by simp [hset, hsrc]), hdrop]
  by_cases hnames : (PosixPath.of path).names = []
  · simp [hnames]
  rw [if_neg hnames, routeSources_eq, List.find?_map, find_source_iff hcfg.nodup hsplit]
  have hr : r ∈ cfg.routes := hsplit ▸ List.mem_append_right _ List.mem_cons_self
  simp only [Function.comp, hends r hr, Bool.eq_false_iff, ne_eq, hsrc, hnames, not_false_eq_true, true_and]
  refine and_congr_right fun _ => forall_congr' fun e => imp_congr_right fun he => ?_
  rw [hends e (hsplit ▸ List.mem_append_left _ he)]

/-- Where the source of a route lies. -/
theorem place_sourcePath (hcfg : cfg.Valid) {r : IntakeRoute} (hr : r ∈ cfg.routes) (cwd : Place) :
    place cwd (cfg.sourcePath r.source).pure =
      place cwd (PosixPath.of cfg.srcDir).pure ++ (PosixPath.of r.source).names := by
  rw [ArchiveConfig.sourcePath_eq (hcfg.sources r hr)]
  exact Routes.place_append (hcfg.sources r hr).noUp

/-- The components of a directory that feeds a route end the route's source as it is written, when
`src_dir` as it is written ends in what leads to it from the mount. -/
theorem suffix_of_feeds (hcfg : cfg.Valid) {r : IntakeRoute} (hr : r ∈ cfg.routes) {cwd mount below : Place}
    (hmount : place cwd (PosixPath.of cfg.srcDir).pure = mount ++ below)
    (hfeeds : place cwd (cfg.sourcePath r.source).pure = mount ++ (PosixPath.of path).names) :
    (PosixPath.of path).names <:+ (cfg.sourcePath r.source).names ↔ below <:+ (PosixPath.of cfg.srcDir).names := by
  rw [place_sourcePath hcfg hr, hmount, List.append_assoc, List.append_cancel_left_eq] at hfeeds
  rw [ArchiveConfig.sourcePath_eq (hcfg.sources r hr), ← hfeeds]
  constructor
  · rintro ⟨front, h⟩
    rw [← List.append_assoc, List.append_cancel_right_eq] at h
    exact ⟨front, h⟩
  · rintro ⟨front, h⟩
    exact ⟨front, by rw [← List.append_assoc, h]⟩

theorem wantedParts_slash (hpath : (PosixPath.of path).root = "/") :
    wantedParts path = (PosixPath.of path).names := by
  unfold wantedParts PosixPath.parts
  rw [if_neg (by rw [hpath]; decide), hpath]
  rfl

theorem wantedParts_slashes (hpath : (PosixPath.of path).root = "//") :
    wantedParts path = (PosixPath.of path).parts := by
  have hparts : (PosixPath.of path).parts = "//" :: (PosixPath.of path).names := by
    unfold PosixPath.parts
    rw [if_neg (by rw [hpath]; decide), hpath]
  unfold wantedParts
  rw [hparts]
  rfl

/-- Written with one slash, the directory finds the first route whose source ends in its components. -/
theorem routeForTaskDir_slash (hcfg : cfg.Valid) (hpath : (PosixPath.of path).root = "/")
    {before after : List IntakeRoute} {r : IntakeRoute} (hsplit : cfg.routes = before ++ r :: after)
    (hnames : (PosixPath.of path).names ≠ []) (hr : (PosixPath.of path).names <:+ (cfg.sourcePath r.source).names)
    (hbefore : ∀ e ∈ before, ¬(PosixPath.of path).names <:+ (cfg.sourcePath e.source).names) :
    routeForTaskDir cfg path = some (r.dst, r.priority) := by
  have hwanted := wantedParts_slash hpath
  have hends : ∀ e ∈ cfg.routes, endsIn (cfg.sourcePath e.source).parts (wantedParts path) = true ↔
      (PosixPath.of path).names <:+ (cfg.sourcePath e.source).names := fun e he => by
    rw [hwanted, endsIn_iff, suffix_parts_iff (sourcePath_wellFormed hcfg he) (PosixPath.wellFormed_of path).names]
  have hmem : r ∈ cfg.routes := hsplit ▸ List.mem_append_right _ List.mem_cons_self
  have hfind : cfg.routes.find? (fun e => endsIn (cfg.sourcePath e.source).parts (wantedParts path)) = some r := by
    refine List.find?_eq_some_iff_append.2 ⟨(hends r hmem).2 hr, before, after, hsplit, fun e he => ?_⟩
    have hnot := mt (hends e (hsplit ▸ List.mem_append_left _ he)).1 (hbefore e he)
    simpa using hnot
  rw [routeForTaskDir_eq cfg (by rwa [hwanted]), hfind]
  rfl

/-- Written with two, it finds the route whose source is this very path. -/
theorem routeForTaskDir_slashes_iff (hcfg : cfg.Valid) (hpath : (PosixPath.of path).root = "//") {dst : String}
    {priority : Bool} : routeForTaskDir cfg path = some (dst, priority) ↔
      ∃ e ∈ cfg.routes, cfg.sourcePath e.source = PosixPath.of path ∧ e.dst = dst ∧ e.priority = priority := by
  have hwanted := wantedParts_slashes hpath
  have hne : wantedParts path ≠ [] := by
    rw [hwanted, PosixPath.parts, if_neg (by rw [hpath]; decide)]
    exact List.cons_ne_nil _ _
  have hends : ∀ e ∈ cfg.routes, endsIn (cfg.sourcePath e.source).parts (wantedParts path) = true ↔
      cfg.sourcePath e.source = PosixPath.of path := fun e he => by
    rw [hwanted, endsIn_iff, suffix_parts_root_iff (sourcePath_wellFormed hcfg he) hpath]
  rw [routeForTaskDir_eq cfg hne, Option.map_eq_some_iff]
  constructor
  · rintro ⟨e, hfind, hroute⟩
    have he := List.mem_of_find?_eq_some hfind
    exact ⟨e, he, (hends e he).1 (by simpa using List.find?_some hfind), congrArg Prod.fst hroute,
      congrArg Prod.snd hroute⟩
  · rintro ⟨e, he, hsource, rfl, rfl⟩
    cases hfind : cfg.routes.find? fun r => endsIn (cfg.sourcePath r.source).parts (wantedParts path) with
    | none => exact absurd ((hends e he).2 hsource) (by simpa using List.find?_eq_none.1 hfind e he)
    | some e' =>
      have he' := List.mem_of_find?_eq_some hfind
      have hsource' := (hends e' he').1 (by simpa using List.find?_some hfind)
      exact ⟨e', rfl, by rw [hcfg.route_inj he' he (hsource'.trans hsource.symm)]⟩

end feeds

/-- A directory that feeds a route through the mount leads both functions to that route exactly when
`src_dir` is written with the way down from the mount, the directory is below the root of the cloud, no
earlier route ends in its components, and, should it be written with two slashes, a route that files
the same way has just this path for its source. -/
theorem task_dir_finds_route_iff {repr : String → String} {raw cfg : ArchiveConfig}
    (hcfg : raw.validate repr = .ok cfg) {name value path : String} (hpath : normalizeAbsolutePath name value = .ok path)
    (hset : path ≠ "") {cwd mount below : Place} (hmount : place cwd (PosixPath.of cfg.srcDir).pure = mount ++ below)
    {before after : List IntakeRoute} {r : IntakeRoute} (hsplit : cfg.routes = before ++ r :: after)
    (hfeeds : place cwd (cfg.sourcePath r.source).pure = mount ++ (PosixPath.of path).names) :
    routeForTaskDir cfg path = some (r.dst, r.priority) ∧ sourceForTaskDir cfg (some path) = some r.source ↔
      cfg.srcDir ≠ "" ∧ below <:+ (PosixPath.of cfg.srcDir).names ∧ (PosixPath.of path).names ≠ [] ∧
        (∀ e ∈ before, ¬(PosixPath.of path).names <:+ (cfg.sourcePath e.source).names) ∧
        ((PosixPath.of path).root = "//" →
          ∃ e ∈ cfg.routes, cfg.sourcePath e.source = PosixPath.of path ∧ e.dst = r.dst ∧ e.priority = r.priority) := by
  have hcfg := ArchiveConfig.validate_ok hcfg
  have hroot := (normalizeAbsolutePath_ok hpath hset).1
  have hr : r ∈ cfg.routes := hsplit ▸ List.mem_append_right _ List.mem_cons_self
  rw [sourceForTaskDir_iff hcfg hroot hsplit, suffix_of_feeds hcfg hr hmount hfeeds]
  constructor
  · rintro ⟨hroute, hsrc, hnames, hbelow, hbefore⟩
    exact ⟨hsrc, hbelow, hnames, hbefore, fun hslashes => (routeForTaskDir_slashes_iff hcfg hslashes).1 hroute⟩
  · rintro ⟨hsrc, hbelow, hnames, hbefore, htwo⟩
    refine ⟨?_, hsrc, hnames, hbelow, hbefore⟩
    rcases (PosixPath.wellFormed_of path).root with h | h | h
    · exact absurd h hroot
    · exact routeForTaskDir_slash hcfg h hsplit hnames ((suffix_of_feeds hcfg hr hmount hfeeds).2 hbelow) hbefore
    · exact (routeForTaskDir_slashes_iff hcfg h).2 (htwo h)

/-! ## An earlier route with the same last component -/

namespace Nested

/-- Two routes, the second fed by the cloud's own `/intake`. -/
def config : ArchiveConfig := ⟨"/mnt/cloud", [("other/intake", "others"), ("intake", "library")], []⟩

theorem config_valid : config.validate id = .ok config := by decide

theorem config_mounted : place [] (PosixPath.of config.srcDir).pure = ["mnt", "cloud"] ++ [] := by decide

theorem accepted : normalizeAbsolutePath "directory" "/other/intake" = .ok "/other/intake" := by decide

theorem config_routes :
    config.routes = [] ++ ⟨"other/intake", "others", false⟩ :: [⟨"intake", "library", false⟩] := rfl

theorem feeds : place [] (config.sourcePath "other/intake").pure =
    ["mnt", "cloud"] ++ (PosixPath.of "/other/intake").names := by decide

end Nested

/-- The theorem where the first of two nested routes is fed. -/
theorem task_dir_finds_route_first :
    routeForTaskDir Nested.config "/other/intake" = some ("others", false) ∧
        sourceForTaskDir Nested.config (some "/other/intake") = some "other/intake" ↔
      Nested.config.srcDir ≠ "" ∧ [] <:+ (PosixPath.of Nested.config.srcDir).names ∧
        (PosixPath.of "/other/intake").names ≠ [] ∧
        (∀ e ∈ ([] : List IntakeRoute),
          ¬(PosixPath.of "/other/intake").names <:+ (Nested.config.sourcePath e.source).names) ∧
        ((PosixPath.of "/other/intake").root = "//" → ∃ e ∈ Nested.config.routes,
          Nested.config.sourcePath e.source = PosixPath.of "/other/intake" ∧ e.dst = "others" ∧ e.priority = false) :=
  task_dir_finds_route_iff Nested.config_valid Nested.accepted (by decide) Nested.config_mounted Nested.config_routes
    Nested.feeds

/-- `/intake` feeds the second route, and is taken for the first. -/
theorem task_dir_finds_other_route :
    ¬∀ (repr : String → String) (raw cfg : ArchiveConfig) (name value path : String) (cwd mount below : Place)
      (before after : List IntakeRoute) (r : IntakeRoute), raw.validate repr = .ok cfg →
      normalizeAbsolutePath name value = .ok path → path ≠ "" →
      place cwd (PosixPath.of cfg.srcDir).pure = mount ++ below → cfg.routes = before ++ r :: after →
      place cwd (cfg.sourcePath r.source).pure = mount ++ (PosixPath.of path).names →
      routeForTaskDir cfg path = some (r.dst, r.priority) ∧ sourceForTaskDir cfg (some path) = some r.source := by
  intro h
  have hboth := h id Nested.config Nested.config "directory" "/intake" "/intake" [] ["mnt", "cloud"] []
    [⟨"other/intake", "others", false⟩] [] ⟨"intake", "library", false⟩ Nested.config_valid (by decide)
    (by decide) (by decide) (by decide) (by decide)
  have hfound : routeForTaskDir Nested.config "/intake" = some ("others", false) := by decide
  rw [hfound] at hboth
  exact absurd hboth.1 (by decide)

end EmbyxManager.TaskDirs
