import EmbyxManager.Monitor.OneCopy
import EmbyxManager.Monitor.TaskDirs
/-!
# What the library shows of a title

`library_holdings`: the paths of an AVID's files in the routes' destinations. Where the
caller's directory feeds a priority route it first takes over what the normal destinations
hold, so a path it shows is not always the one the file had before.
-/

namespace EmbyxManager
open Atom
open TaskDirs (ArchiveConfig routeForTaskDir)

namespace Archive

/-- The route tables, with the brands that are pinned to a directory. -/
def routesOf (cfg : ArchiveConfig) (brandMapping : List (String × List String)) : LibraryRoutes :=
  ⟨cfg.mapping, cfg.priorityMapping, brandMapping⟩

/-- For a directory that feeds a priority route, the promotion that archiving itself would perform. -/
def takeOver (routes : LibraryRoutes) (avid : Avid) (brand : String) : Option (String × Bool) → LibraryM Unit
  | some (dst, true) =>
    if brandRouted routes brand then pure ()
    else
      match findDstDir routes avid dst with
      | none => pure ()
      | some target => promoteFromNormal routes avid target
  | _ => pure ()

/-- One more path, unless it is on the list. -/
def addFound (d : BrandDir) (found : List String) (name : String) : List String :=
  if LibraryFile.display ⟨d, name⟩ ∈ found then found else found ++ [LibraryFile.display ⟨d, name⟩]

/-- The destinations of both tables, priority routes first. -/
def allDestinations (routes : LibraryRoutes) : List String := destinations (routes.priorityMapping ++ routes.mapping)

def foundIn (routes : LibraryRoutes) (avid : Avid) (found : List String) (dst : String) : LibraryM (List String) :=
  match findDstDir routes avid dst with
  | none => pure found
  | some d => do
    let names ← matchingArchived avid d
    pure (names.foldl (addFound d) found)

def libraryHoldings (cfg : ArchiveConfig) (brandMapping : List (String × List String)) (avid : Avid) (taskDirPath : Option String) :
    LibraryM (List String) :=
  let routes := routesOf cfg brandMapping
  match getBrand avid with
  | none => pure []
  | some brand =>
    if brand = "" then pure []
    else do
      takeOver routes avid brand (taskDirPath.bind (routeForTaskDir cfg))
      Prog.foldEach (allDestinations routes) [] (foundIn routes avid)

end Archive

/-! ## The copies -/

/-- A file of the AVID where a route's videos of it go. -/
def Library.Holds (L : Library) (routes : LibraryRoutes) (avid : Avid) (f : LibraryFile) : Prop :=
  f ∈ L.files ∧ belongsTo avid f.name = true ∧ ∃ dst ∈ Archive.allDestinations routes, Archive.findDstDir routes avid dst = some f.dir

section
variable {J : Library → LibraryFile → Prop} {videos : List Video} {L L' : Library} {avid : Avid} {own : BrandDir}
  {routes : LibraryRoutes} {cfg : ArchiveConfig} {brandMapping : List (String × List String)} {paths found : List String}

open Archive

/-- Without a pinned directory, a brand's directory is below the destination. -/
theorem findDstDir_of_not_routed {dst dst' : String} {d : BrandDir} (h : findDstDir routes avid dst = some d)
    (hrouted : brandRouted routes d.brand = false) : findDstDir routes avid dst' = some ⟨dst', d.brand⟩ := by
  unfold findDstDir at h ⊢
  cases hbrand : getBrand avid with
  | none =>
    rw [hbrand] at h
    cases h
  | some brand =>
    rw [hbrand] at h
    dsimp only at h ⊢
    split at h
    · cases h
    · rename_i hne
      have hfind : ∀ b, b = brand → brandRouted routes b = false → routes.brandMapping.find? (fun entry => decide (brand ∈ entry.2)) = none := by
        rintro _ rfl hr
        rw [List.find?_eq_none]
        intro entry hentry hin
        have := List.any_eq_false.1 hr entry hentry
        exact this hin
      rw [if_neg hne]
      split at h
      · rename_i entry hentry
        cases h
        rw [hfind brand rfl hrouted] at hentry
        cases hentry
      · cases h
        rfl

/-- A promotion takes no copy away and adds none. -/
theorem Promoted.holds_iff (h : Promoted routes avid own L L') {dst : String} (hdst : dst ∈ allDestinations routes)
    (hown : findDstDir routes avid dst = some own) (hrouted : brandRouted routes own.brand = false) :
    (∃ f, L'.Holds routes avid f) ↔ ∃ f, L.Holds routes avid f := by
  constructor
  · rintro ⟨f, hf, hb, dst', hdst', hdir⟩
    rcases h.back f hf with hL | ⟨-, hp⟩
    · exact ⟨f, hL, hb, dst', hdst', hdir⟩
    · obtain ⟨dst'', hdst'', -, hn⟩ := promotable_iff.1 hp
      refine ⟨_, (Library.mem_matching.1 hn).1, hb, dst'', ?_, findDstDir_of_not_routed hown hrouted⟩
      simp only [allDestinations, destinations, List.map_append, List.mem_eraseDups, List.mem_append] at hdst'' ⊢
      exact .inr hdst''
  · rintro ⟨f, hf, hb, dst', hdst', hdir⟩
    rcases h.forth f hf with hL | ⟨hL, -⟩
    · exact ⟨f, hL, hb, dst', hdst', hdir⟩
    · exact ⟨_, hL, hb, dst, hdst, hown⟩

theorem addFound_ne_nil {d : BrandDir} {names : List String} (h : found ≠ [] ∨ names ≠ []) : names.foldl (addFound d) found ≠ [] := by
  induction names generalizing found with
  | nil => exact h.resolve_right fun hne => hne rfl
  | cons name names ih =>
    refine ih (.inl ?_)
    unfold addFound
    split
    · rename_i hmem
      exact List.ne_nil_of_mem hmem
    · simp

/-- The search shows something exactly where a copy is. -/
theorem wp_found : (Prog.foldEach (allDestinations routes) [] (foundIn routes avid)).wp (LibraryStep videos) (MayFile J)
    (fun paths L' => L' = L ∧ (paths ≠ [] ↔ ∃ f, L.Holds routes avid f)) NotLet L := by
  refine Prog.wp_foldEach (fun dsts found L' => L' = L ∧ dsts ⊆ allDestinations routes ∧ (found ≠ [] → ∃ f, L.Holds routes avid f) ∧
    ∀ f, L.Holds routes avid f → found ≠ [] ∨ ∃ dst ∈ dsts, findDstDir routes avid dst = some f.dir) ?_ ?_
    ⟨rfl, fun _ h => h, fun h => absurd rfl h, fun f hf => .inr hf.2.2⟩
  · rintro dst dsts found L' ⟨rfl, hsub, hback, hforth⟩
    have hdst := hsub (List.mem_cons_self ..)
    have hsub' : dsts ⊆ allDestinations routes := fun _ h => hsub (List.mem_cons_of_mem _ h)
    unfold foundIn
    cases hdir : findDstDir routes avid dst with
    | none =>
      refine ⟨rfl, hsub', hback, fun f hf => (hforth f hf).imp_right ?_⟩
      rintro ⟨dst', hmem, hdir'⟩
      rcases List.mem_cons.1 hmem with rfl | hmem
      · rw [hdir] at hdir'
        cases hdir'
      · exact ⟨dst', hmem, hdir'⟩
    | some d =>
      refine (Prog.wp_bind _ _).2 (wp_matchingArchived ⟨rfl, hsub', fun hne => ?_, fun f hf => ?_⟩)
      · by_cases hnames : L'.matching avid d = []
        · rw [hnames] at hne
          exact hback hne
        · obtain ⟨name, hname⟩ := List.exists_mem_of_ne_nil _ hnames
          obtain ⟨hf, hb⟩ := Library.mem_matching.1 hname
          exact ⟨⟨d, name⟩, hf, hb, dst, hdst, hdir⟩
      · rcases hforth f hf with hne | ⟨dst', hmem, hdir'⟩
        · exact .inl (addFound_ne_nil (.inl hne))
        · rcases List.mem_cons.1 hmem with rfl | hmem
          · obtain rfl : d = f.dir := Option.some.inj (hdir.symm.trans hdir')
            exact .inl (addFound_ne_nil (.inr (List.ne_nil_of_mem (Library.mem_matching.2 ⟨hf.1, hf.2.1⟩))))
          · exact .inr ⟨dst', hmem, hdir'⟩
  · rintro found L' ⟨rfl, -, hback, hforth⟩
    refine ⟨rfl, hback, fun ⟨f, hf⟩ => (hforth f hf).resolve_right ?_⟩
    rintro ⟨dst, hmem, -⟩
    exact List.not_mem_nil hmem

/-- A directory is matched to a route of one of the tables. -/
theorem routeForTaskDir_dst {path dst : String} {priority : Bool} (h : routeForTaskDir cfg path = some (dst, priority)) :
    dst ∈ allDestinations (routesOf cfg brandMapping) := by
  have hne : TaskDirs.wantedParts path ≠ [] := by
    intro hnil
    simp [routeForTaskDir, hnil] at h
  rw [TaskDirs.routeForTaskDir_eq cfg hne] at h
  obtain ⟨r, hr, heq⟩ := Option.map_eq_some_iff.1 h
  cases heq
  have hmem := List.mem_of_find?_eq_some hr
  simp only [ArchiveConfig.routes, List.mem_append, List.mem_map] at hmem
  simp only [allDestinations, destinations, routesOf, List.map_append, List.mem_eraseDups, List.mem_append, List.mem_map]
  rcases hmem with ⟨entry, he, rfl⟩ | ⟨entry, he, rfl⟩
  · exact .inl ⟨entry, he, rfl⟩
  · exact .inr ⟨entry, he, rfl⟩

theorem findDstDir_brand {dst brand : String} {d : BrandDir} (hbrand : getBrand avid = some brand) (h : findDstDir routes avid dst = some d) :
    d.brand = brand := by
  unfold findDstDir at h
  rw [hbrand] at h
  dsimp only at h
  split at h
  · cases h
  · split at h <;> cases h <;> rfl

/-- What is taken over is held before and after. -/
theorem wp_takeOver {brand : String} (hbrand : getBrand avid = some brand) (taskDirPath : Option String) :
    (takeOver (routesOf cfg brandMapping) avid brand (taskDirPath.bind (routeForTaskDir cfg))).wp (LibraryStep videos) (MayFile J)
      (fun _ L' => (∃ f, L'.Holds (routesOf cfg brandMapping) avid f) ↔ ∃ f, L.Holds (routesOf cfg brandMapping) avid f) NotLet L := by
  cases hroute : taskDirPath.bind (routeForTaskDir cfg) with
  | none => exact .rfl
  | some r =>
    obtain ⟨dst, priority⟩ := r
    cases priority with
    | false => exact .rfl
    | true =>
      obtain ⟨path, -, hpath⟩ := Option.bind_eq_some_iff.1 hroute
      unfold takeOver
      refine Prog.wp_ite (fun _ => .rfl) fun hrouted => ?_
      cases hown : findDstDir (routesOf cfg brandMapping) avid dst with
      | none => exact .rfl
      | some own =>
        refine Prog.wp_mono wp_promoteFromNormal (fun _ L' h => ?_) fun _ _ h => h
        obtain rfl := findDstDir_brand hbrand hown
        exact h.1.holds_iff (routeForTaskDir_dst hpath) hown (by simpa using hrouted)

/-- It shows something exactly where the library, as it finds it, holds a copy. -/
theorem wp_libraryHoldings {taskDirPath : Option String} :
    (libraryHoldings cfg brandMapping avid taskDirPath).wp (LibraryStep videos) (MayFile J)
      (fun paths _ => paths ≠ [] ↔ ∃ f, L.Holds (routesOf cfg brandMapping) avid f) NotLet L := by
  have hlacks : (∀ dst, findDstDir (routesOf cfg brandMapping) avid dst = none) →
      (([] : List String) ≠ [] ↔ ∃ f, L.Holds (routesOf cfg brandMapping) avid f) := by
    intro hdirs
    refine iff_of_false (fun h => h rfl) ?_
    rintro ⟨f, -, -, dst, -, hdir⟩
    rw [hdirs dst] at hdir
    cases hdir
  unfold libraryHoldings
  dsimp only
  cases hbrand : getBrand avid with
  | none => exact hlacks fun dst => by simp [findDstDir, hbrand]
  | some brand =>
    refine Prog.wp_ite (fun hempty => hlacks fun dst => by simp [findDstDir, hbrand, hempty]) fun _ => ?_
    refine (Prog.wp_bind _ _).2 (Prog.wp_mono (wp_takeOver hbrand taskDirPath) (fun _ L₁ h => ?_) fun _ _ h => h)
    exact Prog.wp_mono wp_found (fun _ _ hfound => hfound.2.trans h) fun _ _ h => h

/-- The paths it answers with are of copies that are there. -/
theorem libraryHoldings_shows {taskDirPath : Option String}
    (h : Prog.Runs (LibraryStep videos) L (libraryHoldings cfg brandMapping avid taskDirPath) (.ok paths) L') :
    paths ≠ [] ↔ ∃ f, L.Holds (routesOf cfg brandMapping) avid f := by
  have hshows : (libraryHoldings cfg brandMapping avid taskDirPath).wp (LibraryStep videos) (MayFile fun _ _ => True)
      (fun paths _ => paths ≠ [] ↔ ∃ f, L.Holds (routesOf cfg brandMapping) avid f) NotLet L := wp_libraryHoldings
  have hpaths := Prog.wp_runs_ok hshows h
  exact hpaths

end

end EmbyxManager
