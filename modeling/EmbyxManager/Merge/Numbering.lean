import EmbyxManager.Merge.Detect
/-!
# Which parts a complete title merges

A title is complete when no number up to the highest is missing. Two files with one number,
a file with number zero and two strm files that name one video all count as parts, and all
of them go into the merged file.
-/

namespace EmbyxManager.Merge

open Atom Atom.Grouping Config Prog

/-! ## Numbers -/

theorem le_highest {indexes : List Nat} {i : Nat} (h : i ∈ indexes) : i ≤ highest indexes := by
  have hle : ∀ (l : List Nat) (m : Nat), m ≤ l.foldl max m ∧ ∀ i ∈ l, i ≤ l.foldl max m := by
    intro l
    induction l with
    | nil => exact fun m => ⟨Nat.le_refl m, fun i hi => by cases hi⟩
    | cons j l ih =>
      intro m
      obtain ⟨hm, hl⟩ := ih (max m j)
      refine ⟨Nat.le_trans (Nat.le_max_left m j) hm, fun i hi => ?_⟩
      rcases List.mem_cons.1 hi with rfl | hi
      · exact Nat.le_trans (Nat.le_max_right m i) hm
      · exact hl i hi
  exact (hle indexes 0).2 i h

/-- Of numbers in order none of which is missing: they count from one exactly when none stands twice
and none is zero. -/
theorem counted_iff {indexes : List Nat} (hsorted : indexes.Pairwise (· ≤ ·)) (hall : missing indexes = []) :
    indexes = List.range' 1 indexes.length ↔ indexes.Nodup ∧ 0 ∉ indexes := by
  constructor
  · intro h
    rw [h]
    exact ⟨List.nodup_range', fun h0 => by have := (List.mem_range'_1.1 h0).1; omega⟩
  · rintro ⟨hnodup, hzero⟩
    have hmem : ∀ i, i ∈ indexes ↔ i ∈ List.range' 1 (highest indexes) := by
      intro i
      constructor
      · intro hi
        have hne : i ≠ 0 := fun e => hzero (e ▸ hi)
        have hle := le_highest hi
        exact List.mem_range'_1.2 ⟨by omega, by omega⟩
      · intro hi
        have hnot := List.filter_eq_nil_iff.1 hall i hi
        simpa using hnot
    have heq : indexes = List.range' 1 (highest indexes) :=
      ((List.perm_ext_iff_of_nodup hnodup List.nodup_range').2 hmem).eq_of_pairwise'
        hsorted (List.Pairwise.imp Nat.le_of_lt List.pairwise_lt_range')
    have hlen := congrArg List.length heq
    rw [List.length_range'] at hlen
    rw [hlen]
    exact heq

/-! ## The files of a title -/

namespace StrmTree

/-- The video a strm names. -/
def fileOf (tree : StrmTree) (dir : Path) (name : String) : Path :=
  (PosixPath.of ((readStrm (tree.read dir name)).getD "")).names

/-- The strm files that are parts of a title: the number in the name, and the video inside. -/
def partsOf (py : Casing) (tree : StrmTree) (directory avid : String) : List (Nat × Path) :=
  tree.dirs.flatMap fun (dir, names) => names.filterMap fun name =>
    (partName name).bind fun (stem, index) =>
      if shownBelow dir = directory ∧ py.upper stem = avid then some (index, tree.fileOf dir name) else none

end StrmTree

theorem shownBelow_inj {a b : Path} (ha : ∀ name ∈ a, PathComponent name) (hb : ∀ name ∈ b, PathComponent name)
    (h : shownBelow a = shownBelow b) : a = b := by
  have hof := congrArg PosixPath.of h
  unfold shownBelow at hof
  rw [PosixPath.of_str ⟨.inl rfl, ha⟩, PosixPath.of_str ⟨.inl rfl, hb⟩] at hof
  exact congrArg PosixPath.names hof

section scan
variable {py : Casing} {tree : StrmTree} {libraryRoot : String} {title : MultipartTitle}

/-- What stands under a directory and a stem, with the video each strm names. -/
theorem groupOf_partFiles {dir : Path} (hdir : ∀ name ∈ dir, PathComponent name) (stem : String) :
    (groupOf (dir, stem) (tree.partFiles py)).map (fun entry => (entry.1, tree.fileOf dir entry.2)) =
      tree.partsOf py (shownBelow dir) stem := by
  unfold groupOf StrmTree.partFiles StrmTree.partsOf
  rw [List.filter_flatMap, List.map_flatMap, List.map_flatMap]
  refine List.flatMap_congr fun d hd => ?_
  rw [List.filter_filterMap, List.map_filterMap, List.map_filterMap]
  refine List.filterMap_congr fun name _ => ?_
  have hsame : d.1 = dir ↔ shownBelow d.1 = shownBelow dir :=
    ⟨fun e => congrArg shownBelow e, shownBelow_inj (tree.dirs_named d hd) hdir⟩
  cases partName name with
  | none => rfl
  | some found =>
    obtain ⟨stem', index⟩ := found
    by_cases hkey : d.1 = dir ∧ py.upper stem' = stem
    · obtain ⟨rfl, rfl⟩ := hkey
      simp
    · have hkey' : ¬(shownBelow d.1 = shownBelow dir ∧ py.upper stem' = stem) := fun h => hkey ⟨hsame.2 h.1, h.2⟩
      simp [hkey, hkey']

theorem titleOf_read (tree : StrmTree) (libraryRoot : PosixPath) (dir : Path) (stem : String)
    (entries : List (Nat × String)) (whole : Bool) :
    let title := titleOf tree libraryRoot dir stem entries whole
    title.avid = stem ∧ title.directory = shownBelow dir ∧ title.missing = missing (entries.map (·.1)) ∧
      title.parts = entries.map fun entry =>
        ⟨entry.1, shownBelow (dir ++ [entry.2]), (readStrm (tree.read dir entry.2)).getD ""⟩ := by
  intro title
  unfold title titleOf
  dsimp only
  split
  · exact ⟨rfl, rfl, rfl, rfl⟩
  · exact ⟨rfl, rfl, rfl, rfl⟩

theorem mem_dirs_of_group {dir : Path} {stem : String} (h : groupOf (dir, stem) (tree.partFiles py) ≠ []) :
    ∃ d ∈ tree.dirs, d.1 = dir := by
  obtain ⟨entry, hentry⟩ := List.exists_mem_of_ne_nil _ h
  obtain ⟨item, hitem, rfl⟩ := List.mem_map.1 hentry
  obtain ⟨hitem, hkey⟩ := List.mem_filter.1 hitem
  obtain ⟨d, hd, hname⟩ := List.mem_flatMap.1 hitem
  obtain ⟨name, -, hpart⟩ := List.mem_filterMap.1 hname
  obtain ⟨found, -, rfl⟩ := Option.map_eq_some_iff.1 hpart
  exact ⟨d, hd, congrArg Prod.fst (of_decide_eq_true hkey)⟩

instance : Std.Total entryLe := ⟨fun a b => by
  unfold entryLe
  rcases Nat.lt_trichotomy a.1 b.1 with h | h | h
  · exact .inl (.inl h)
  · rcases String.le_total a.2 b.2 with hs | hs
    · exact .inl (.inr ⟨h, hs⟩)
    · exact .inr (.inr ⟨h.symm, hs⟩)
  · exact .inr (.inl h)⟩

instance : IsTrans (Nat × String) entryLe := ⟨fun a b c hab hbc => by
  unfold entryLe at *
  rcases hab with h | ⟨h, hs⟩ <;> rcases hbc with h' | ⟨h', hs'⟩
  · exact .inl (Nat.lt_trans h h')
  · exact .inl (h' ▸ h)
  · exact .inl (h ▸ h')
  · exact .inr ⟨h.trans h', String.le_trans hs hs'⟩⟩

/-- What the scan says of a title: its parts are the strm files in its directory that name it, in the
order of their numbers. -/
theorem scan_parts (h : title ∈ scanMultipart py tree libraryRoot) :
    (title.parts.map fun part => (part.index, (PosixPath.of part.target).names)).Perm
        (tree.partsOf py title.directory title.avid) ∧
      (title.parts.map (·.index)).Pairwise (· ≤ ·) ∧ title.missing = missing (title.parts.map (·.index)) := by
  obtain ⟨⟨⟨dir, stem⟩, entries⟩, hgroup, rfl⟩ := List.mem_map.1 ((List.mem_insertionSort _).1 h)
  obtain ⟨rfl, hne⟩ := mem_grouped_iff.1 (List.mem_of_mem_filter hgroup)
  obtain ⟨d, hd, rfl⟩ := mem_dirs_of_group hne
  dsimp only at *
  generalize hsort : (groupOf (d.1, stem) (tree.partFiles py)).insertionSort entryLe = sorted at h ⊢
  have hperm : sorted.Perm (groupOf (d.1, stem) (tree.partFiles py)) := hsort ▸ List.perm_insertionSort entryLe _
  have hle : sorted.Pairwise entryLe := hsort ▸ List.pairwise_insertionSort entryLe _
  obtain ⟨havid, hdir, hmissing, hparts⟩ := titleOf_read tree (PosixPath.of libraryRoot) d.1 stem sorted
    ((groupOf d.1 (tree.singles py)).any fun single => isWholeCopy py single stem)
  rw [havid, hdir, hmissing, hparts, List.map_map, List.map_map]
  refine ⟨?_, List.pairwise_map.2 (hle.imp ?_), rfl⟩
  · rw [← groupOf_partFiles (tree.dirs_named d hd)]
    exact hperm.map _
  · rintro a b (hab | ⟨hab, -⟩)
    · exact Nat.le_of_lt hab
    · exact Nat.le_of_eq hab

end scan

/-! ## What is enqueued -/

section enqueued
variable {py : Casing} {c : Catalog} {title : Title} {requested : Option Path} {tasks : TaskTable}

/-- The parts' files all have one container that can be merged. -/
def Mergeable (suffixOf : Path → String) (targets : List Path) : Prop :=
  ∃ suffix ∈ muxers, targets ≠ [] ∧ ∀ target ∈ targets, suffixOf target = suffix

theorem eraseDups_eq_singleton {suffixes : List String} {suffix : String} :
    suffixes.eraseDups = [suffix] ↔ suffixes ≠ [] ∧ ∀ x ∈ suffixes, x = suffix := by
  constructor
  · intro h
    constructor
    · rintro rfl
      cases h
    · intro x hx
      have hmem := List.mem_eraseDups.2 hx
      rw [h] at hmem
      exact List.mem_singleton.1 hmem
  · rintro ⟨hne, hall⟩
    cases suffixes with
    | nil => exact absurd rfl hne
    | cons x rest =>
      obtain rfl := hall x List.mem_cons_self
      have hrest : rest.filter (fun y => !y == x) = [] :=
        List.filter_eq_nil_iff.2 fun y hy => by simp [hall y (List.mem_cons_of_mem _ hy)]
      rw [List.eraseDups_cons, hrest]
      rfl

theorem mergeable_iff {suffixOf : Path → String} {targets : List Path} :
    Mergeable suffixOf targets ↔ ∃ suffix ∈ muxers, (targets.map suffixOf).eraseDups = [suffix] := by
  simp [Mergeable, eraseDups_eq_singleton]

theorem Mergeable.perm {suffixOf : Path → String} {targets targets' : List Path} (h : Mergeable suffixOf targets)
    (hperm : targets.Perm targets') : Mergeable suffixOf targets' := by
  obtain ⟨suffix, hmux, hne, hall⟩ := h
  refine ⟨suffix, hmux, fun hnil => hne ?_, fun target ht => hall target (hperm.mem_iff.2 ht)⟩
  rw [hnil] at hperm
  exact hperm.eq_nil

/-- A task that is queued has the parts of the title, in order. -/
theorem wp_createTask {source : Path} {suffix : String} {Q : MergeTask → TaskTable → Prop}
    (hQ : ∀ task tasks, task.parts = title.targets → Q task tasks) :
    (createTask title source suffix).wp TaskTable.creates (fun _ _ => True) Q (fun _ _ => True) tasks := by
  unfold createTask
  refine (wp_bind _ _).2 ((wp_attempt _).2 ((wp_call _).2 ⟨trivial, ?_, ?_⟩))
  · rintro task tasks' (⟨id, now, -, -, -, htask⟩ | ⟨-, e, he, -⟩)
    · rw [htask task rfl]
      exact hQ _ _ rfl
    · cases he
  · rintro e tasks' -
    cases e <;> trivial

theorem wp_enqueue : (enqueue c (some title) requested).wp TaskTable.creates (fun _ _ => True)
    (fun task _ => task.parts = title.targets ∧ Mergeable c.suffix title.targets) (fun _ _ => True) tasks := by
  unfold enqueue
  dsimp only
  refine wp_ite (fun _ => trivial) fun _ => ?_
  split
  · trivial
  · rename_i suffix hsuffix
    refine wp_ite (fun _ => trivial) fun hmux => (wp_bind _ _).2 ?_
    have hc : Mergeable c.suffix title.targets := mergeable_iff.2 ⟨suffix, by simpa using hmux, hsuffix⟩
    refine wp_mono (runs_wp (Q := fun _ _ => True) (X := fun _ _ => True) (fun _ _ _ => trivial) fun _ _ _ => trivial)
      (fun source tasks' _ => ?_) fun _ _ _ => trivial
    cases source with
    | none => trivial
    | some source => exact wp_ite (fun _ => trivial) fun _ => wp_createTask fun _ _ hparts => ⟨hparts, hc⟩
  · trivial

/-- A complete title in one container is queued, where a route is named. -/
theorem enqueue_runs (hcomplete : title.complete = true) (hdir : title.libraryDir.isSome = true)
    (hbrand : title.brand.isSome = true) (hc : Mergeable c.suffix title.targets) {source : Path}
    (hsource : source ∈ c.routeSources) : ∃ task tasks',
      Runs TaskTable.creates .empty (enqueue c (some title) (some source)) (.ok task) tasks' := by
  obtain ⟨suffix, hmux, hsuffix⟩ := mergeable_iff.1 hc
  let task : MergeTask := .created 1 title.avid source title.targets (title.avid ++ suffix) 0
  have henqueue : enqueue c (some title) (some source) = createTask title source suffix := by
    have hmergeable : ¬(!title.complete || title.libraryDir.isNone || title.brand.isNone) = true := by
      rw [Option.isSome_iff_ne_none, ne_eq, ← Option.isNone_iff_eq_none] at hdir hbrand
      simp [hcomplete, hdir, hbrand]
    unfold enqueue
    dsimp only
    rw [if_neg hmergeable, hsuffix]
    dsimp only
    rw [if_neg (by simpa using hmux)]
    exact if_neg (not_not.2 hsource)
  refine ⟨task, (Table.empty : TaskTable).insertNew task, ?_⟩
  rw [henqueue]
  exact .act (r := .ok task) (.inl ⟨1, 0, rfl, fun _ h => (nomatch h), rfl, fun _ h => (Except.ok.inj h).symm⟩) (.ret _ _)

end enqueued

/-! ## Complete titles -/

/-- The title merges its parts once each, from the first to the last, and so does every task that is
queued for it. -/
def MergesOnce (py : Casing) (title : MultipartTitle) : Prop :=
  title.parts.map (·.index) = List.range' 1 title.partCount ∧
    ∀ routeSources resolveSource requested tasks tasks' task,
      Runs TaskTable.creates tasks (enqueue ⟨routeSources, resolveSource, fileSuffix py⟩ (some title.toTitle) requested)
        (.ok task) tasks' → task.parts = title.toTitle.targets ∧ task.parts.Nodup

/-- No two of the title's strm files have one number and none has zero; and where their videos are of
one container that can be merged, no two name the same video. -/
def NumberedOnce (py : Casing) (tree : StrmTree) (title : MultipartTitle) : Prop :=
  let files := tree.partsOf py title.directory title.avid
  (files.map (·.1)).Nodup ∧ 0 ∉ files.map (·.1) ∧
    (Mergeable (fileSuffix py) (files.map (·.2)) → (files.map (·.2)).Nodup)

theorem complete_located {py : Casing} {tree : StrmTree} {libraryRoot : String} {title : MultipartTitle}
    (h : title ∈ scanMultipart py tree libraryRoot) (hcomplete : title.complete = true) :
    title.libraryDir.isSome = true ∧ title.brand.isSome = true := by
  obtain ⟨⟨⟨dir, stem⟩, entries⟩, -, rfl⟩ := List.mem_map.1 ((List.mem_insertionSort _).1 h)
  revert hcomplete
  unfold MultipartTitle.complete titleOf
  dsimp only
  split
  · simp
  · exact fun _ => ⟨rfl, rfl⟩

/-- A complete title merges each part once and in order exactly when its strm files are numbered once. -/
theorem complete_merges_once_iff {py : Casing} {tree : StrmTree} {libraryRoot : String} {title : MultipartTitle}
    (h : title ∈ scanMultipart py tree libraryRoot) (hcomplete : title.complete = true) :
    MergesOnce py title ↔ NumberedOnce py tree title := by
  obtain ⟨hperm, hsorted, hmissing⟩ := scan_parts h
  have hall : missing (title.parts.map (·.index)) = [] := by
    have hboth := hcomplete
    unfold MultipartTitle.complete at hboth
    rw [Bool.and_eq_true, List.isEmpty_iff] at hboth
    rw [← hmissing]
    exact hboth.1
  -- nothing is missing, so the indices are one to the count
  have hcounted := counted_iff hsorted hall
  rw [List.length_map] at hcounted
  have hnumbers : (title.parts.map (·.index)).Perm ((tree.partsOf py title.directory title.avid).map (·.1)) := by
    have := hperm.map Prod.fst
    rwa [List.map_map] at this
  have htargets : title.toTitle.targets.Perm ((tree.partsOf py title.directory title.avid).map (·.2)) := by
    have := hperm.map Prod.snd
    rwa [List.map_map] at this
  unfold MergesOnce NumberedOnce MultipartTitle.partCount
  dsimp only
  rw [hcounted, hnumbers.nodup_iff, hnumbers.mem_iff, and_assoc]
  refine and_congr_right fun _ => and_congr_right fun _ => ?_
  constructor
  · -- some enqueue of the title goes through, and what it stores is told
    intro hstored hmergeable
    obtain ⟨hdir, hbrand⟩ := complete_located h hcomplete
    have hwhole : title.toTitle.complete = true := hcomplete
    obtain ⟨task, tasks', hrun⟩ := enqueue_runs (c := ⟨[["in"]], fun _ _ => none, fileSuffix py⟩)
      hwhole hdir hbrand (hmergeable.perm htargets.symm) (List.mem_singleton.2 rfl)
    obtain ⟨hparts, hnodup⟩ := hstored _ _ _ _ _ _ hrun
    rw [hparts] at hnodup
    exact htargets.nodup_iff.1 hnodup
  · intro hapart routeSources resolveSource requested tasks tasks' task hrun
    obtain ⟨hparts, hmergeable⟩ := wp_runs_ok wp_enqueue hrun
    refine ⟨hparts, ?_⟩
    rw [hparts]
    exact htargets.nodup_iff.2 (hapart (hmergeable.perm htargets))

/-! ## A number that stands twice -/

namespace Doubled

def casing : Casing := ⟨fun s => s.map Char.toUpper, fun s => s.map Char.toLower⟩

/-- One directory; each strm names the video of its own name in the library. -/
def tree (names : List String) (h : names.Nodup) : StrmTree where
  dirs := [(["AB-1"], names)]
  read _ name := some ("/l/v/AB/" ++ String.ofList (stem name) ++ ".ts").toUTF8
  dirs_nodup := by simp
  dirs_named := by
    intro d hd name hname
    rw [List.mem_singleton.1 hd, List.mem_singleton] at hname
    rw [hname]
    exact ⟨by decide, by decide, by decide⟩
  files_nodup := by
    intro d hd
    rw [List.mem_singleton.1 hd]
    exact h

def twoParts : StrmTree := tree ["AB-1-cd2.strm", "AB-1-cd1.strm"] (by decide)

/-- The first part is there in two spellings. -/
def threeParts : StrmTree := tree ["AB-1-cd1.strm", "AB-1-CD1.strm", "AB-1-cd2.strm"] (by decide)

def part (index : Nat) (name : String) : Part :=
  ⟨index, "AB-1/" ++ name ++ ".strm", "/l/v/AB/" ++ name ++ ".ts"⟩

def title (parts : List Part) : MultipartTitle := ⟨"AB-1", "AB-1", parts, [], some "v", some "AB", none⟩

def two : MultipartTitle := title [part 1 "AB-1-cd1", part 2 "AB-1-cd2"]

def three : MultipartTitle := title [part 1 "AB-1-CD1", part 1 "AB-1-cd1", part 2 "AB-1-cd2"]

/-- The title of parts that all name a video of the brand. -/
theorem titleOf_eq {names : List String} {h : names.Nodup} {entries : List (Nat × String)} {parts : List Part}
    (hread : (entries.map fun entry => readStrm ((tree names h).read ["AB-1"] entry.2)).any (·.isNone) = false)
    (hparts : entries.map (fun entry => (⟨entry.1, shownBelow (["AB-1"] ++ [entry.2]),
      (readStrm ((tree names h).read ["AB-1"] entry.2)).getD ""⟩ : Part)) = parts)
    (hlocated : (located (Config.PosixPath.of "/l") (parts.map (·.target))).toOption = some ("v", "AB"))
    (hmissing : missing (entries.map (·.1)) = []) :
    titleOf (tree names h) (Config.PosixPath.of "/l") ["AB-1"] "AB-1" entries false = title parts := by
  have hfound : located (Config.PosixPath.of "/l") (parts.map (·.target)) = .ok ("v", "AB") := by
    generalize located _ _ = found at hlocated ⊢
    cases found with
    | error => cases hlocated
    | ok => exact congrArg _ (Option.some.inj hlocated)
  have hdirectory : shownBelow ["AB-1"] = "AB-1" := by decide
  unfold titleOf
  dsimp only
  rw [hread, hparts, if_neg Bool.false_ne_true, hfound, hmissing, hdirectory]
  rfl

/-- What the directory is scanned as, step by step. -/
theorem scan_eq {py : Casing} {names : List String} {h : names.Nodup} {files : List ((Path × String) × Nat × String)}
    {found entries : List (Nat × String)} {parts : List Part} (hfiles : (tree names h).partFiles py = files)
    (hsingles : (tree names h).singles py = [])
    (hgroups : (grouped files).filter (1 < ·.2.length) = [((["AB-1"], "AB-1"), found)])
    (hsorted : found.insertionSort entryLe = entries)
    (htitle : titleOf (tree names h) (Config.PosixPath.of "/l") ["AB-1"] "AB-1" entries false = title parts) :
    scanMultipart py (tree names h) "/l" = [title parts] := by
  unfold scanMultipart
  dsimp only
  rw [hfiles, hsingles, hgroups, List.map_singleton]
  dsimp only
  rw [hsorted, show ((groupOf ["AB-1"] []).any fun single => isWholeCopy py single "AB-1") = false from rfl, htitle]
  rfl

/-- The two parts, whatever the casing leaves of their names. -/
theorem scan_two {py : Casing}
    (hfiles : twoParts.partFiles py = [((["AB-1"], "AB-1"), 2, "AB-1-cd2.strm"), ((["AB-1"], "AB-1"), 1, "AB-1-cd1.strm")])
    (hsingles : twoParts.singles py = []) : scanMultipart py twoParts "/l" = [two] := by
  have hsorted : [(2, "AB-1-cd2.strm"), (1, "AB-1-cd1.strm")].insertionSort entryLe =
      [(1, "AB-1-cd1.strm"), (2, "AB-1-cd2.strm")] := by with_unfolding_all decide
  refine scan_eq hfiles hsingles ?_ hsorted (titleOf_eq ?_ ?_ ?_ ?_) <;> with_unfolding_all decide

theorem two_scanned : two ∈ scanMultipart casing twoParts "/l" := by
  have hscan : scanMultipart casing twoParts "/l" = [two] := by refine scan_two ?_ ?_ <;> with_unfolding_all decide
  exact hscan ▸ List.mem_singleton_self two

theorem three_scanned : three ∈ scanMultipart casing threeParts "/l" := by
  have hfiles : threeParts.partFiles casing = [((["AB-1"], "AB-1"), 1, "AB-1-cd1.strm"),
      ((["AB-1"], "AB-1"), 1, "AB-1-CD1.strm"), ((["AB-1"], "AB-1"), 2, "AB-1-cd2.strm")] := by with_unfolding_all decide
  have hsorted : [(1, "AB-1-cd1.strm"), (1, "AB-1-CD1.strm"), (2, "AB-1-cd2.strm")].insertionSort entryLe =
      [(1, "AB-1-CD1.strm"), (1, "AB-1-cd1.strm"), (2, "AB-1-cd2.strm")] := by with_unfolding_all decide
  have hscan : scanMultipart casing threeParts "/l" = [three] := by
    refine scan_eq hfiles ?_ ?_ hsorted (titleOf_eq ?_ ?_ ?_ ?_) <;> with_unfolding_all decide
  exact hscan ▸ List.mem_singleton_self three

end Doubled

/-- The theorem where each part is there once. -/
theorem complete_merges_once_two :
    MergesOnce Doubled.casing Doubled.two ↔ NumberedOnce Doubled.casing Doubled.twoParts Doubled.two :=
  complete_merges_once_iff Doubled.two_scanned (by decide)

/-- The title that has its first part twice is reported complete. -/
theorem complete_merges_twice :
    ¬∀ (py : Casing) (tree : StrmTree) (libraryRoot : String) (title : MultipartTitle),
      title ∈ scanMultipart py tree libraryRoot → title.complete = true → MergesOnce py title := by
  intro h
  have honce := (h _ _ _ _ Doubled.three_scanned (by decide)).1
  revert honce
  decide

end EmbyxManager.Merge
