import EmbyxManager.Monitor.Filing
import EmbyxManager.Monitor.Library
/-!
# What a replacement deletes

A replacement deletes the copy recorded on its row, once the new download is known to be
fileable. The record is a list of texts that may be stale or tampered with: a text counts
only while it names a video of this AVID below the library's root, and the mount prefix
has to be stripped from every one of them before any file is deleted.
-/

namespace EmbyxManager
open Atom Prog AcquisitionRepository Archive

/-! ## Paths -/

/-- A `PurePosixPath`: its parts, without the root. -/
structure PurePath where
  absolute : Bool
  parts : List String
  deriving DecidableEq

namespace PurePath

def of (text : String) : PurePath := ⟨text.toList.head? = some '/', Tracker.pathParts text⟩

/-- `self / p`. -/
def join (self p : PurePath) : PurePath := if p.absolute then p else ⟨self.absolute, self.parts ++ p.parts⟩

def child (self : PurePath) (name : String) : PurePath := ⟨self.absolute, self.parts ++ [name]⟩

def parent (self : PurePath) : PurePath := ⟨self.absolute, self.parts.dropLast⟩

end PurePath

/-! ## The files below the library's root -/

/-- The regular files the mount shows, by directory; `dst_dir` is the root. -/
structure LibraryTree where
  root : PurePath
  files : PurePath → List String
  /-- The library is a directory. -/
  root_notFile : ∀ dir, ∀ name ∈ files dir, dir.child name ≠ root

namespace LibraryTree

/-- `_matching_archived`. -/
def matching (tree : LibraryTree) (avid : Avid) (dir : PurePath) : List PurePath :=
  (((tree.files dir).filter (belongsTo avid)).insertionSort (· ≤ ·)).map dir.child

/-- One recorded path: skipped unless it names a video of the AVID below the root. -/
def addCopy (tree : LibraryTree) (avid : Avid) (found : List PurePath) (relative : String) : List PurePath :=
  let parts := PurePath.of relative
  if parts.absolute ∨ ".." ∈ parts.parts then found
  else
    let path := tree.root.join parts
    if path ∉ found ∧ path ∈ tree.matching avid path.parent then found ++ [path] else found

/-- `replaced_copies`. -/
def replacedCopies (tree : LibraryTree) (avid : Avid) (libraryPaths : List String) : List PurePath :=
  libraryPaths.foldl (tree.addCopy avid) []

/-- A file that is recorded, lies below the root, and is named after the AVID. -/
structure OldCopy (tree : LibraryTree) (avid : Avid) (libraryPaths : List String) (path : PurePath) : Prop where
  recorded : ∃ relative ∈ libraryPaths, path = tree.root.join (PurePath.of relative)
  below : ∃ rest, rest ≠ [] ∧ ".." ∉ rest ∧ path = ⟨tree.root.absolute, tree.root.parts ++ rest⟩
  named : ∃ dir, ∃ name ∈ tree.files dir, path = dir.child name ∧ belongsTo avid name = true

variable {tree : LibraryTree} {avid : Avid} {path : PurePath}

theorem mem_matching {dir : PurePath} :
    path ∈ tree.matching avid dir ↔ ∃ name ∈ tree.files dir, path = dir.child name ∧ belongsTo avid name = true := by
  simp only [matching, List.mem_map, List.mem_insertionSort, List.mem_filter]
  constructor
  · rintro ⟨name, ⟨hf, hb⟩, rfl⟩
    exact ⟨name, hf, rfl, hb⟩
  · rintro ⟨name, hf, rfl, hb⟩
    exact ⟨name, ⟨hf, hb⟩, rfl⟩

/-- A recorded path that is taken is the old copy's. -/
theorem mem_addCopy {found : List PurePath} {relative : String} (h : path ∈ tree.addCopy avid found relative) :
    path ∈ found ∨ tree.OldCopy avid [relative] path := by
  unfold addCopy at h
  dsimp only at h
  split at h
  · exact .inl h
  · rename_i hsafe
    obtain ⟨habs, hdots⟩ := not_or.1 hsafe
    have habs : (PurePath.of relative).absolute = false := by simpa using habs
    have hjoin : tree.root.join (PurePath.of relative) =
        ⟨tree.root.absolute, tree.root.parts ++ (PurePath.of relative).parts⟩ := by
      simp [PurePath.join, habs]
    split at h
    · rename_i htaken
      rcases List.mem_append.1 h with h | h
      · exact .inl h
      · rw [List.mem_singleton] at h
        subst h
        obtain ⟨name, hfile, hpath, hnamed⟩ := mem_matching.1 htaken.2
        refine .inr ⟨⟨relative, by simp, rfl⟩, ⟨_, ?_, hdots, hjoin⟩, _, name, hfile, hpath, hnamed⟩
        -- without a part left over, the path would be the root itself
        intro hnil
        refine tree.root_notFile _ name hfile ?_
        rw [← hpath, hjoin, hnil, List.append_nil]
    · exact .inl h

theorem OldCopy.mono {ps ps' : List String} (h : tree.OldCopy avid ps path) (hps : ps ⊆ ps') :
    tree.OldCopy avid ps' path := by
  obtain ⟨relative, hr, hp⟩ := h.recorded
  exact ⟨⟨relative, hps hr, hp⟩, h.below, h.named⟩

theorem mem_replacedCopies {libraryPaths : List String} (h : path ∈ tree.replacedCopies avid libraryPaths) :
    tree.OldCopy avid libraryPaths path := by
  have go : ∀ (rest : List String) (found : List PurePath), rest ⊆ libraryPaths →
      (∀ p ∈ found, tree.OldCopy avid libraryPaths p) → ∀ p ∈ rest.foldl (tree.addCopy avid) found,
      tree.OldCopy avid libraryPaths p := by
    intro rest
    induction rest with
    | nil => exact fun _ _ hfound => hfound
    | cons relative rest ih =>
      intro found hsub hfound
      refine ih _ (fun x hx => hsub (by simp [hx])) fun p hp => ?_
      rcases mem_addCopy hp with hp | hp
      · exact hfound p hp
      · exact hp.mono fun x hx => hsub (by simp [List.mem_singleton.1 hx])
  exact go libraryPaths [] (fun _ h => h) (by simp) path h

end LibraryTree

/-- `replaced_copies` answers what the mount shows when it is asked; the rest of the world
may answer anything. -/
def LibraryShows (root : PurePath) : Policy
  | .ask (.replacedCopies avid libraryPaths), .ok present =>
    ∃ tree : LibraryTree, tree.root = root ∧ present.map PurePath.of = tree.replacedCopies avid libraryPaths
  | _, _ => True

/-! ## What stands behind a deletion -/

/-- What a tracker read and was shown, from the row's reading on. -/
structure Replacement where
  avid : Avid
  folder : Folder
  route : TrackerRoute
  record : AcquisitionRecord
  videos : List Video
  selection : VideoSet
  tree : LibraryTree
  present : List String
  before : List Event
  since : List Event

/-- These paths may be deleted: the row was read last, the folder's videos were selected for
the row's AVID since, and every path is a file of the old copy seen through the mount. -/
structure Replacement.Allows (r : Replacement) (t : Tracker) (root : PurePath) (h : List Event) (paths : List String) :
    Prop where
  history : h = r.since ++ ⟨.sql (.getAcquisition r.avid), .ok (some r.record)⟩ :: r.before
  rowRead : ∀ e ∈ r.since, e.op.isSql = false
  located : Located r.avid r.folder r.route r.before
  inspected : (⟨.ask (.largeVideos r.folder.path), .ok r.videos⟩ : Event) ∈ r.since
  selected : select t.archiver r.folder.name r.videos r.avid = .ok r.selection
  /-- An empty text is no AVID. -/
  forAvid : r.avid ≠ "" → r.selection.avid = r.avid
  shown : (⟨.ask (.replacedCopies r.avid r.record.replacePaths), .ok r.present⟩ : Event) ∈ r.since
  library : r.tree.root = root
  oldCopy : ∀ path ∈ r.present, r.tree.OldCopy r.avid r.record.replacePaths (PurePath.of path)
  mounted : ∀ path ∈ r.present, (Tracker.apiPath path t.libraryMountPrefix).isSome = true
  deleted : ∀ api ∈ paths, ∃ path ∈ r.present, Tracker.apiPath path t.libraryMountPrefix = some api

/-- Only an old copy is deleted; nothing is said of any other action. -/
def OnlyOldCopies (t : Tracker) (root : PurePath) (h : List Event) : Op → Prop
  | .ask (.deleteFiles paths) => ∃ r : Replacement, r.Allows t root h paths
  | _ => True

/-- No file is deleted. -/
def Op.spares : Op → Bool
  | .ask (.deleteFiles _) => false
  | _ => true

theorem onlyOldCopies_of_spares {t : Tracker} {root : PurePath} {h : List Event} {op : Op} (hop : op.spares = true) :
    OnlyOldCopies t root h op := by
  cases op with
  | ask q =>
    cases q with
    | deleteFiles paths => cases hop
    | _ => trivial
  | _ => trivial

theorem Op.spares_of_aside {op : Op} (h : Aside op) : op.spares = true := by
  cases op with
  | ask q =>
    cases q with
    | deleteFiles paths => cases h
    | _ => rfl
  | _ => rfl

/-- The AVID of a selection is the expected one, if any is. -/
theorem select_expected {arch : Archiver} {folder : String} {videos : List Video} {expected : Avid} {s : VideoSet}
    (h : select arch folder videos expected = .ok s) (hne : expected ≠ "") : s.avid = expected := by
  -- with an expected AVID every way of reading one ends with it or refuses
  have reconciled : ∀ {avid a}, reconcileAvid arch folder avid expected = .ok a → a = expected := by
    intro avid a ha
    unfold reconcileAvid at ha
    dsimp only at ha
    generalize (if avid = "" then arch.getAvid folder else avid) = read at ha
    split at ha
    · cases ha
    · split at ha
      · rename_i hread
        cases ha
        exact hread.resolve_left hne
      · split at ha
        · exact (Except.ok.inj ha).symm
        · cases ha
  have identified : ∀ {kept a}, identifyAvid arch folder kept expected = .ok a → a = expected := by
    intro kept a ha
    unfold identifyAvid at ha
    split at ha
    · cases ha
    · exact reconciled ha
    · split at ha
      · exact reconciled ha
      · cases ha
  unfold select at h
  split at h
  · cases h
  · dsimp only at h
    split at h
    · cases h
    · rename_i avid havid
      obtain rfl := identified havid
      split at h
      · cases h
        rfl
      · split at h <;> cases h
        rfl

/-! ## The tracker -/

/-- The program deletes nothing but old copies. -/
abbrev Sparing {α : Type} (t : Tracker) (root : PurePath) (p : M α) : Prop :=
  p.Keeps (recorded (LibraryShows root)) (OnlyOldCopies t root) Anyway fun _ _ => True

section Sparing
variable {α : Type} {t : Tracker} {root : PurePath} {p : M α}

theorem sparing_of_uses (hp : Uses (fun op => op.spares = true) p) : Sparing t root p :=
  keeps_mono (keeps_of_uses hp (fun _ _ hop _ => onlyOldCopies_of_spares hop) fun _ _ _ _ _ _ _ => trivial)
    fun _ _ _ => trivial

end Sparing

/-- The videos of the folder were selected since `before`. -/
def Inspected (t : Tracker) (avid : Avid) (folder : Folder) (before h : List Event) : Prop :=
  ∃ videos selection since, h = since ++ before ∧ (∀ e ∈ since, e.op.isSql = false) ∧
    (⟨.ask (.largeVideos folder.path), .ok videos⟩ : Event) ∈ since ∧
    select t.archiver folder.name videos avid = .ok selection

/-- What is selected is selected from the videos the folder shows. -/
theorem Tracker.wp_selectVideos {t : Tracker} {root : PurePath} {folder : Folder} {avid : Avid} {before : List Event} :
    (selectVideos t.archiver folder avid).wp (recorded (LibraryShows root)) (OnlyOldCopies t root)
      (fun r h => ∀ selection, r = .ok selection → Inspected t avid folder before h) (fun _ _ => True) before := by
  unfold selectVideos
  rw [wp_bind, wp_call_recorded]
  refine ⟨trivial, fun dir _ => wp_ite (fun _ => ?_) fun _ selection hs => (by cases hs), fun _ _ => trivial⟩
  rw [wp_bind, wp_call_recorded]
  refine ⟨trivial, fun videos _ => ?_, fun _ _ => trivial⟩
  -- the copies dropped lie in the folder, so the library is untouched
  have unlinks : (Prog.forEach (videos.filter fun v => v ∉ t.archiver.dropCopies videos) fun v =>
      discard (ask (.unlink v.path)).attempt : M Unit).Keeps (recorded (LibraryShows root)) (OnlyOldCopies t root)
      (fun h => ∃ since, h = since ++ before ∧ (∀ e ∈ since, e.op.isSql = false) ∧
        (⟨.ask (.largeVideos folder.path), .ok videos⟩ : Event) ∈ since) (fun _ _ => True) := by
    refine keeps_mono (keeps_of_uses (C := fun op => op.isSql = false ∧ op.spares = true)
      (uses_forEach fun v _ => uses_discard (uses_attempt (uses_ok ⟨rfl, rfl⟩)))
      (fun _ _ hop _ => onlyOldCopies_of_spares hop.2) ?_) fun _ _ _ => trivial
    rintro h op r _ hop ⟨since, rfl, hs, hv⟩ ⟨-, rfl⟩
    refine ⟨⟨op, r⟩ :: since, rfl, fun e he => ?_, List.mem_cons_of_mem _ hv⟩
    rcases List.mem_cons.1 he with rfl | he
    · exact hop.1
    · exact hs e he
  rw [wp_bind]
  refine wp_mono (unlinks _ ⟨[⟨.ask (.largeVideos folder.path), .ok videos⟩, ⟨.ask (.isDir folder.path), .ok dir⟩],
    rfl, by simp [Op.isSql], by simp⟩) (fun _ h hh => ?_) fun _ _ _ => trivial
  obtain ⟨since, rfl, hs, hv⟩ := hh
  exact fun selection hsel => ⟨videos, selection, since, rfl, hs, hv, hsel⟩

theorem Tracker.wp_inspectFolder {t : Tracker} {root : PurePath} {folder : Folder} {avid : Avid} {before : List Event} :
    (inspectFolder t.archiver folder avid).wp (recorded (LibraryShows root)) (OnlyOldCopies t root)
      (fun r h => ∀ selection, r = .ok selection → Inspected t avid folder before h) (fun _ _ => True) before := by
  unfold inspectFolder
  rw [wp_bind, wp_attempt]
  refine wp_mono Tracker.wp_selectVideos (fun r h hr => hr) fun e h _ => ?_
  cases e with
  | runCancelled => trivial
  | _ => exact fun selection hs => by cases hs

/-- The API paths are those of the paths, each below the mount. -/
theorem mem_apiPaths {mountPrefix : String} {paths apis : List String} (h : Tracker.apiPaths mountPrefix paths = .ok apis) :
    (∀ path ∈ paths, (Tracker.apiPath path mountPrefix).isSome = true) ∧
      ∀ api ∈ apis, ∃ path ∈ paths, Tracker.apiPath path mountPrefix = some api := by
  induction paths generalizing apis with
  | nil =>
    cases h
    exact ⟨by simp, by simp⟩
  | cons path paths ih =>
    unfold Tracker.apiPaths at h
    split at h
    · cases h
    · rename_i api hapi
      obtain ⟨apis, hrest, rfl⟩ := Ledger.map_ok h
      obtain ⟨hin, hof⟩ := ih hrest
      refine ⟨fun p hp => ?_, fun a ha => ?_⟩
      · rcases List.mem_cons.1 hp with rfl | hp
        · rw [hapi]
          rfl
        · exact hin p hp
      · rcases List.mem_cons.1 ha with rfl | ha
        · exact ⟨path, by simp, hapi⟩
        · obtain ⟨p, hp, hpa⟩ := hof a ha
          exact ⟨p, List.mem_cons_of_mem _ hp, hpa⟩

section Removing
variable {t : Tracker} {root : PurePath} {h : List Event}

theorem Replacement.Allows.cons {r : Replacement} {op : Op} {a : Except Exn op.Res} (hr : r.Allows t root h [])
    (hop : op.isSql = false) :
    ({ r with since := ⟨op, a⟩ :: r.since } : Replacement).Allows t root (⟨op, a⟩ :: h) [] where
  history := congrArg _ hr.history
  rowRead e he := by
    rcases List.mem_cons.1 he with rfl | he
    · exact hop
    · exact hr.rowRead e he
  located := hr.located
  inspected := List.mem_cons_of_mem _ hr.inspected
  selected := hr.selected
  forAvid := hr.forAvid
  shown := List.mem_cons_of_mem _ hr.shown
  library := hr.library
  oldCopy := hr.oldCopy
  mounted := hr.mounted
  deleted := hr.deleted

/-- Everything up to the deletion itself holds of what the library showed. -/
def Ready (t : Tracker) (root : PurePath) (present : List String) (h : List Event) : Prop :=
  ∃ r : Replacement, r.present = present ∧ r.Allows t root h []

theorem ready_keeps {α : Type} {p : M α} {present : List String}
    (hp : Uses (fun op => op.isSql = false ∧ op.spares = true) p) :
    p.Keeps (recorded (LibraryShows root)) (OnlyOldCopies t root) (Ready t root present) fun _ => Ready t root present := by
  refine keeps_of_uses hp (fun _ _ hop _ => onlyOldCopies_of_spares hop.2) ?_
  rintro h op a _ hop ⟨r, hpresent, hr⟩ ⟨-, rfl⟩
  exact ⟨{ r with since := ⟨op, a⟩ :: r.since }, hpresent, hr.cons hop.1⟩

theorem ready_allows {present apis paths : List String} (hready : Ready t root present h)
    (hapis : Tracker.apiPaths t.libraryMountPrefix present = .ok apis) (hpaths : paths ⊆ apis) :
    OnlyOldCopies t root h (.ask (.deleteFiles paths)) := by
  obtain ⟨r, rfl, hr⟩ := hready
  exact ⟨r, { hr with deleted := fun api hapi => (mem_apiPaths hapis).2 api (hpaths hapi) }⟩

theorem unrelated_cloudListed (paths : List String) :
    Uses (fun op => op.isSql = false ∧ op.spares = true) (Tracker.cloudListed paths) := by
  unfold Tracker.cloudListed
  refine uses_bind (uses_foldEach (fun listed directory _ => ?_) _) fun _ => trivial
  refine uses_bind (uses_attempt (uses_ok ⟨rfl, rfl⟩)) fun r => ?_
  cases r with
  | ok entries => trivial
  | error e => cases e <;> trivial

/-- What CloudDrive lists is some of what it was asked for. -/
theorem Tracker.wp_cloudListed {present : List String} (paths : List String) (hready : Ready t root present h) :
    (Tracker.cloudListed paths).wp (recorded (LibraryShows root)) (OnlyOldCopies t root)
      (fun listed h => listed ⊆ paths ∧ Ready t root present h) (fun _ _ => True) h := by
  have hkept := ready_keeps (unrelated_cloudListed paths) _ hready
  unfold Tracker.cloudListed at hkept ⊢
  rw [wp_bind] at hkept ⊢
  exact wp_mono hkept (fun listed h hr => ⟨List.filter_subset_self _, hr⟩) fun _ _ _ => trivial

/-- The old copy is deleted only as the row and the inspected folder allow. -/
theorem Tracker.wp_removeReplaced {avid : Avid} {folder : Folder} {route : TrackerRoute} {record : AcquisitionRecord}
    {before : List Event} (hl : Located avid folder route before)
    (hi : Inspected t avid folder (⟨.sql (.getAcquisition avid), .ok (some record)⟩ :: before) h) :
    (t.removeReplaced avid record.replacePaths).wp (recorded (LibraryShows root)) (OnlyOldCopies t root)
      (fun _ _ => True) (fun _ _ => True) h := by
  unfold Tracker.removeReplaced
  dsimp only
  refine wp_ite (fun _ => trivial) fun _ => ?_
  rw [wp_bind, wp_call_recorded]
  refine ⟨trivial, fun present hpresent => wp_ite (fun _ => trivial) fun _ => ?_, fun _ _ => trivial⟩
  split
  · trivial
  · rename_i apis hapis
    obtain ⟨tree, htree, hshown⟩ := hpresent
    -- what the library showed and what was read before it, as the deletion asks for it
    have ready : Ready t root present (⟨.ask (.replacedCopies avid record.replacePaths), .ok present⟩ :: h) := by
      obtain ⟨videos, selection, since, rfl, hs, hv, hsel⟩ := hi
      refine ⟨⟨avid, folder, route, record, videos, selection, tree, present, before,
        ⟨.ask (.replacedCopies avid record.replacePaths), .ok present⟩ :: since⟩, rfl, ?_⟩
      exact {
        history := rfl
        rowRead := fun e he => by
          rcases List.mem_cons.1 he with rfl | he
          · rfl
          · exact hs e he
        located := hl
        inspected := List.mem_cons_of_mem _ hv
        selected := hsel
        forAvid := select_expected hsel
        shown := List.mem_cons_self
        library := htree
        oldCopy := fun path hp => by
          have hmem : PurePath.of path ∈ present.map PurePath.of := List.mem_map_of_mem hp
          rw [hshown] at hmem
          exact LibraryTree.mem_replacedCopies hmem
        mounted := (mem_apiPaths hapis).1
        deleted := fun api hapi => by cases hapi }
    rw [wp_bind]
    refine wp_mono (Tracker.wp_cloudListed apis ready) (fun listed h hready => ?_) fun _ _ _ => trivial
    rw [wp_bind, wp_runIf]
    -- after the deletion only listings and looks at the mount
    have rest : Sparing t root (do
        discard (Tracker.cloudListed apis)
        let left ← ask (.replacedCopies avid record.replacePaths)
        if left = [] then pure (none : Option ArchiveResult)
        else pure (some { outcome := .failed, avid,
                          reason := "the replaced copy is still on the mount; filing on the next poll" })) := by
      refine sparing_of_uses (uses_bind (uses_discard (uses_mono (unrelated_cloudListed apis) fun _ h => h.2)) fun _ => ?_)
      exact uses_bind (uses_ok rfl) fun left => uses_ite trivial trivial
    refine ⟨fun _ => ?_, fun _ => rest h trivial⟩
    rw [wp_call_recorded]
    exact ⟨ready_allows hready.2 hapis hready.1, fun _ _ => rest _ trivial, fun _ _ => trivial⟩

end Removing

namespace Tracker
variable {t : Tracker} {root : PurePath}

theorem spares_fileSelection (folder : Folder) (selection : VideoSet) (dst : String) (priority : Bool) :
    Uses (fun op => op.spares = true) (fileSelection folder selection dst priority) := by
  unfold fileSelection
  refine uses_bind (uses_attempt (uses_ok rfl)) fun r => ?_
  cases r with
  | ok archived =>
    cases archived with
    | nil => trivial
    | cons path paths => exact uses_bind (uses_discard (uses_attempt (uses_ok rfl))) fun _ => trivial
  | error e => cases e <;> trivial

theorem wp_file {attempt : MagnetAttemptRecord} {folder : Folder} {route : TrackerRoute} {h : List Event}
    (hl : Located attempt.avid folder route h) :
    (t.file attempt folder route).wp (recorded (LibraryShows root)) (OnlyOldCopies t root) (fun _ _ => True)
      (fun _ _ => True) h := by
  unfold file
  rw [wp_bind, wp_call_recorded]
  refine ⟨trivial, fun record _ => ?_, fun _ _ => trivial⟩
  dsimp only
  refine wp_ite (fun _ => ?_) fun hne => ?_
  · unfold archiveFolder
    rw [wp_bind]
    refine wp_mono Tracker.wp_inspectFolder (fun r h _ => ?_) fun _ _ _ => trivial
    cases r with
    | error result => trivial
    | ok selection => exact sparing_of_uses (spares_fileSelection folder selection route.dst route.priority) h trivial
  · cases record with
    | none => exact absurd rfl hne
    | some record =>
      rw [wp_bind]
      refine wp_mono Tracker.wp_inspectFolder (fun r h hi => ?_) fun _ _ _ => trivial
      cases r with
      | error result => trivial
      | ok selection =>
        rw [wp_bind, wp_attempt]
        refine wp_mono (Tracker.wp_removeReplaced hl (hi selection rfl)) (fun problem h _ => ?_) fun _ _ _ => trivial
        cases problem with
        | none => exact sparing_of_uses (spares_fileSelection folder selection route.dst route.priority) h trivial
        | some problem => trivial

theorem sparing_replica (polls : Nat) : Sparing t root (t.replica polls) :=
  clear_replica (fun _ _ hop => onlyOldCopies_of_spares (Op.spares_of_aside hop)) (fun _ _ _ _ _ hl => wp_file hl) polls

end Tracker

/-! ## Every run -/

/-- Whatever runs beside the tracker, the paths it is about to delete are API paths of
recorded files below the library's root that are named after the AVID; the videos of its
finished download were selected for exactly this AVID before, and no file of the old copy
lies outside the mount. -/
theorem deletes_only_old_copies {ι : Type} [DecidableEq ι] {root : PurePath} {progs : ι → M Unit} {l : Ledger} {start : Time}
    {c : Pool Op.Res Exn Unit (World ι) ι} (h : Pool.Reach (World.Step (LibraryShows root)) ⟨⟨l, start, []⟩, progs⟩ c)
    {i : ι} {t : Tracker} {polls : Nat} (hi : progs i = t.replica polls) {paths : List String}
    {next : Except Exn Unit → M Unit} (hnext : c.prog i = .act (.ask (.deleteFiles paths)) next) :
    ∃ r : Replacement, r.Allows t root (c.world.history i) paths := by
  have guarded : ∀ j, (progs j).wp (recorded (LibraryShows root))
      (fun h op => j = i → OnlyOldCopies t root h op) (fun _ _ => True) (fun _ _ => True) [] := by
    intro j
    by_cases hj : j = i
    · subst hj
      rw [hi]
      exact wp_env (Tracker.sparing_replica polls [] trivial) (fun _ _ _ _ ht => ht) fun _ _ hG _ => hG
    · exact keeps_mono (keeps_of_uses (I := Anyway) (uses_any (progs j)) (fun _ _ _ _ hji => absurd hji hj)
        fun _ _ _ _ _ _ _ => trivial) (fun _ _ _ => trivial) [] trivial
  have hw := (World.reach_inv (fun _ _ _ _ _ ht => ht) (fun j h op => j = i → OnlyOldCopies t root h op) (fun _ => True)
    (fun _ _ _ _ _ _ _ _ => trivial) trivial rfl guarded h).2
  exact hw i _ _ hnext rfl

/-! ## A replaced copy -/

namespace ReplacedExample

def tracker : Tracker := { oneDirTracker with
  libraryMountPrefix := "/mnt/cloud"
  archiver := ⟨fun name => if name = "ABC-123.mp4" then "ABC-123" else "", id, fun _ _ => none⟩ }

def library : PurePath := .of "/mnt/cloud/library"

def tree : LibraryTree where
  root := library
  files dir := if dir = library.child "ABC" then ["ABC-123.mp4", "ABC-1234.mp4"] else []
  root_notFile dir name hname := by
    split at hname
    · rename_i hd
      subst hd
      intro h
      have := congrArg (fun p => p.parts.length) h
      simp [PurePath.child] at this
    · cases hname

/-- A replacement whose download is complete; one recorded path is repeated, one points
outside, one names another AVID. -/
def replacing : Ledger := Ledger.empty.after
  [.beginReplacement "ABC-123" "manual" "/inbox"
      ["ABC/ABC-123.mp4", "ABC/ABC-123.mp4", "/etc/ABC-123.mp4", "../ABC-123.mp4", "ABC/ABC-1234.mp4"] 0,
    .addAttempts "ABC-123" [{ magnet := "magnet:AA", infoHash := some "AA", source := "manual" }] 0,
    .claimNextPending "ABC-123" 0, .casAcquisition "ABC-123" .discovered .downloading 0 none none none,
    .casAttempt "ABC-123" 1 .submitted .finished 1 none]

def outside : World.Outside
  | .listOfflineFiles _ => .ok [⟨"ABC-123", "AA", .finished, 100⟩]
  | .listDirectory "/library/ABC" => .ok [⟨"/library/ABC/ABC-123.mp4", false⟩, ⟨"/library/ABC/ABC-1234.mp4", false⟩]
  | .listDirectory _ => .ok []
  | .locate _ _ => .ok (some (⟨"/mnt/inbox/ABC-123", "ABC-123"⟩, ⟨"/mnt/inbox", "/mnt/library", false⟩))
  | .isDir _ => .ok true
  | .largeVideos _ => .ok [⟨"/mnt/inbox/ABC-123/ABC-123.mp4", "ABC-123.mp4", 1⟩]
  | .replacedCopies .. => .ok ["/mnt/cloud/library/ABC/ABC-123.mp4"]
  | _ => .error ⟨.failure "unreachable", trivial⟩

def deletes : M Unit → Option (List String)
  | .act (.ask (.deleteFiles paths)) _ => some paths
  | _ => none

theorem deletes_eq_some {p : M Unit} {paths : List String} (h : deletes p = some paths) :
    ∃ next, p = .act (.ask (.deleteFiles paths)) next := by
  unfold deletes at h
  split at h
  · cases h
    exact ⟨_, rfl⟩
  · cases h

/-- The answer about the old copy is what the tree holds. -/
def shows : (op : Op) → Except Exn op.Res → Bool
  | .ask (.replacedCopies avid libraryPaths), .ok present =>
    present.map PurePath.of = tree.replacedCopies avid libraryPaths
  | _, _ => true

theorem libraryShows_of_shows {op : Op} {r : Except Exn op.Res} (h : shows op r = true) : LibraryShows library op r := by
  unfold shows at h
  split at h
  · exact ⟨tree, rfl, by simpa using h⟩
  · rename_i hne
    unfold LibraryShows
    split
    · exact (hne _ _ _ rfl HEq.rfl).elim
    · trivial

def start : Pool Op.Res Exn Unit (World Unit) Unit := ⟨⟨replacing, 2, []⟩, fun _ => tracker.replica 1⟩

def turns : List (Unit × (Nat × World.Outside)) := List.replicate 15 ((), (1, outside))

end ReplacedExample

open ReplacedExample in
theorem deletes_only_old_copies_recorded :
    ∃ r : Replacement, r.Allows tracker library ((World.schedule turns start).world.history ()) ["/library/ABC/ABC-123.mp4"] := by
  have hreach : Pool.Reach (World.Step (LibraryShows library)) start (World.schedule turns start) := by
    refine Pool.reach_turnsOk (fun _ _ op r _ => shows op r) (fun i d w op h => ?_) (by decide)
    exact World.turn_step (libraryShows_of_shows h)
  have hdeletes : deletes ((World.schedule turns start).prog ()) = some ["/library/ABC/ABC-123.mp4"] := by decide
  obtain ⟨next, hnext⟩ := deletes_eq_some hdeletes
  exact deletes_only_old_copies hreach (i := ()) rfl hnext

end EmbyxManager
