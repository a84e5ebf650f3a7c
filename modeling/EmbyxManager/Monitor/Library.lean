import Mathlib.Data.List.TakeWhile
import EmbyxManager.Monitor.Archive
/-!
# The library

`_move_into_library` and what it asks of the library: the directory of a brand, the copies
another route's destination holds, the ones a priority route takes over, and the names the
videos get. Every look at the library and every rename is an action of its own, so a run
can be looked at between any two of them.

A file is addressed by the directory of its brand, `dst_dir / dst / brand`, and its name.
-/

namespace EmbyxManager
open Atom

/-! ## Names -/

/-- Where the last dot of a name parts it: what stands before, and the extension with its
dot. A dot at either end parts nothing. -/
def splitName (name : List Char) : List Char × List Char :=
  let ext := (name.reverse.takeWhile (· ≠ '.')).reverse
  let stem := (name.reverse.dropWhile (· ≠ '.')).tail.reverse
  if ext = [] ∨ stem = [] then (name, []) else (stem, '.' :: ext)

/-- `PurePath.stem`. -/
def stem (name : String) : List Char := (splitName name.toList).1

/-- `PurePath.suffix`. -/
def suffix (name : String) : List Char := (splitName name.toList).2

/-- `VIDEO_SUFFIXES`. -/
def videoSuffixes : List String := [".mp4", ".mkv", ".avi", ".wmv", ".mov", ".flv", ".m4v", ".ts", ".rmvb"]

/-- Named, so that the definitions below do not carry its proof. -/
instance lawfulBEq_listChar : LawfulBEq (List Char) := inferInstance

/-- `str.lower`, as a text in ASCII can tell: the Kelvin sign is the one other character that becomes a letter of it. -/
def lowerChar (c : Char) : Char := if c = Char.ofNat 0x212A then 'k' else c.toLower

def hasVideoSuffix (name : String) : Bool := ((suffix name).map lowerChar) ∈ videoSuffixes.map String.toList

/-- `AVID.ext` or `AVID-cdN.ext`: the `-` keeps `ABC-12` from claiming `ABC-123.mp4`. -/
def belongsTo (avid : Avid) (name : String) : Bool :=
  hasVideoSuffix name ∧ (stem name = avid.toList ∨ (avid.toList ++ ['-']) <+: stem name)

/-- A name with a suffix is parted at the last dot. -/
theorem splitName_append {name ext : List Char} (hn : name ≠ []) (he : ext ≠ []) (hd : '.' ∉ ext) :
    splitName (name ++ '.' :: ext) = (name, '.' :: ext) := by
  have hrev : (name ++ '.' :: ext).reverse = ext.reverse ++ '.' :: name.reverse := by simp
  have hp : ∀ c ∈ ext.reverse, decide (c ≠ '.') = true := by
    intro c hc
    have : c ≠ '.' := by
      rintro rfl
      exact hd (List.mem_reverse.1 hc)
    simpa using this
  unfold splitName
  rw [hrev, List.takeWhile_append_of_pos hp, List.dropWhile_append_of_pos hp]
  simp [hn, he]

/-- A suffix is what stands from the last dot of a name on. -/
theorem splitName_cases (name : List Char) :
    (splitName name).2 = [] ∨
      ∃ stem ext, name = stem ++ '.' :: ext ∧ stem ≠ [] ∧ '.' ∉ ext ∧ splitName name = (stem, '.' :: ext) := by
  have hname : name = (name.reverse.dropWhile (· ≠ '.')).reverse ++ (name.reverse.takeWhile (· ≠ '.')).reverse := by
    rw [← List.reverse_append, List.takeWhile_append_dropWhile, List.reverse_reverse]
  have hd : '.' ∉ (name.reverse.takeWhile (· ≠ '.')).reverse := by
    intro h
    simpa using List.mem_takeWhile_imp (List.mem_reverse.1 h)
  unfold splitName
  dsimp only
  split
  · exact .inl rfl
  · rename_i h
    obtain ⟨he, hs⟩ := not_or.1 h
    cases hrest : name.reverse.dropWhile (· ≠ '.') with
    | nil => exact absurd (by rw [hrest]; rfl) hs
    | cons c cs =>
      have hc : c = '.' := by
        have hw : name.reverse.dropWhile (fun c => decide (c ≠ '.')) ≠ [] := by
          rw [hrest]
          exact List.cons_ne_nil c cs
        have hne := List.head_dropWhile_not (fun c => decide (c ≠ '.')) hw
        simp only [hrest, List.head_cons] at hne
        simpa using hne
      subst hc
      rw [hrest] at hname hs
      refine .inr ⟨cs.reverse, _, ?_, hs, hd, by simp⟩
      simpa using hname

/-- A number stands for the studios that are numbers: two digits of it are the brand. -/
def getBrand (avid : Avid) : Option String :=
  if '-' ∈ avid.toList then
    let brand := avid.toList.takeWhile (· ≠ '-')
    -- `$` matches before a line feed at the end
    let number := if brand.getLast? = some '\n' then brand.dropLast else brand
    if number ≠ [] ∧ number.all isDecimal ∧ 2 ≤ brand.length then some (String.ofList (brand.take 2))
    else some (String.ofList brand)
  else none

/-! ## The library -/

/-- A brand's directory. -/
structure BrandDir where
  dst : String
  brand : String
  deriving DecidableEq, Repr

structure LibraryFile where
  dir : BrandDir
  name : String
  deriving DecidableEq, Repr

/-- What stands below the destinations. A file at the path of a brand's directory, over which `mkdir` raises, is no
part of it. -/
structure Library where
  files : List LibraryFile
  /-- What stands at a path without being a file. -/
  others : List LibraryFile := []
  dirs : List BrandDir := []

/-- The routes of `ArchiveConfig`, source to destination, and the brands pinned to one. -/
structure LibraryRoutes where
  mapping : List (String × String)
  priorityMapping : List (String × String)
  brandMapping : List (String × List String)

namespace Library
variable (L : Library)

def pathExists (f : LibraryFile) : Bool := f ∈ L.files ∨ f ∈ L.others

def isDir (d : BrandDir) : Bool := d ∈ L.dirs ∨ ∃ f ∈ L.files, f.dir = d

/-- The files of an AVID in one directory, as `_matching_archived` lists them. -/
def matching (avid : Avid) (d : BrandDir) : List String :=
  ((L.files.filter fun f => f.dir = d ∧ belongsTo avid f.name).map (·.name)).insertionSort (· ≤ ·)

def remove (f : LibraryFile) : Library := { L with files := L.files.filter (· ≠ f) }

def add (f : LibraryFile) : Library := { L with files := f :: L.files.filter (· ≠ f) }

variable {L} {f g : LibraryFile} {avid : Avid} {d : BrandDir} {name : String}

@[simp] theorem mem_add : g ∈ (L.add f).files ↔ g = f ∨ g ∈ L.files := by
  by_cases h : g = f <;> simp [add, h]

@[simp] theorem mem_remove : g ∈ (L.remove f).files ↔ g ∈ L.files ∧ g ≠ f := by simp [remove]

@[simp] theorem add_others : (L.add f).others = L.others := rfl

@[simp] theorem remove_others : (L.remove f).others = L.others := rfl

theorem pathExists_iff : L.pathExists f = true ↔ f ∈ L.files ∨ f ∈ L.others := by simp [pathExists]

theorem mem_matching : name ∈ L.matching avid d ↔ ⟨d, name⟩ ∈ L.files ∧ belongsTo avid name = true := by
  simp only [matching, List.mem_insertionSort, List.mem_map, List.mem_filter, Bool.decide_and, Bool.decide_eq_true,
    Bool.and_eq_true, decide_eq_true_eq]
  constructor
  · rintro ⟨f, ⟨hf, rfl, hb⟩, rfl⟩
    exact ⟨hf, hb⟩
  · rintro ⟨hf, hb⟩
    exact ⟨_, ⟨hf, rfl, hb⟩, rfl⟩

theorem matching_of_not_isDir (h : L.isDir d = false) : L.matching avid d = [] := by
  refine List.eq_nil_iff_forall_not_mem.2 fun name hn => ?_
  have hf := (mem_matching.1 hn).1
  simp only [isDir, decide_eq_false_iff_not, not_or, not_exists, not_and] at h
  exact h.2 _ hf rfl

end Library

/-! ## Actions -/

inductive LibraryOp where
  | isDir (d : BrandDir)
  /-- The files of an AVID among what `iterdir` yields, sorted. -/
  | listMatching (avid : Avid) (d : BrandDir)
  | pathExists (f : LibraryFile)
  | mkdir (d : BrandDir)
  /-- `video.rename(target)`. -/
  | moveIn (video : Video) (target : LibraryFile)
  /-- `archived.rename(target)`. -/
  | promote (archived target : LibraryFile)
  /-- What is not about the library. -/
  | outside (op : Op)

abbrev LibraryOp.Res : LibraryOp → Type
  | isDir _ | pathExists _ => Bool
  | listMatching .. => List String
  | mkdir _ | moveIn .. | promote .. => Unit
  | outside op => op.Res

/-- The programs of the archive pipeline that work on the library. -/
abbrev LibraryM := Prog LibraryOp.Res Exn

namespace Archive

/-- The directory a brand's videos go to by a route; none for an AVID without a brand. -/
def findDstDir (routes : LibraryRoutes) (avid : Avid) (dst : String) : Option BrandDir :=
  match getBrand avid with
  | none => none
  | some brand =>
    if brand = "" then none
    else
      match routes.brandMapping.find? fun entry => brand ∈ entry.2 with
      | some entry => some ⟨entry.1, brand⟩
      | none => some ⟨dst, brand⟩

def brandRouted (routes : LibraryRoutes) (brand : String) : Bool := routes.brandMapping.any fun entry => brand ∈ entry.2

/-- The destinations of a table, each once. -/
def destinations (table : List (String × String)) : List String := (table.map (·.2)).eraseDups

def matchingArchived (avid : Avid) (d : BrandDir) : LibraryM (List String) := do
  if ← Prog.call (LibraryOp.isDir d) then Prog.call (LibraryOp.listMatching avid d) else pure []

def promoteFile (source target : BrandDir) (name : String) : LibraryM Unit := do
  if ← Prog.call (LibraryOp.pathExists ⟨target, name⟩) then pure ()
  else do
    Prog.call (LibraryOp.mkdir target)
    Prog.call (LibraryOp.promote ⟨source, name⟩ ⟨target, name⟩)

/-- Move an AVID out of every normal route's destination into the priority one. -/
def promoteFromNormal (routes : LibraryRoutes) (avid : Avid) (target : BrandDir) : LibraryM Unit :=
  Prog.forEach (destinations routes.mapping) fun dst =>
    if ⟨dst, target.brand⟩ = target then pure ()
    else do
      let names ← matchingArchived avid ⟨dst, target.brand⟩
      Prog.forEach names (promoteFile ⟨dst, target.brand⟩ target)

/-- Whether one of the destinations other than `own` holds the AVID. -/
def heldBy (avid : Avid) (own : BrandDir) : List String → LibraryM Bool
  | [] => pure false
  | dst :: dsts =>
    if ⟨dst, own.brand⟩ = own then heldBy avid own dsts
    else do
      let names ← matchingArchived avid ⟨dst, own.brand⟩
      if names = [] then heldBy avid own dsts else pure true

def heldByPriority (routes : LibraryRoutes) (avid : Avid) (own : BrandDir) : LibraryM Bool :=
  heldBy avid own (destinations routes.priorityMapping)

/-- The name of one video: `-cdN` where there are several. -/
def targetName (avid : Avid) (multiPart : Bool) (index : Nat) (video : Video) : String :=
  avid ++ (if multiPart then "-cd" ++ Nat.repr (index + 1) else "") ++ String.ofList (suffix video.name)

def targets (avid : Avid) (videos : List Video) (d : BrandDir) : List (Video × LibraryFile) :=
  videos.zipIdx.map fun p => (p.1, ⟨d, targetName avid (1 < videos.length) p.2 p.1⟩)

/-- Whether some target is already there. -/
def anyExists : List (Video × LibraryFile) → LibraryM Bool
  | [] => pure false
  | t :: ts => do if ← Prog.call (LibraryOp.pathExists t.2) then pure true else anyExists ts

/-- What the routes have to say: a priority route first takes over what the normal ones
hold, a normal one is refused when a priority destination holds the AVID. Brands pinned by
`brand_mapping` land in the same directory whatever the route. -/
def guardRoutes (routes : LibraryRoutes) (avid : Avid) (own : BrandDir) (priority : Bool) : LibraryM Bool :=
  if brandRouted routes own.brand then pure false
  else if priority then do
    promoteFromNormal routes avid own
    pure false
  else heldByPriority routes avid own

/-- `_display(target, dst_dir)`. -/
def LibraryFile.display (f : LibraryFile) : String := f.dir.dst ++ "/" ++ f.dir.brand ++ "/" ++ f.name

def fileTargets (own : BrandDir) (ts : List (Video × LibraryFile)) : LibraryM (List String) := do
  if ← anyExists ts then pure []
  else do
    Prog.call (LibraryOp.mkdir own)
    Prog.forEach ts fun t => Prog.call (LibraryOp.moveIn t.1 t.2)
    pure (ts.map fun t => LibraryFile.display t.2)

/-- `_move_into_library`: rename each part after the AVID and move it in; nothing when it
is already there. -/
def moveIntoLibrary (routes : LibraryRoutes) (avid : Avid) (videos : List Video) (dst : String) (priority : Bool) :
    LibraryM (List String) :=
  match findDstDir routes avid dst with
  | none => pure []
  | some own => do
    let held ← guardRoutes routes avid own priority
    if held then pure [] else fileTargets own (targets avid videos own)

/-- The library's part of the pipeline in the place of the one action it is elsewhere. -/
def library (routes : LibraryRoutes) : (op : Op) → LibraryM op.Res
  | .ask (.moveIntoLibrary avid videos dst priority) => moveIntoLibrary routes avid videos dst priority
  | op => Prog.call (LibraryOp.outside op)

end Archive

/-! ## Calls -/

/-- A call into the pipeline, with the videos above the size threshold it finds. -/
inductive ArchiveCall where
  | folder (folder : Folder) (videos : List Video) (dst : String) (priority : Bool) (expected : Avid)
  | looseGroup (avid : Avid) (videos : List Video) (dst : String) (priority : Bool)

namespace ArchiveCall

def videos : ArchiveCall → List Video
  | folder _ videos _ _ _ | looseGroup _ videos _ _ => videos

def dst : ArchiveCall → String
  | folder _ _ dst _ _ | looseGroup _ _ dst _ => dst

def priority : ArchiveCall → Bool
  | folder _ _ _ priority _ | looseGroup _ _ _ priority => priority

/-- What the call would file. -/
def selection (arch : Archiver) : ArchiveCall → Option VideoSet
  | .folder dir videos _ _ expected => (Archive.select arch dir.name videos expected).toOption
  | .looseGroup avid videos _ _ => some ⟨avid, videos.insertionSort fun v v' => v.name ≤ v'.name⟩

def program (arch : Archiver) (routes : LibraryRoutes) : ArchiveCall → LibraryM ArchiveResult
  | .folder dir _ dst priority expected =>
    (Archive.archiveFolder arch dir dst priority expected).handle (Archive.library routes)
  | .looseGroup avid videos dst priority =>
    (Archive.archiveLooseGroup avid videos dst priority).handle (Archive.library routes)

end ArchiveCall

/-! ## Runs -/

/-- What an action answers and leaves when the file system does not refuse it. -/
def Library.run (L : Library) : (op : LibraryOp) → Except Exn op.Res × Library
  | .isDir d => (.ok (L.isDir d), L)
  | .listMatching avid d => (.ok (L.matching avid d), L)
  | .pathExists f => (.ok (L.pathExists f), L)
  | .mkdir d => (.ok (), { L with dirs := d :: L.dirs })
  | .moveIn _ target => if target ∈ L.others then (.error (.failure "is a directory"), L) else (.ok (), L.add target)
  | .promote archived target =>
    if archived ∉ L.files then (.error .fileNotFound, L)
    else if target ∈ L.others then (.error (.failure "is a directory"), L)
    else (.ok (), (L.remove archived).add target)
  | .outside _ => (.error (.failure "not about the library"), L)

/-- The library in one call. The file system may refuse any action, and what is not about
the library leaves it alone; a folder's videos are the ones the call is about. -/
def LibraryStep (videos : List Video) : Env LibraryOp.Res Exn Library := fun L op =>
  match op with
  | .outside (.ask (.largeVideos _)) => fun r L' =>
    L' = L ∧ ((∃ vs, r = .ok vs ∧ vs = videos) ∨ ∃ e : Exn, r = .error e ∧ e.External)
  | .outside _ => fun r L' => L' = L ∧ ((∃ a, r = .ok a) ∨ ∃ e : Exn, r = .error e ∧ e.External)
  | op => fun r L' => (r, L') = L.run op ∨ (L' = L ∧ ∃ e : Exn, r = .error e ∧ e.External)

end EmbyxManager
