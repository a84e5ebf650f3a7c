import EmbyxManager.Atom.Grouping
import EmbyxManager.Config.Paths
import EmbyxManager.Core.Avid
import EmbyxManager.Merge.TaskTable
/-!
# Titles in parts

`scan_multipart` finds the titles of the mapping tree that are stored as several strm files
named by `-cdN`, and says of each whether its parts are all there.
-/

namespace EmbyxManager.Merge

open Atom Atom.Regex Atom.Grouping Config
open Parts (word notLineFeed)

/-! ## Names -/

/-- `str.upper` and `str.lower`. -/
structure Casing where
  upper : String → String
  lower : String → String

/-- `CD_STRM_RE`: the stem is group 1, the index group 2. -/
def cdStrmRe : Regex :=
  .all [.start, .group 1 (plus (.one notLineFeed)), .one (· = '-'), word "cd", .group 2 (plus (.one isDecimal)), .one (· = '.'),
    word "strm", .finish]

/-- `CD_SUFFIX_RE`. -/
def cdSuffixRe : Regex := .all [.one (· = '-'), word "cd", plus (.one isDecimal), .finish]

/-- The stem and the number of a part's name. -/
def partName (name : String) : Option (String × Nat) :=
  (cdStrmRe.matchStart name.toList).map fun found =>
    (String.ofList ((found.group 1).getD []), intOf ((found.group 2).getD []))

def isWholeCopy (py : Casing) (stem avid : String) : Bool :=
  if (cdSuffixRe.search stem.toList).isSome then false
  else Core.normalizeNumber (py.upper (strip stem)).toList = Core.normalizeNumber (py.upper (strip avid)).toList

/-! ## Files -/

def maxStrmBytes : Nat := 4096

/-- Where `str.splitlines` ends a line. -/
def isLineBreak (c : Char) : Bool := (0x0A ≤ c.toNat && c.toNat ≤ 0x0D) || (0x1C ≤ c.toNat && c.toNat ≤ 0x1E) ||
  [0x85, 0x2028, 0x2029].contains c.toNat

/-- `str.splitlines`, with what the line under way has so far, backwards. -/
def splitlines : List Char → List Char → List (List Char)
  | [], [] => []
  | line, [] => [line.reverse]
  | line, '\r' :: '\n' :: rest => line.reverse :: splitlines [] rest
  | line, c :: rest => if isLineBreak c then line.reverse :: splitlines [] rest else splitlines (c :: line) rest

/-- `_read_strm`: the one absolute path of a strm; none stands for a file that cannot be read. -/
def readStrm (payload : Option ByteArray) : Option String :=
  match payload with
  | none => none
  | some payload =>
    if payload.size = 0 ∨ maxStrmBytes < payload.size then none
    else match String.fromUTF8? payload with
      | none => none
      | some text =>
        match splitlines [] (strip text).toList with
        | [line] => if line.head? = some '/' then some (strip (String.ofList line)) else none
        | _ => none

/-- What `os.walk` finds below the root of the mapping tree: each directory once, with the files in it. -/
structure StrmTree where
  dirs : List (Path × List String)
  read : Path → String → Option ByteArray
  dirs_nodup : (dirs.map (·.1)).Nodup
  dirs_named : ∀ d ∈ dirs, ∀ name ∈ d.1, PathComponent name
  files_nodup : ∀ d ∈ dirs, d.2.Nodup

/-! ## Titles -/

structure Part where
  index : Nat
  /-- The strm, relative to the root of the mapping tree. -/
  strm : String
  /-- The part's file, as the strm names it. -/
  target : String
  deriving DecidableEq

structure MultipartTitle where
  avid : String
  directory : String
  parts : List Part
  /-- Part numbers absent from 1..highest. -/
  missing : List Nat
  libraryDir : Option String
  brand : Option String
  problem : Option TitleProblem
  deriving DecidableEq

namespace MultipartTitle

def partCount (title : MultipartTitle) : Nat := title.parts.length

def complete (title : MultipartTitle) : Bool := title.missing.isEmpty && title.problem.isNone

end MultipartTitle

/-- `str` of a path below the root. -/
def shownBelow (path : Path) : String := (PosixPath.mk "" path).str

def highest (indexes : List Nat) : Nat := indexes.foldl max 0

/-- The numbers from 1 to the highest that no part has. -/
def missing (indexes : List Nat) : List Nat := (List.range' 1 (highest indexes)).filter (· ∉ indexes)

/-- `PurePath.relative_to`; none stands for the `ValueError`. -/
def relativeTo (path root : PosixPath) : Option Path :=
  if path.root = root.root ∧ root.names <+: path.names then some (path.names.drop root.names.length) else none

/-- The library directory and the brand of the parts, or what is wrong with where they lie. -/
def located (libraryRoot : PosixPath) (targets : List String) : Except TitleProblem (String × String) :=
  match (targets.map fun target => PosixPath.mk (PosixPath.of target).root (PosixPath.of target).names.dropLast).eraseDups with
  | [parent] =>
    match relativeTo parent libraryRoot with
    | none => .error .outsideLibrary
    | some relative =>
      if relative.length < 2 then .error .outsideLibrary
      else .ok (shownBelow relative.dropLast, relative.getLast?.getD "")
  | _ => .error .scatteredParts

/-- `_title`, of parts in order. -/
def titleOf (tree : StrmTree) (libraryRoot : PosixPath) (dir : Path) (stem : String) (entries : List (Nat × String))
    (whole : Bool) : MultipartTitle :=
  let targets := entries.map fun entry => readStrm (tree.read dir entry.2)
  let parts := entries.map fun entry =>
    ⟨entry.1, shownBelow (dir ++ [entry.2]), (readStrm (tree.read dir entry.2)).getD ""⟩
  let found : Except TitleProblem (String × String) :=
    if targets.any (·.isNone) then .error .unreadableStrm else located libraryRoot (parts.map (·.target))
  let title : MultipartTitle :=
    { avid := stem, directory := shownBelow dir, parts, missing := missing (entries.map (·.1))
      libraryDir := none, brand := none, problem := none }
  match found with
  | .error problem => { title with problem := some problem }
  | .ok (libraryDir, brand) =>
    { title with libraryDir := some libraryDir, brand := some brand, problem := if whole then some .wholeCopy else none }

/-- The order of `(index, path)` within one directory. -/
def entryLe (a b : Nat × String) : Prop := a.1 < b.1 ∨ a.1 = b.1 ∧ a.2 ≤ b.2

instance : DecidableRel entryLe := fun a b => by
  unfold entryLe
  infer_instance

/-- Most parts first. -/
def titleLe (a b : MultipartTitle) : Prop := b.partCount < a.partCount ∨ a.partCount = b.partCount ∧ a.avid ≤ b.avid

instance : DecidableRel titleLe := fun a b => by
  unfold titleLe
  infer_instance

namespace StrmTree
variable (py : Casing) (tree : StrmTree)

/-- The parts, each under its directory and the upper-cased stem of its name. -/
def partFiles : List ((Path × String) × Nat × String) :=
  tree.dirs.flatMap fun (dir, names) => names.filterMap fun name =>
    (partName name).map fun (stem, index) => ((dir, py.upper stem), index, name)

/-- The strm stems that are not a part, each under its directory. -/
def singles : List (Path × String) :=
  tree.dirs.flatMap fun (dir, names) => names.filterMap fun name =>
    if (partName name).isNone ∧ (".strm".toList <:+ (py.lower name).toList) then
      some (dir, String.ofList (name.toList.take (name.toList.length - 5)))
    else none

end StrmTree

def scanMultipart (py : Casing) (tree : StrmTree) (libraryRoot : String) : List MultipartTitle :=
  let groups := (grouped (tree.partFiles py)).filter fun group => 1 < group.2.length
  let titles := groups.map fun ((dir, stem), entries) =>
    titleOf tree (PosixPath.of libraryRoot) dir stem (entries.insertionSort entryLe)
      ((groupOf dir (tree.singles py)).any fun single => isWholeCopy py single stem)
  titles.insertionSort titleLe

/-! ## Enqueueing -/

/-- The title as `enqueue` takes it. -/
def MultipartTitle.toTitle (title : MultipartTitle) : Title where
  avid := title.avid
  targets := title.parts.map fun part => (PosixPath.of part.target).names
  missing := title.missing
  libraryDir := title.libraryDir
  brand := title.brand
  problem := title.problem

/-- `PurePosixPath(target).suffix.lower()`. -/
def fileSuffix (py : Casing) (path : Path) : String := py.lower (String.ofList (suffix (path.getLast?.getD "")))

end EmbyxManager.Merge
