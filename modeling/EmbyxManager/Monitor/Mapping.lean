import EmbyxManager.Atom.Table
import EmbyxManager.Monitor.Library
import EmbyxManager.Monitor.Parts
/-!
# The STRM mapping

`MappingPipeline`: the remote tree keeps `xx/yy/zz.strm`, the local mirror keeps
`xx/yy/ZZ/zz.strm`, one directory per title. `run_full` rebuilds the mirror, `run_incremental`
applies the changes of one batch.

Both trees are read as a file system that answers what it holds. The walks for `*.strm` list
files: that is all they find where no directory's name ends so. A directory that spells the
suffix otherwise (`ABC-123.STRM`) is there, and an entry of its parent like any other. Contents
are compared by `filecmp`, which remembers its answers for as long as the process lives.
-/

namespace EmbyxManager.Mapping

open Atom

/-! ## Trees -/

/-- A file below the root of a tree: the names of its directories, and its own. -/
structure StrmPath where
  dir : List String
  name : String
  deriving DecidableEq

def StrmPath.parts (p : StrmPath) : List String := p.dir ++ [p.name]

structure File where
  content : String
  mtime : Nat
  deriving DecidableEq

/-- The files, and the directories that are there whether or not they hold any. -/
structure Tree where
  files : Table (StrmPath × File) StrmPath (·.1)
  dirs : List (List String)

namespace Tree
variable (t : Tree)

def empty : Tree := ⟨.empty, []⟩

def file (p : StrmPath) : Option File := (t.files.find p).map (·.2)

def content (p : StrmPath) : Option String := (t.file p).map (·.content)

def isFile (p : StrmPath) : Bool := (t.file p).isSome

def isDir (d : List String) : Bool :=
  d = [] || t.dirs.any (fun d' => d <+: d') || t.files.rows.any fun f => d <+: f.1.dir

/-- The paths of the files. -/
def paths : List StrmPath := t.files.rows.map (·.1)

def write (p : StrmPath) (f : File) : Tree := { t with files := t.files.put (p, f) }

/-- The directory stays where its last file goes. -/
def unlink (p : StrmPath) : Tree := ⟨t.files.keep fun f => f.1 ≠ p, p.dir :: t.dirs⟩

def mkdir (d : List String) : Tree := { t with dirs := d :: t.dirs }

def rmdir (d : List String) : Tree := { t with dirs := d.dropLast :: t.dirs.filter (· ≠ d) }

def rmtree (d : List String) : Tree :=
  ⟨t.files.keep fun f => ¬ d <+: f.1.dir, d.dropLast :: t.dirs.filter fun d' => ¬ d <+: d'⟩

/-- A directory that a path needs is a file. -/
def blocked (d : List String) : Bool := t.paths.any fun p => p.parts <+: d

/-- Whether `iterdir` has something. -/
def hasEntries (d : List String) : Bool :=
  t.files.rows.any (fun f => d <+: f.1.dir) || t.dirs.any fun d' => d <+: d' ∧ d' ≠ d

/-- `glob('**/*')`, the directories. -/
def allDirs : List (List String) :=
  (t.dirs ++ t.paths.map (·.dir)).flatMap fun d => (d.inits.filter (· ≠ []))

/-- The names of the directories in a directory. -/
def subdirs (d : List String) : List String :=
  (t.dirs ++ t.paths.map (·.dir)).filterMap fun e => if d <+: e then (e.drop d.length).head? else none

end Tree

/-! ## Names -/

def dotStrm : List Char := ".strm".toList

/-- The pattern `*.strm`. -/
def matchesStrm (name : String) : Bool := dotStrm <:+ name.toList

/-- `suffix.lower() == '.strm'`. -/
def isStrm (name : String) : Bool := (suffix name).map Char.toLower = dotStrm

/-- `glob('**/*.strm')`. -/
def Tree.glob (t : Tree) : List StrmPath := t.paths.filter fun p => matchesStrm p.name

/-! ## Comparing files -/

/-- What `filecmp` looks at before it reads a file: `st_size` and `st_mtime`. -/
def File.sig (f : File) : Nat × Nat := (f.content.utf8ByteSize, f.mtime)

/-- What a comparison is remembered under. -/
structure Comparison where
  src : StrmPath
  dst : StrmPath
  srcSig : Nat × Nat
  dstSig : Nat × Nat
  deriving DecidableEq

/-- The `_cache` of `filecmp`, which is the process's own. -/
abbrev Memory := Table (Comparison × Bool) Comparison (·.1)

/-- `filecmp.cmp` with `shallow=False`: the files are read only where no answer is remembered for
what `stat` says of them, and a memory of more than a hundred answers is dropped before the next. -/
def cmp (memory : Memory) (p q : StrmPath) (file old : File) : Bool × Memory :=
  if file.sig.1 ≠ old.sig.1 then (false, memory)
  else
    match memory.find ⟨p, q, file.sig, old.sig⟩ with
    | some (_, outcome) => (outcome, memory)
    | none =>
      let outcome : Bool := old.content = file.content
      (outcome, (if 100 < memory.rows.length then .empty else memory).put (⟨p, q, file.sig, old.sig⟩, outcome))

/-- The destination, with what the process remembers of its comparisons. -/
structure Dest where
  tree : Tree
  memory : Memory

inductive MappingExn where
  | fileExists (path : List String)
  | isADirectory (path : List String)
  deriving DecidableEq

/-- The AVID a name reads as is all the pipeline takes from the parser; empty when there is none. -/
structure MappingPipeline where
  getAvid : String → Avid

namespace MappingPipeline
variable (m : MappingPipeline)

def mapStrmPath (src : StrmPath) : Option StrmPath :=
  if !isStrm src.name then none
  else if m.getAvid src.name = "" then none
  else some ⟨src.dir ++ [m.getAvid src.name], src.name⟩

/-! ## Single paths -/

def updateOne (src : Tree) (dst : Dest) (p : StrmPath) : Except MappingExn Dest :=
  match m.mapStrmPath p with
  | none => .ok dst
  | some target =>
    match src.file p with
    | none => if src.isDir p.parts then .error (.isADirectory p.parts) else .ok dst
    | some file =>
      if dst.tree.blocked target.dir then .error (.fileExists target.dir)
      else if dst.tree.isDir target.parts then .error (.fileExists target.parts)
      else
        let made := dst.tree.mkdir target.dir
        match dst.tree.file target with
        | none => .ok ⟨made.write target file, dst.memory⟩
        | some old =>
          if file.mtime ≤ old.mtime then
            let (same, memory) := cmp dst.memory p target file old
            .ok ⟨if same then made else made.write target file, memory⟩
          else .ok ⟨made.write target file, dst.memory⟩

/-- The longest of some names. -/
def longest : List (List Char) → Option (List Char)
  | [] => none
  | s :: rest =>
    match longest rest with
    | some r => if s.length < r.length then some r else some s
    | none => some s

/-- `_owner`: the longest strm name that, followed by `.` or `-`, starts the name. -/
def owner (name : List Char) (stems : List (List Char)) : Option (List Char) :=
  longest (stems.filter fun s => (s ++ ['.']) <+: name ∨ (s ++ ['-']) <+: name)

open Regex in
/-- `PART_SIDECAR_RE`. -/
def partSidecarRe : Regex :=
  .seq (.group 1 (.all [plus (.one Parts.notLineFeed), Parts.word "-cd", plus (.one isDecimal)]))
    (.one fun c => c = '.' || c = '-')

/-- The part a file names, where it names one. -/
def partStem (name : List Char) : Option (List Char) := (Regex.matchStart partSidecarRe name).bind (·.group 1)

/-- Whose metadata a file is: that of a strm, or with `orphaned` of a part that has none. -/
def ownerOf (live gone : List (List Char)) (orphaned : Bool) (name : List Char) : Option (List Char) :=
  let own := owner name (live ++ gone)
  match if orphaned ∧ live ≠ [] then partStem name else none with
  | some part => if part ∉ live ∧ (own.getD []).length < part.length then some part else own
  | none => own

/-- The names of the entries that are spelled like a strm; directories are entries too. -/
def live (t : Tree) (directory : List String) : List (List Char) :=
  (((t.paths.filter (·.dir = directory)).map (·.name) ++ t.subdirs directory).filter isStrm).map stem

/-- The metadata that strms which are gone have left in a directory. -/
def sidecars (t : Tree) (directory : List String) (stems : List (List Char)) (orphaned : Bool) : List StrmPath :=
  let gone := stems.filter (· ∉ live t directory)
  (t.paths.filter (·.dir = directory)).filter fun e =>
    !isStrm e.name && (ownerOf (live t directory) gone orphaned e.name.toList).any (· ∉ live t directory)

def deleteSidecars (t : Tree) (directory : List String) (stems : List (List Char)) (orphaned : Bool) : Tree :=
  (sidecars t directory stems orphaned).foldl Tree.unlink t

/-- `_delete_empty_dirs_for_path`, the path's names backwards. -/
def deleteEmptyDirsForPath (t : Tree) : List String → Tree
  | [] => t
  | name :: up =>
    if t.hasEntries (name :: up).reverse then t
    else deleteEmptyDirsForPath (if t.isDir (name :: up).reverse then t.rmdir (name :: up).reverse else t) up

def deleteOne (dst : Tree) (p : StrmPath) : Except MappingExn Tree :=
  match m.mapStrmPath p with
  | none => .ok dst
  | some target =>
    if dst.isFile target then
      .ok (deleteEmptyDirsForPath (deleteSidecars (dst.unlink target) target.dir [stem target.name] false) target.dir.reverse)
    else if dst.isDir target.parts then .error (.isADirectory target.parts)
    else .ok dst

/-! ## The full run -/

/-- The source of a copy: its directory is the title's. -/
def sourceOf (dst : StrmPath) : StrmPath := ⟨dst.dir.dropLast, dst.name⟩

/-- `_moved`. -/
def moved (t : Tree) (src dst : StrmPath) : Bool := (m.mapStrmPath src).any fun target => target ≠ dst ∧ t.isFile target

/-- One copy of `_delete_strays`, with the strms that are deleted by directory. -/
def deleteStray (src : Tree) (acc : Tree × List (List String × List Char)) (dst : StrmPath) :
    Tree × List (List String × List Char) :=
  if !src.isFile (sourceOf dst) || m.moved acc.1 (sourceOf dst) dst then
    (acc.1.unlink dst, acc.2 ++ [(dst.dir, stem dst.name)])
  else acc

def deleteStrays (src dst : Tree) : Tree :=
  let (t, deleted) := dst.glob.foldl (m.deleteStray src) (dst, [])
  (dst.glob.map (·.dir)).eraseDups.foldl
    (fun t d => deleteSidecars t d ((deleted.filter (·.1 = d)).map (·.2)) true) t

/-- The directories without a strm below them. -/
def emptyDirs (t : Tree) : List (List String) := t.allDirs.filter fun d => !t.glob.any fun p => d <+: p.dir

def deleteEmptyDirs (t : Tree) : Tree :=
  ((emptyDirs t).mergeSort fun a b => b ≤ a).foldl (fun t d => if t.isDir d then t.rmtree d else t) t

def runFull (src : Tree) (dst : Dest) : Except MappingExn Dest := do
  let dst ← src.glob.foldlM (m.updateOne src) dst
  pure ⟨deleteEmptyDirs (m.deleteStrays src dst.tree), dst.memory⟩

/-! ## The incremental run -/

/-- Each path of a batch in its turn, and those that failed. -/
def eachPath {σ : Type} (one : σ → StrmPath → Except MappingExn σ) (s : σ) (ps : List StrmPath) : σ × List StrmPath :=
  ps.foldl
    (fun acc p =>
      match one acc.1 p with
      | .ok s => (s, acc.2)
      | .error _ => (acc.1, acc.2 ++ [p]))
    (s, [])

/-- The destination, and the changes and the deletions that failed. -/
def runIncremental (src : Tree) (dst : Dest) (changed deleted : List StrmPath) : Dest × List StrmPath × List StrmPath :=
  let (tree, failedDeleted) := eachPath m.deleteOne dst.tree deleted
  let (dst, failedChanged) := eachPath (m.updateOne src) ⟨tree, dst.memory⟩ changed
  (dst, failedChanged, failedDeleted)

end MappingPipeline

end EmbyxManager.Mapping
