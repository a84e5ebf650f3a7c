import EmbyxManager.Monitor.PartOrder
import EmbyxManager.Monitor.Routes
/-!
# Paths in the configuration

The validators take a path as text and store it as `PurePosixPath` writes it. What is stored
reads back as the path it was written from, so a stored text and its components say the same.
-/

namespace EmbyxManager.Config

open Routes (Place place)

/-! ## Paths -/

/-- The components of a `PurePosixPath`, and how its root is written. -/
@[ext] structure PosixPath where
  root : String
  names : List String
  deriving DecidableEq

/-- The root of a path: exactly two leading slashes are kept. -/
def rootOf : List Char → String
  | '/' :: '/' :: '/' :: _ => "/"
  | '/' :: '/' :: _ => "//"
  | '/' :: _ => "/"
  | _ => ""

namespace PosixPath

def of (text : String) : PosixPath := ⟨rootOf text.toList, Tracker.pathParts text⟩

/-- `PurePath.parts`. -/
def parts (p : PosixPath) : List String := if p.root = "" then p.names else p.root :: p.names

/-- `self / p`. -/
def join (self p : PosixPath) : PosixPath := if p.root = "" then ⟨self.root, self.names ++ p.names⟩ else p

/-- `str(self)`. -/
def str (p : PosixPath) : String :=
  if p = ⟨"", []⟩ then "."
  else String.ofList (p.root.toList ++ ['/'].intercalate (p.names.map String.toList))

/-- The path, whichever way its root is written. -/
def pure (p : PosixPath) : PurePath := ⟨p.root ≠ "", p.names⟩

end PosixPath

/-! ## Validators -/

/-- `str.strip`. -/
def strip (text : String) : String :=
  String.ofList ((text.toList.dropWhile Parts.isSpace).reverse.dropWhile Parts.isSpace).reverse

/-- `str.rstrip('/')`. -/
def rstripSlash (text : String) : String := String.ofList (text.toList.reverse.dropWhile (· = '/')).reverse

def normalizeAbsolutePath (name value : String) : Except String String :=
  let trimmed := strip value
  if trimmed = "" then .ok ""
  else if trimmed.toList.head? ≠ some '/' then .error (name ++ " must be an absolute path")
  else if '\x00' ∈ trimmed.toList then .error (name ++ " must not contain a null byte")
  else
    let normalized := (PosixPath.of trimmed).str
    if ".." ∈ (PosixPath.of normalized).parts then .error (name ++ " must not contain \"..\"")
    else .ok normalized

def normalizeRelativeSubpath (name value : String) : Except String String :=
  let trimmed := rstripSlash (strip value)
  if trimmed = "" then .error (name ++ " must not be empty")
  else if trimmed.toList.head? = some '/' then .error (name ++ " must be relative to the configured root")
  else if '\x00' ∈ trimmed.toList then .error (name ++ " must not contain a null byte")
  else
    let normalized := (PosixPath.of trimmed).str
    if ".." ∈ (PosixPath.of normalized).parts then .error (name ++ " must not contain \"..\"")
    else .ok normalized

/-! ## What is written reads back -/

theorem not_mem_of_mem_splitOn {c : Char} {text part : List Char} (h : part ∈ text.splitOn c) : c ∉ part := by
  induction text generalizing part with
  | nil =>
    rw [List.splitOn_nil, List.mem_singleton] at h
    rw [h]
    exact List.not_mem_nil
  | cons d text ih =>
    rw [List.splitOn_cons_eq_if_modifyHead] at h
    split at h
    · rcases List.mem_cons.1 h with rfl | h
      · exact List.not_mem_nil
      · exact ih h
    · rename_i hd
      obtain ⟨head, rest, hsplit⟩ := List.exists_cons_of_ne_nil (List.splitOn_ne_nil c text)
      rw [hsplit, List.modifyHead_cons] at h
      rw [hsplit] at ih
      rcases List.mem_cons.1 h with rfl | h
      · intro hc
        rcases List.mem_cons.1 hc with rfl | hc
        · exact hd (BEq.refl c)
        · exact ih List.mem_cons_self hc
      · exact ih (List.mem_cons_of_mem _ h)

/-- A component as `PurePosixPath` keeps it. -/
structure PathComponent (name : String) : Prop where
  noSlash : '/' ∉ name.toList
  nonempty : name ≠ ""
  notDot : name ≠ "."

theorem component_of_mem_pathParts {text name : String} (h : name ∈ Tracker.pathParts text) : PathComponent name := by
  unfold Tracker.pathParts at h
  obtain ⟨hmem, hkept⟩ := List.mem_filter.1 h
  obtain ⟨part, hpart, rfl⟩ := List.mem_map.1 hmem
  obtain ⟨hne, hdot⟩ := of_decide_eq_true hkept
  exact ⟨by simpa using not_mem_of_mem_splitOn hpart, hne, hdot⟩

theorem pathParts_slash (text : List Char) :
    Tracker.pathParts (String.ofList ('/' :: text)) = Tracker.pathParts (String.ofList text) := by
  unfold Tracker.pathParts
  have h := List.splitOn_append_cons_self (a := '/') [] text
  rw [List.nil_append, List.splitOn_nil, List.singleton_append] at h
  rw [String.toList_ofList, h, String.toList_ofList, List.map_cons, List.filter_cons_of_neg (by decide)]

theorem pathParts_intercalate {names : List String} (h : ∀ name ∈ names, PathComponent name) :
    Tracker.pathParts (String.ofList (['/'].intercalate (names.map String.toList))) = names := by
  unfold Tracker.pathParts
  rw [String.toList_ofList]
  cases names with
  | nil => rfl
  | cons name rest =>
    rw [List.splitOn_intercalate '/' ?_ (by simp), List.map_map]
    · have hid : String.ofList ∘ String.toList = id := by
        funext s
        exact String.ofList_toList
      rw [hid, List.map_id, List.filter_eq_self]
      intro part hpart
      exact decide_eq_true ⟨(h part hpart).nonempty, (h part hpart).notDot⟩
    · intro part hpart
      obtain ⟨name', hname', rfl⟩ := List.mem_map.1 hpart
      exact (h name' hname').noSlash

namespace PosixPath

/-- A path as the constructor makes it. -/
structure WellFormed (p : PosixPath) : Prop where
  root : p.root = "" ∨ p.root = "/" ∨ p.root = "//"
  names : ∀ name ∈ p.names, PathComponent name

theorem wellFormed_of (text : String) : (of text).WellFormed := by
  refine ⟨?_, fun name h => component_of_mem_pathParts h⟩
  unfold of rootOf
  dsimp only
  split <;> simp

/-- The text of the names does not begin with a slash. -/
theorem head_intercalate {names : List String} (h : ∀ name ∈ names, PathComponent name) :
    (['/'].intercalate (names.map String.toList)).head? ≠ some '/' := by
  cases names with
  | nil => simp
  | cons name rest =>
    obtain ⟨hslash, hne, -⟩ := h name List.mem_cons_self
    cases htext : name.toList with
    | nil => exact absurd (String.toList_eq_nil_iff.1 htext) hne
    | cons c text =>
      rw [htext] at hslash
      have hc : c ≠ '/' := fun e => hslash (e ▸ List.mem_cons_self)
      cases rest with
      | nil => simpa [htext] using hc
      | cons name' rest => simpa [htext] using hc

theorem rootOf_append {root : String} (hroot : root = "" ∨ root = "/" ∨ root = "//") {text : List Char}
    (h : text.head? ≠ some '/') : rootOf (root.toList ++ text) = root := by
  cases text with
  | nil => rcases hroot with rfl | rfl | rfl <;> rfl
  | cons c text =>
    have hc : c ≠ '/' := fun e => h (by rw [e]; rfl)
    rcases hroot with rfl | rfl | rfl
    · simp [rootOf, hc]
    · simp [rootOf, hc]
    · simp [rootOf, hc]

theorem pathParts_root {root : String} (hroot : root = "" ∨ root = "/" ∨ root = "//") (text : List Char) :
    Tracker.pathParts (String.ofList (root.toList ++ text)) = Tracker.pathParts (String.ofList text) := by
  rcases hroot with rfl | rfl | rfl
  · rfl
  · exact pathParts_slash text
  · exact (pathParts_slash _).trans (pathParts_slash text)

/-- `PurePosixPath(str(p)) == p`. -/
theorem of_str {p : PosixPath} (h : p.WellFormed) : of p.str = p := by
  by_cases hempty : p = ⟨"", []⟩
  · rw [hempty]
    decide
  · unfold str
    rw [if_neg hempty, of, String.toList_ofList, rootOf_append h.root (head_intercalate h.names),
      pathParts_root h.root, pathParts_intercalate h.names]

theorem of_str_of (text : String) : of (of text).str = of text := of_str (wellFormed_of text)

theorem root_of_head {text : String} (h : text.toList.head? = some '/') : (of text).root ≠ "" := by
  unfold of rootOf
  dsimp only
  split
  · decide
  · decide
  · decide
  · rename_i hroot
    cases htext : text.toList with
    | nil => simp [htext] at h
    | cons c rest =>
      rw [htext] at h hroot
      cases h
      exact absurd rfl (hroot rest)

theorem root_of_not_head {text : String} (h : text.toList.head? ≠ some '/') : (of text).root = "" := by
  unfold of
  have := rootOf_append (.inl rfl) h
  simpa using this

theorem mem_parts_of_mem {p : PosixPath} {name : String} (h : name ∈ p.names) : name ∈ p.parts := by
  unfold parts
  split
  · exact h
  · exact List.mem_cons_of_mem _ h

end PosixPath

/-- What a validator stores is absolute and goes up nowhere. -/
theorem normalizeAbsolutePath_ok {name value path : String} (h : normalizeAbsolutePath name value = .ok path)
    (hset : path ≠ "") : (PosixPath.of path).root ≠ "" ∧ ".." ∉ (PosixPath.of path).names := by
  unfold normalizeAbsolutePath at h
  dsimp only at h
  generalize strip value = trimmed at h
  split at h
  · cases h
    exact absurd rfl hset
  split at h
  · cases h
  rename_i hslash
  split at h
  · cases h
  split at h
  · cases h
  rename_i hup
  cases h
  refine ⟨?_, fun hmem => hup (PosixPath.mem_parts_of_mem hmem)⟩
  rw [PosixPath.of_str_of]
  exact PosixPath.root_of_head (not_not.1 hslash)

theorem normalizeRelativeSubpath_ok {name value path : String} (h : normalizeRelativeSubpath name value = .ok path) :
    (PosixPath.of path).root = "" ∧ ".." ∉ (PosixPath.of path).names ∧ (PosixPath.of path).str = path := by
  unfold normalizeRelativeSubpath at h
  dsimp only at h
  generalize rstripSlash (strip value) = trimmed at h
  split at h
  · cases h
  split at h
  · cases h
  rename_i hslash
  split at h
  · cases h
  split at h
  · cases h
  rename_i hup
  cases h
  rw [PosixPath.of_str_of] at hup ⊢
  exact ⟨PosixPath.root_of_not_head hslash, fun hmem => hup (PosixPath.mem_parts_of_mem hmem), rfl⟩

end EmbyxManager.Config
