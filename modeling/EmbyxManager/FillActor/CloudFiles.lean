import EmbyxManager.Atom.Table
import EmbyxManager.FillActor.Scan
import Mathlib.Data.List.DropRight
import Mathlib.Data.List.Infix
/-!
# A file at CloudDrive as JSON

`CloudFileMetadata.from_mapping` checks what a listing or a stored row says of a file,
normalizes its path and sorts its hashes, and `_cloud_file_to_json` writes the file down. We
prove that what was accepted once is written down and read back as it is, which is why the
Postgres repository keeps a candidate's file as a value.
-/

namespace EmbyxManager.FillActor

open Atom Scan
open Local (pathName)

/-- A `dict` of hashes; a value that is no text is `none`. -/
abbrev HashDict : Type := Table (String × Option String) String (·.1)

/-- An object that may describe a file: `none` is a member that is not there or has another type. -/
structure FileMapping where
  path : Option String
  id : Option String
  name : Option String
  size : Option Int
  writeTime : Option Int
  /-- `{}` where the member is not there. -/
  hashes : Option HashDict

/-- The hashes as pairs, where all of them are texts. -/
def hashPairs : List (String × Option String) → Option (List (String × String))
  | [] => some []
  | (key, some item) :: rest => (hashPairs rest).map ((key, item) :: ·)
  | (_, none) :: _ => none

/-- `sorted(hashes)`; no key comes twice, so the values decide nothing. -/
def sortedHashes (hashes : List (String × String)) : List (String × String) :=
  hashes.insertionSort fun a b => a.1 ≤ b.1

/-- `CloudFileMetadata.from_mapping`; `none` where it raises. -/
def CloudFileMetadata.fromMapping (value : FileMapping) : Option CloudFileMetadata :=
  match value.path, value.id, value.name, value.size, value.writeTime, value.hashes with
  | some path, some fileId, some name, some size, some writeTime, some hashes =>
    if size < 0 ∨ writeTime < 0 then none
    else match absoluteCloudPath path with
      | none => none
      | some normalized =>
        if pathName normalized ≠ name ∨ fileId = "" then none
        else (hashPairs hashes.rows).map fun pairs =>
          ⟨normalized, fileId, name, size.toNat, writeTime.toNat, sortedHashes pairs⟩
  | _, _, _, _, _, _ => none

/-- `dict(pairs)`. -/
def dictOf (pairs : List (String × String)) : HashDict :=
  pairs.foldl (fun dict pair => dict.put (pair.1, some pair.2)) .empty

/-- The object that `_cloud_file_to_json` writes down. -/
def CloudFileMetadata.toMapping (value : CloudFileMetadata) : FileMapping :=
  ⟨some value.path, some value.fileId, some value.name, some value.size, some value.writeTime, some (dictOf value.hashes)⟩

/-! ## Paths -/

theorem posixParts_append_slash (xs ys : List Char) : posixParts (xs ++ '/' :: ys) = posixParts xs ++ posixParts ys := by
  unfold posixParts
  rw [List.splitOn_append_cons_self, List.filter_append]

theorem posixParts_append_slashes {xs ys : List Char} (h : ∀ c ∈ ys, c = '/') : posixParts (xs ++ ys) = posixParts xs := by
  induction ys generalizing xs with
  | nil => rw [List.append_nil]
  | cons c ys ih =>
    have hys : ∀ c ∈ ys, c = '/' := fun c hc => h c (List.mem_cons_of_mem _ hc)
    have hnil : posixParts ([] ++ ys) = posixParts [] := ih hys
    rw [List.nil_append] at hnil
    rw [h c List.mem_cons_self, posixParts_append_slash, hnil]
    exact List.append_nil _

theorem posixText_name {c : Char} (value : List Char) (hc : c ≠ '/') :
    posixText (c :: value) =
      if ['/'].intercalate (posixParts (c :: value)) = [] then ['.'] else ['/'].intercalate (posixParts (c :: value)) := by
  simp [posixText, hc]

theorem posixText_one {c : Char} (value : List Char) (hc : c ≠ '/') :
    posixText ('/' :: c :: value) = '/' :: ['/'].intercalate (posixParts ('/' :: c :: value)) := by
  simp [posixText, hc]

theorem posixText_two {c : Char} (value : List Char) (hc : c ≠ '/') :
    posixText ('/' :: '/' :: c :: value) = '/' :: '/' :: ['/'].intercalate (posixParts ('/' :: '/' :: c :: value)) := by
  simp [posixText, hc]

theorem posixText_more (value : List Char) :
    posixText ('/' :: '/' :: '/' :: value) = '/' :: ['/'].intercalate (posixParts ('/' :: '/' :: '/' :: value)) := rfl

/-- A path that does not end in a slash reads the same with slashes at its end. -/
theorem posixText_append {t slashes : List Char} (hne : t ≠ []) (hend : t.getLast hne ≠ '/') (h : ∀ c ∈ slashes, c = '/') :
    posixText (t ++ slashes) = posixText t := by
  have hparts : posixParts (t ++ slashes) = posixParts t := posixParts_append_slashes h
  match t, hne with
  | c :: rest, hne =>
    by_cases hc : c = '/'
    · subst hc
      match rest with
      | [] => exact absurd rfl hend
      | d :: rest =>
        by_cases hd : d = '/'
        · subst hd
          match rest with
          | [] => exact absurd rfl hend
          | e :: rest =>
            by_cases he : e = '/'
            · subst he
              simp only [List.cons_append] at hparts ⊢
              rw [posixText_more, posixText_more, hparts]
            · simp only [List.cons_append] at hparts ⊢
              rw [posixText_two _ he, posixText_two _ he, hparts]
        · simp only [List.cons_append] at hparts ⊢
          rw [posixText_one _ hd, posixText_one _ hd, hparts]
    · simp only [List.cons_append] at hparts ⊢
      rw [posixText_name _ hc, posixText_name _ hc, hparts]

theorem inText_append {needle text : List Char} (more : List Char) (h : Core.inText needle text = true) :
    Core.inText needle (text ++ more) = true := by
  unfold Core.inText at h ⊢
  obtain ⟨tail, htail, hneedle⟩ := List.any_eq_true.1 h
  obtain ⟨before, rfl⟩ := (List.mem_tails ..).1 htail
  refine List.any_eq_true.2 ⟨tail ++ more, (List.mem_tails ..).2 ⟨before, (List.append_assoc ..).symm⟩, ?_⟩
  exact List.isPrefixOf_iff_prefix.2 ((List.isPrefixOf_iff_prefix.1 hneedle).trans (List.prefix_append ..))

theorem posixText_ne_nil (value : List Char) : posixText value ≠ [] := by
  unfold posixText
  split
  · exact List.cons_ne_nil _ _
  · exact List.cons_ne_nil _ _
  · exact List.cons_ne_nil _ _
  · simp only []
    split
    · exact List.cons_ne_nil _ _
    · assumption

/-- What `_absolute_cloud_path` asks of the characters of a path. -/
structure CloudPath (value : List Char) : Prop where
  noNul : value.contains (Char.ofNat 0) = false
  noScheme : Core.inText "://".toList value = false
  noBackslash : value.contains '\\' = false
  root : value.head? = some '/'
  noParent : ['.', '.'] ∉ posixParts value
  written : posixText value = value.rdropWhile (· = '/')

theorem absoluteCloudPath_eq_some {value path : String} :
    absoluteCloudPath value = some path ↔ CloudPath value.toList ∧ path.toList = posixText value.toList := by
  unfold absoluteCloudPath
  have hcut : (value.toList.reverse.dropWhile (· = '/')).reverse = value.toList.rdropWhile (· = '/') := rfl
  simp only [hcut]
  constructor
  · intro h
    split at h
    · cases h
    rename_i hplain
    split at h
    · cases h
    rename_i hnormal
    simp only [not_or, Bool.not_eq_true] at hplain
    simp only [not_or, not_not] at hnormal
    refine ⟨⟨hplain.2.1, hplain.2.2.1, hplain.2.2.2, hnormal.1, hnormal.2.1, hnormal.2.2⟩, ?_⟩
    rw [← Option.some.inj h, String.toList_ofList]
  · rintro ⟨h, hpath⟩
    have hne : value.toList ≠ [] := fun hnil => by simpa [hnil] using h.root
    rw [if_neg, if_neg, ← hpath, String.ofList_toList]
    · simp only [not_or, not_not]
      exact ⟨h.root, h.noParent, h.written⟩
    · simp only [not_or, Bool.not_eq_true]
      exact ⟨hne, h.noNul, h.noScheme, h.noBackslash⟩

theorem not_contains_of_append {c : Char} {t slashes : List Char} (h : (t ++ slashes).contains c = false) :
    t.contains c = false := by
  rw [List.contains_append, Bool.or_eq_false_iff] at h
  exact h.1

/-- The text a path is written as is a path of that text. -/
theorem CloudPath.normalized {value : List Char} (h : CloudPath value) :
    CloudPath (posixText value) ∧ posixText (posixText value) = posixText value := by
  obtain ⟨t, ht⟩ : ∃ t, t = posixText value := ⟨_, rfl⟩
  have hstripped : t = value.rdropWhile (· = '/') := ht.trans h.written
  obtain ⟨slashes, hslashes, hvalue⟩ : ∃ slashes : List Char, (∀ c ∈ slashes, c = '/') ∧ value = t ++ slashes := by
    refine ⟨value.rtakeWhile (· = '/'), fun c hc => ?_, ?_⟩
    · exact of_decide_eq_true (List.mem_rtakeWhile_imp (p := (· = '/')) hc)
    · rw [hstripped, List.rdropWhile_append_rtakeWhile]
  have hne : t ≠ [] := ht ▸ posixText_ne_nil value
  have hcut : t.rdropWhile (· = '/') = t := by rw [hstripped, List.rdropWhile_idempotent]
  have hend : t.getLast hne ≠ '/' := by simpa using List.rdropWhile_eq_self_iff.1 hcut hne
  have hread : posixText t = t := by rw [← posixText_append hne hend hslashes, ← hvalue, ← ht]
  have hparts : posixParts t = posixParts value := by rw [hvalue, posixParts_append_slashes hslashes]
  rw [← ht]
  refine ⟨⟨?_, ?_, ?_, ?_, ?_, ?_⟩, hread⟩
  · exact not_contains_of_append (hvalue ▸ h.noNul)
  · refine Bool.eq_false_iff.2 fun hin => ?_
    exact Bool.eq_false_iff.1 h.noScheme (hvalue ▸ inText_append slashes hin)
  · exact not_contains_of_append (hvalue ▸ h.noBackslash)
  · rw [← h.root, hvalue, List.head?_append_of_ne_nil _ hne]
  · exact hparts ▸ h.noParent
  · rw [hread, hcut]

theorem absoluteCloudPath_again {value path : String} (h : absoluteCloudPath value = some path) :
    absoluteCloudPath path = some path := by
  obtain ⟨hvalue, hpath⟩ := absoluteCloudPath_eq_some.1 h
  obtain ⟨hnormal, hread⟩ := hvalue.normalized
  rw [absoluteCloudPath_eq_some, hpath, hread]
  exact ⟨hnormal, rfl⟩

/-! ## Hashes -/

theorem hashPairs_map (pairs : List (String × String)) :
    hashPairs (pairs.map fun pair => (pair.1, some pair.2)) = some pairs := by
  induction pairs with
  | nil => rfl
  | cons pair rest ih =>
    rw [List.map_cons, hashPairs, ih]
    rfl

theorem hashPairs_keys {rows : List (String × Option String)} {pairs : List (String × String)} (h : hashPairs rows = some pairs) :
    pairs.map (·.1) = rows.map (·.1) := by
  induction rows generalizing pairs with
  | nil =>
    cases h
    rfl
  | cons row rest ih =>
    obtain ⟨key, item | item⟩ := row
    · cases h
    · obtain ⟨tail, htail, rfl⟩ := Option.map_eq_some_iff.1 h
      rw [List.map_cons, List.map_cons, ih htail]

/-- Keys that are all different go into a `dict` in their order. -/
theorem foldl_put_rows (pairs : List (String × String)) (dict : HashDict)
    (h : ((dict.rows.map (·.1)) ++ pairs.map (·.1)).Nodup) :
    (pairs.foldl (fun dict pair => dict.put (pair.1, some pair.2)) dict).rows =
      dict.rows ++ pairs.map fun pair => (pair.1, some pair.2) := by
  induction pairs generalizing dict with
  | nil => rw [List.foldl_nil, List.map_nil, List.append_nil]
  | cons pair rest ih =>
    have hnew : dict.find pair.1 = none := by
      refine Table.find_eq_none.2 fun row hrow heq => ?_
      have hdisjoint := (List.nodup_append.1 h).2.2
      exact hdisjoint row.1 (List.mem_map_of_mem hrow) pair.1 List.mem_cons_self heq
    have hrows : (dict.put (pair.1, some pair.2)).rows = dict.rows ++ [(pair.1, some pair.2)] := Table.put_rows_of_none hnew
    rw [List.foldl_cons, ih _ (by simpa [hrows] using h), hrows, List.append_assoc, List.map_cons, List.singleton_append]

theorem dictOf_rows {pairs : List (String × String)} (h : (pairs.map (·.1)).Nodup) :
    (dictOf pairs).rows = pairs.map fun pair => (pair.1, some pair.2) := foldl_put_rows pairs .empty h

theorem sortedHashes_keys {pairs : List (String × String)} (h : (pairs.map (·.1)).Nodup) :
    ((sortedHashes pairs).map (·.1)).Nodup := ((List.perm_insertionSort _ pairs).map _).nodup_iff.2 h

theorem sortedHashes_again (pairs : List (String × String)) : sortedHashes (sortedHashes pairs) = sortedHashes pairs := by
  unfold sortedHashes
  exact (List.pairwise_insertionSort _ pairs).insertionSort_eq

/-- A file that was accepted is read back as itself. -/
theorem CloudFileMetadata.fromMapping_toMapping {value : FileMapping} {file : CloudFileMetadata}
    (h : fromMapping value = some file) : fromMapping file.toMapping = some file := by
  unfold fromMapping at h
  split at h
  rotate_left
  · cases h
  rename_i path fileId name size writeTime hashes _ _ _ _ _ _
  split at h
  · cases h
  split at h
  · cases h
  rename_i normalized hpath
  split at h
  · cases h
  rename_i hidentity
  obtain ⟨pairs, hpairs, rfl⟩ := Option.map_eq_some_iff.1 h
  have hkeys : (pairs.map (·.1)).Nodup := hashPairs_keys hpairs ▸ hashes.nodup
  have hdict := dictOf_rows (sortedHashes_keys hkeys)
  unfold fromMapping toMapping
  simp only [absoluteCloudPath_again hpath, if_neg hidentity, hdict, hashPairs_map, Option.map_some, sortedHashes_again]
  rw [if_neg (by omega)]
  simp only [Int.toNat_natCast]

end EmbyxManager.FillActor
