import Mathlib.Data.List.Nodup
import Mathlib.Data.List.Perm.Subperm
/-!
# Keyed tables

Rows under a primary key. A table carries the proof that no key repeats, so a
keyed `UPDATE` touches at most one row and `find` is the whole table.
-/

namespace Atom

/-- Where no key repeats, one row is all there is under its key. -/
theorem filter_of_nodup {β κ : Type} [DecidableEq κ] {key : β → κ} {xs : List β} (hn : (xs.map key).Nodup) {x : β} {k : κ}
    (hx : x ∈ xs) (hk : key x = k) : xs.filter (key · = k) = [x] := by
  induction xs with
  | nil => cases hx
  | cons y ys ih =>
    simp only [List.map_cons, List.nodup_cons] at hn
    rcases List.mem_cons.1 hx with rfl | hx
    · rw [List.filter_cons_of_pos (by simpa using hk), List.filter_eq_nil_iff.2]
      intro z hz hzk
      exact hn.1 (List.mem_map.2 ⟨z, hz, (of_decide_eq_true hzk).trans hk.symm⟩)
    · rw [List.filter_cons_of_neg, ih hn.2 hx]
      simp only [decide_eq_true_eq]
      intro hy
      exact hn.1 (List.mem_map.2 ⟨x, hx, hk.trans hy.symm⟩)

/-- Rows whose keys are pairwise different. -/
structure Table (ρ κ : Type) (key : ρ → κ) where
  rows : List ρ
  nodup : (rows.map key).Nodup

namespace Table
variable {ρ κ : Type} {key : ρ → κ}

def empty : Table ρ κ key := ⟨[], List.nodup_nil⟩

variable [DecidableEq κ]

def find (t : Table ρ κ key) (k : κ) : Option ρ := t.rows.find? fun r => key r = k

theorem find_eq_none {t : Table ρ κ key} {k : κ} : t.find k = none ↔ ∀ r ∈ t.rows, key r ≠ k := by
  simp [find]

/-- No key repeats, so a row is found under its own key. -/
theorem find_eq_some {t : Table ρ κ key} {k : κ} {r : ρ} : t.find k = some r ↔ r ∈ t.rows ∧ key r = k := by
  refine ⟨fun h => ⟨List.mem_of_find?_eq_some h, by simpa using List.find?_some h⟩, fun ⟨hr, hk⟩ => ?_⟩
  cases h : t.find k with
  | none => exact absurd hk (find_eq_none.1 h r hr)
  | some r' =>
    have hk' : key r' = k := by simpa using List.find?_some h
    rw [List.inj_on_of_nodup_map t.nodup (List.mem_of_find?_eq_some h) hr (hk'.trans hk.symm)]

theorem find_key {t : Table ρ κ key} {k : κ} {r : ρ} (h : t.find k = some r) : key r = k := (find_eq_some.1 h).2

theorem mem_of_find {t : Table ρ κ key} {k : κ} {r : ρ} (h : t.find k = some r) : r ∈ t.rows := (find_eq_some.1 h).1

/-! ## Writes -/

/-- `UPDATE … WHERE key = k AND p`. -/
def modify (t : Table ρ κ key) (k : κ) (p : ρ → Bool) (f : ρ → ρ) (hf : ∀ r, key (f r) = key r) : Table ρ κ key where
  rows := t.rows.map fun r => if key r = k ∧ p r then f r else r
  nodup := by
    have h : (t.rows.map fun r => if key r = k ∧ p r then f r else r).map key = t.rows.map key := by
      rw [List.map_map]
      refine List.map_congr_left fun r _ => ?_
      simp only [Function.comp]
      split <;> simp [hf]
    rw [h]
    exact t.nodup

theorem find_modify (t : Table ρ κ key) (k k' : κ) (p : ρ → Bool) (f : ρ → ρ) (hf : ∀ r, key (f r) = key r) :
    (t.modify k p f hf).find k' = (t.find k').map fun r => if k' = k ∧ p r then f r else r := by
  cases h : t.find k' with
  | none =>
    rw [find_eq_none] at h
    rw [Option.map_none, find_eq_none]
    intro r hr
    obtain ⟨r', hr', rfl⟩ := List.mem_map.1 hr
    have := h r' hr'
    split <;> simpa [hf] using this
  | some r =>
    obtain ⟨hr, rfl⟩ := find_eq_some.1 h
    rw [Option.map_some, find_eq_some]
    refine ⟨List.mem_map.2 ⟨r, hr, ?_⟩, ?_⟩
    · rfl
    · split <;> simp [hf]

/-- How many rows the `UPDATE` touches: it did touch one. -/
def matched (t : Table ρ κ key) (k : κ) (p : ρ → Bool) : Bool := (t.find k).any p

theorem matched_iff {t : Table ρ κ key} {k : κ} {p : ρ → Bool} :
    t.matched k p = true ↔ ∃ r, t.find k = some r ∧ p r = true := by
  simp [matched, Option.any_eq_true]

theorem find_modify_of_not {t : Table ρ κ key} {k : κ} {p : ρ → Bool} {f : ρ → ρ} {hf : ∀ r, key (f r) = key r}
    (h : t.matched k p = false) (k' : κ) : (t.modify k p f hf).find k' = t.find k' := by
  rw [find_modify]
  cases hr : t.find k' with
  | none => rfl
  | some r =>
    have : ¬ (k' = k ∧ p r = true) := by
      rintro ⟨rfl, hp⟩
      simp [matched, hr, hp] at h
    simp [this]

theorem modify_of_not {t : Table ρ κ key} {k : κ} {p : ρ → Bool} {f : ρ → ρ} (hf : ∀ r, key (f r) = key r)
    (h : t.matched k p = false) : t.modify k p f hf = t := by
  obtain ⟨rows, nodup⟩ := t
  simp only [modify, mk.injEq]
  refine (List.map_congr_left fun r hr => ?_).trans (List.map_id' rows)
  refine if_neg ?_
  rintro ⟨hk, hp⟩
  have hfind : find (⟨rows, nodup⟩ : Table ρ κ key) k = some r := find_eq_some.2 ⟨hr, hk⟩
  simp [matched, hfind, hp] at h

/-- `INSERT … ON CONFLICT DO NOTHING`. -/
def insertNew (t : Table ρ κ key) (r : ρ) : Table ρ κ key :=
  if h : t.find (key r) = none then
    ⟨t.rows ++ [r], by
      rw [List.map_append, List.nodup_append]
      refine ⟨t.nodup, by simp, ?_⟩
      rintro _ hk _ hk'
      obtain ⟨r', hr', rfl⟩ := List.mem_map.1 hk
      simp only [List.map_cons, List.map_nil, List.mem_singleton] at hk'
      exact hk' ▸ find_eq_none.1 h r' hr'⟩
  else t

theorem find_insertNew (t : Table ρ κ key) (r : ρ) (k : κ) :
    (t.insertNew r).find k = if t.find (key r) = none ∧ key r = k then some r else t.find k := by
  unfold insertNew
  split
  · rename_i h
    simp only [h, true_and]
    split
    · rename_i hk
      exact find_eq_some.2 ⟨by simp, hk⟩
    · rename_i hk
      simp [find, List.find?_append, hk]
  · rename_i h
    simp [h]

/-- `INSERT … ON CONFLICT DO UPDATE`: the row stands under its key. -/
def put (t : Table ρ κ key) (r : ρ) : Table ρ κ key :=
  if h : t.find (key r) = none then
    ⟨t.rows ++ [r], by
      rw [List.map_append, List.nodup_append]
      refine ⟨t.nodup, by simp, ?_⟩
      rintro _ hk _ hk'
      obtain ⟨r', hr', rfl⟩ := List.mem_map.1 hk
      simp only [List.map_cons, List.map_nil, List.mem_singleton] at hk'
      exact hk' ▸ find_eq_none.1 h r' hr'⟩
  else
    ⟨t.rows.map fun r' => if key r' = key r then r else r', by
      have h : (t.rows.map fun r' => if key r' = key r then r else r').map key = t.rows.map key := by
        rw [List.map_map]
        refine List.map_congr_left fun r' _ => ?_
        simp only [Function.comp]
        split <;> simp [*]
      rw [h]
      exact t.nodup⟩

theorem find_put (t : Table ρ κ key) (r : ρ) (k : κ) : (t.put r).find k = if key r = k then some r else t.find k := by
  unfold put
  split
  · rename_i h
    split
    · rename_i hk
      exact find_eq_some.2 ⟨by simp, hk⟩
    · rename_i hk
      simp [find, List.find?_append, hk]
  · rename_i h
    obtain ⟨r₀, h₀⟩ := Option.ne_none_iff_exists'.1 h
    obtain ⟨hr₀, hk₀⟩ := find_eq_some.1 h₀
    split
    · rename_i hk
      exact find_eq_some.2 ⟨List.mem_map.2 ⟨r₀, hr₀, by simp [hk₀]⟩, hk⟩
    · rename_i hk
      cases hf : t.find k with
      | none =>
        rw [find_eq_none] at hf ⊢
        intro r' hr'
        obtain ⟨r₁, hr₁, rfl⟩ := List.mem_map.1 hr'
        split
        · exact hk
        · exact hf r₁ hr₁
      | some r₁ =>
        obtain ⟨hr₁, hk₁⟩ := find_eq_some.1 hf
        refine find_eq_some.2 ⟨List.mem_map.2 ⟨r₁, hr₁, if_neg ?_⟩, hk₁⟩
        rw [hk₁]
        exact Ne.symm hk

theorem put_rows_of_none {t : Table ρ κ key} {r : ρ} (h : t.find (key r) = none) : (t.put r).rows = t.rows ++ [r] := by
  simp [put, h]

theorem put_rows_of_some {t : Table ρ κ key} {r r₀ : ρ} (h : t.find (key r) = some r₀) :
    (t.put r).rows = t.rows.map fun r' => if key r' = key r then r else r' := by
  simp [put, h]

/-- `DELETE … WHERE NOT p`. -/
def keep (t : Table ρ κ key) (p : ρ → Bool) : Table ρ κ key :=
  ⟨t.rows.filter p, t.nodup.sublist (List.filter_sublist.map key)⟩

theorem find_keep (t : Table ρ κ key) (p : ρ → Bool) (k : κ) : (t.keep p).find k = (t.find k).filter p := by
  cases h : t.find k with
  | none =>
    rw [find_eq_none] at h
    rw [Option.filter_none, find_eq_none]
    exact fun r hr => h r (List.mem_filter.1 hr).1
  | some r =>
    obtain ⟨hr, hk⟩ := find_eq_some.1 h
    by_cases hp : p r = true
    · rw [Option.filter_some_pos hp]
      exact find_eq_some.2 ⟨List.mem_filter.2 ⟨hr, hp⟩, hk⟩
    · rw [Option.filter_some_neg (by simpa using hp), find_eq_none]
      intro r' hr' hk'
      obtain ⟨hr', hp'⟩ := List.mem_filter.1 hr'
      rw [find_eq_some.2 ⟨hr', hk'⟩] at h
      cases h
      exact hp hp'

/-- `UPDATE … WHERE p`. -/
def update (t : Table ρ κ key) (p : ρ → Bool) (f : ρ → ρ) (hf : ∀ r, key (f r) = key r) : Table ρ κ key where
  rows := t.rows.map fun r => if p r then f r else r
  nodup := by
    have h : (t.rows.map fun r => if p r then f r else r).map key = t.rows.map key := by
      rw [List.map_map]
      refine List.map_congr_left fun r _ => ?_
      simp only [Function.comp]
      split <;> simp [hf]
    rw [h]
    exact t.nodup

theorem find_update (t : Table ρ κ key) (p : ρ → Bool) (f : ρ → ρ) (hf : ∀ r, key (f r) = key r) (k : κ) :
    (t.update p f hf).find k = (t.find k).map fun r => if p r then f r else r := by
  cases h : t.find k with
  | none =>
    rw [find_eq_none] at h
    rw [Option.map_none, find_eq_none]
    intro r hr
    obtain ⟨r', hr', rfl⟩ := List.mem_map.1 hr
    have := h r' hr'
    split <;> simpa [hf] using this
  | some r =>
    obtain ⟨hr, rfl⟩ := find_eq_some.1 h
    rw [Option.map_some, find_eq_some]
    refine ⟨List.mem_map.2 ⟨r, hr, rfl⟩, ?_⟩
    split <;> simp [hf]

/-- A table has no more rows under `p` than another that has one under each of their keys. -/
theorem countP_le {t t' : Table ρ κ key} {p : ρ → Bool}
    (h : ∀ k r', t'.find k = some r' → p r' = true → ∃ r, t.find k = some r ∧ p r = true) :
    t'.rows.countP p ≤ t.rows.countP p := by
  rw [List.countP_eq_length_filter, List.countP_eq_length_filter, ← List.length_map key, ← List.length_map key]
  refine (List.subperm_of_subset (t'.nodup.sublist (List.filter_sublist.map key)) fun k hk => ?_).length_le
  obtain ⟨r', hr', rfl⟩ := List.mem_map.1 hk
  obtain ⟨hr', hp'⟩ := List.mem_filter.1 hr'
  obtain ⟨r, hf, hp⟩ := h (key r') r' (find_eq_some.2 ⟨hr', rfl⟩) hp'
  obtain ⟨hr, hk⟩ := find_eq_some.1 hf
  exact List.mem_map.2 ⟨r, List.mem_filter.2 ⟨hr, hp⟩, hk⟩

/-- One key more, one row more. -/
theorem countP_le_succ {t t' : Table ρ κ key} {p : ρ → Bool} (k₀ : κ)
    (h : ∀ k r', k ≠ k₀ → t'.find k = some r' → p r' = true → ∃ r, t.find k = some r ∧ p r = true) :
    t'.rows.countP p ≤ t.rows.countP p + 1 := by
  rw [List.countP_eq_length_filter, List.countP_eq_length_filter, ← List.length_map key,
    ← List.length_map key, ← List.length_cons (a := k₀)]
  refine (List.subperm_of_subset (t'.nodup.sublist (List.filter_sublist.map key)) fun k hk => ?_).length_le
  obtain ⟨r', hr', rfl⟩ := List.mem_map.1 hk
  obtain ⟨hr', hp'⟩ := List.mem_filter.1 hr'
  by_cases hk₀ : key r' = k₀
  · exact hk₀ ▸ List.mem_cons_self
  · obtain ⟨r, hf, hp⟩ := h (key r') r' hk₀ (find_eq_some.2 ⟨hr', rfl⟩) hp'
    obtain ⟨hr, hk⟩ := find_eq_some.1 hf
    exact List.mem_cons_of_mem _ (List.mem_map.2 ⟨r, List.mem_filter.2 ⟨hr, hp⟩, hk⟩)

/-! ## Equal tables -/

omit [DecidableEq κ] in
theorem ext_rows {t t' : Table ρ κ key} (h : t.rows = t'.rows) : t = t' := by
  obtain ⟨rows, nodup⟩ := t
  obtain ⟨rows', nodup'⟩ := t'
  cases h
  rfl

/-- An `UPDATE` of one row writes the row it computes. -/
theorem modify_eq_put {t : Table ρ κ key} {k : κ} {p : ρ → Bool} {f : ρ → ρ} (hf : ∀ r, key (f r) = key r) {r : ρ}
    (h : t.find k = some r) (hp : p r = true) : t.modify k p f hf = t.put (f r) := by
  obtain ⟨hr, hk⟩ := find_eq_some.1 h
  have hkey : key (f r) = k := (hf r).trans hk
  refine ext_rows ?_
  rw [put_rows_of_some (hkey ▸ h)]
  refine List.map_congr_left fun r' hr' => ?_
  rw [hkey]
  by_cases hk' : key r' = k
  · have : r' = r := List.inj_on_of_nodup_map t.nodup hr' hr (hk'.trans hk.symm)
    simp [this, hk, hp]
  · simp [hk']

/-- A row that is written again. -/
theorem put_eq_self {t : Table ρ κ key} {r : ρ} (h : t.find (key r) = some r) : t.put r = t := by
  refine ext_rows ?_
  rw [put_rows_of_some h]
  refine (List.map_congr_left fun r' hr' => ?_).trans (List.map_id' t.rows)
  by_cases hk : key r' = key r
  · rw [if_pos hk]
    exact (List.inj_on_of_nodup_map t.nodup hr' (mem_of_find h) hk).symm
  · rw [if_neg hk]

omit [DecidableEq κ] in
theorem keep_congr {t : Table ρ κ key} {p q : ρ → Bool} (h : ∀ r ∈ t.rows, p r = q r) : t.keep p = t.keep q :=
  ext_rows (List.filter_congr h)

omit [DecidableEq κ] in
theorem keep_eq_self {t : Table ρ κ key} {p : ρ → Bool} (h : ∀ r ∈ t.rows, p r = true) : t.keep p = t :=
  ext_rows (List.filter_eq_self.2 h)

omit [DecidableEq κ] in
theorem keep_keep (t : Table ρ κ key) (p q : ρ → Bool) : (t.keep p).keep q = t.keep fun r => p r && q r :=
  ext_rows (by simp [keep, List.filter_filter, Bool.and_comm])

omit [DecidableEq κ] in
theorem update_congr {t : Table ρ κ key} {p q : ρ → Bool} {f g : ρ → ρ} (hf : ∀ r, key (f r) = key r)
    (hg : ∀ r, key (g r) = key r) (h : ∀ r ∈ t.rows, (if p r then f r else r) = if q r then g r else r) :
    t.update p f hf = t.update q g hg := ext_rows (List.map_congr_left h)

omit [DecidableEq κ] in
theorem update_eq_self {t : Table ρ κ key} {p : ρ → Bool} {f : ρ → ρ} (hf : ∀ r, key (f r) = key r)
    (h : ∀ r ∈ t.rows, p r = false) : t.update p f hf = t := by
  refine ext_rows ?_
  simp only [update]
  refine (List.map_congr_left fun r hr => ?_).trans (List.map_id' t.rows)
  simp [h r hr]

/-! ## A table that mirrors another -/

section Image
variable {ρ' : Type} {key' : ρ' → κ} {g : ρ → ρ'} {t : Table ρ κ key} {t' : Table ρ' κ key'}

theorem find_image (hg : ∀ r, key' (g r) = key r) (h : t'.rows = t.rows.map g) (k : κ) : t'.find k = (t.find k).map g := by
  simp only [find, h, List.find?_map]
  congr 2
  funext r
  simp [hg]

theorem put_image (hg : ∀ r, key' (g r) = key r) (h : t'.rows = t.rows.map g) (r : ρ) :
    (t'.put (g r)).rows = (t.put r).rows.map g := by
  have hfind := find_image hg h (key r)
  cases hr : t.find (key r) with
  | none =>
    rw [hr] at hfind
    rw [put_rows_of_none hr, put_rows_of_none (by rw [hg]; exact hfind), h, List.map_append]
    rfl
  | some r₀ =>
    rw [hr] at hfind
    rw [put_rows_of_some hr, put_rows_of_some (by rw [hg]; exact hfind), h, List.map_map, List.map_map]
    refine List.map_congr_left fun r' _ => ?_
    simp only [Function.comp, hg]
    split <;> rfl

omit [DecidableEq κ] in
theorem keep_image {p : ρ → Bool} {p' : ρ' → Bool} (h : t'.rows = t.rows.map g) (hp : ∀ r, p' (g r) = p r) :
    (t'.keep p').rows = (t.keep p).rows.map g := by
  simp only [keep, h, List.filter_map]
  congr 2
  funext r
  exact hp r

end Image

end Table

end Atom
