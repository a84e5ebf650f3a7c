import Mathlib.Data.List.Induction
import Mathlib.Data.List.Nodup
/-!
# Grouping by a key

`groups.setdefault(key, []).append(x)` over a list: the keys stand in the order they were
first met, and each keeps what came with it.
-/

namespace Atom.Grouping

variable {κ α : Type} [DecidableEq κ]

/-- `groups.setdefault(key, []).append(x)`. -/
def addTo (key : κ) (x : α) : List (κ × List α) → List (κ × List α)
  | [] => [(key, [x])]
  | (k, xs) :: rest => if k = key then (k, xs ++ [x]) :: rest else (k, xs) :: addTo key x rest

def grouped (items : List (κ × α)) : List (κ × List α) := items.foldl (fun groups item => addTo item.1 item.2 groups) []

/-- What comes with a key. -/
def groupOf (key : κ) (items : List (κ × α)) : List α := (items.filter fun item => item.1 = key).map (·.2)

theorem mem_addTo_of_ne {key k : κ} {x : α} {xs : List α} {groups : List (κ × List α)} (h : k ≠ key) :
    (k, xs) ∈ addTo key x groups ↔ (k, xs) ∈ groups := by
  induction groups with
  | nil => simp [addTo, h]
  | cons g rest ih =>
    obtain ⟨k', xs'⟩ := g
    unfold addTo
    split
    · rename_i hk
      subst hk
      simp [h]
    · simp [ih]

theorem keys_addTo {key : κ} {x : α} {groups : List (κ × List α)} :
    (addTo key x groups).map (·.1) =
      if key ∈ groups.map (·.1) then groups.map (·.1) else groups.map (·.1) ++ [key] := by
  induction groups with
  | nil => rfl
  | cons g rest ih =>
    obtain ⟨k, xs⟩ := g
    unfold addTo
    split
    · rename_i hk
      simp [hk]
    · rename_i hk
      rw [List.map_cons, ih]
      by_cases hmem : key ∈ rest.map (·.1)
      · simp only [hmem, if_true, List.map_cons, List.mem_cons, or_true]
      · simp only [hmem, if_false, List.map_cons, List.mem_cons, or_false, Ne.symm hk, List.cons_append]

theorem mem_addTo_self {key : κ} {x : α} {xs : List α} {groups : List (κ × List α)} (hnodup : (groups.map (·.1)).Nodup) :
    (key, xs) ∈ addTo key x groups ↔
      (∃ xs', (key, xs') ∈ groups ∧ xs = xs' ++ [x]) ∨ key ∉ groups.map (·.1) ∧ xs = [x] := by
  induction groups with
  | nil => simp [addTo]
  | cons g rest ih =>
    obtain ⟨k, ys⟩ := g
    obtain ⟨hk, hrest⟩ := List.nodup_cons.1 hnodup
    have hnone : k ∉ rest.map (·.1) → ∀ zs, (k, zs) ∉ rest := fun h zs hz => h (List.mem_map_of_mem hz)
    unfold addTo
    split
    · rename_i hkey
      subst hkey
      simp [hnone hk]
    · rename_i hkey
      simp [ih hrest, Ne.symm hkey]

theorem grouped_concat (items : List (κ × α)) (item : κ × α) :
    grouped (items ++ [item]) = addTo item.1 item.2 (grouped items) := by
  unfold grouped
  rw [List.foldl_append, List.foldl_cons, List.foldl_nil]

theorem groupOf_concat (key : κ) (items : List (κ × α)) (item : κ × α) :
    groupOf key (items ++ [item]) = groupOf key items ++ if item.1 = key then [item.2] else [] := by
  unfold groupOf
  rw [List.filter_append, List.map_append]
  congr 1
  by_cases h : item.1 = key
  · simp [h]
  · simp [h]

theorem nodup_grouped (items : List (κ × α)) : ((grouped items).map (·.1)).Nodup := by
  induction items using List.reverseRecOn with
  | nil => exact List.nodup_nil
  | append_singleton items item ih =>
    rw [grouped_concat, keys_addTo]
    split
    · exact ih
    · rename_i hnew
      refine List.nodup_append.2 ⟨ih, List.nodup_singleton _, fun a ha b hb e => hnew ?_⟩
      rw [← List.mem_singleton.1 hb, ← e]
      exact ha

/-- Each key that was met stands with everything that came with it, in order. -/
theorem mem_grouped_iff {items : List (κ × α)} {key : κ} {xs : List α} :
    (key, xs) ∈ grouped items ↔ xs = groupOf key items ∧ xs ≠ [] := by
  induction items using List.reverseRecOn generalizing xs with
  | nil => simp [grouped, groupOf]
  | append_singleton items item ih =>
    obtain ⟨k, x⟩ := item
    rw [grouped_concat, groupOf_concat]
    by_cases hk : key = k
    · subst hk
      rw [mem_addTo_self (nodup_grouped items), if_pos rfl]
      have hmet : key ∈ (grouped items).map (·.1) ↔ groupOf key items ≠ [] := by
        constructor
        · intro h
          obtain ⟨⟨k, ys⟩, hys, rfl⟩ := List.mem_map.1 h
          obtain ⟨hgroup, hne⟩ := ih.1 hys
          exact hgroup ▸ hne
        · exact fun h => List.mem_map_of_mem (ih.2 ⟨rfl, h⟩)
      rw [hmet, not_not]
      constructor
      · rintro (⟨ys, hys, rfl⟩ | ⟨hnone, rfl⟩)
        · exact ⟨by rw [(ih.1 hys).1], by simp⟩
        · exact ⟨by rw [hnone]; rfl, by simp⟩
      · rintro ⟨rfl, -⟩
        by_cases hnone : groupOf key items = []
        · exact .inr ⟨hnone, by rw [hnone]; rfl⟩
        · exact .inl ⟨_, ih.2 ⟨rfl, hnone⟩, rfl⟩
    · rw [mem_addTo_of_ne hk, ih, if_neg (Ne.symm hk), List.append_nil]

end Atom.Grouping
