import Mathlib.Order.Lattice
import Mathlib.Data.List.Induction
/-!
# Registers that the earliest claimant should keep

Claimants in a linear order, each with a place, see a register one after another.
A claimant that finds another place in it takes the register over, unless its
owner is an earlier claimant. The owner only changes when the place does, so a
claimant that shares the place of a later owner does not become the owner, and
one in between takes the register from under it.

`see_all_iff` says when the order of the claimants does not matter.
-/

namespace Atom

/-- `owner` is none while no claimant has taken the register. -/
structure Register (α β : Type) where
  owner : Option α
  place : β

namespace Register
variable {α β : Type} [LinearOrder α] [DecidableEq β] {place : α → β} {p₀ : β}

/-- One claimant sees the register. -/
def see (place : α → β) (r : Register α β) (x : α) : Register α β :=
  if r.place = place x then r
  else if r.owner.any (· < x) then r
  else ⟨some x, place x⟩

/-- The register after all of them, in this order. -/
def seeAll (place : α → β) (p₀ : β) (xs : List α) : Register α β := xs.foldl (see place) ⟨none, p₀⟩

theorem seeAll_snoc (xs : List α) (x : α) : seeAll place p₀ (xs ++ [x]) = (seeAll place p₀ xs).see place x := by
  simp [seeAll]

/-- No claimant stands between two that share a place, nor behind one whose place the
register starts with, unless it shares that place too. -/
structure Unshadowed (place : α → β) (p₀ : β) : Prop where
  between : ∀ a b c, a < b → b < c → place a = place c → place b = place a
  behind : ∀ a b, a < b → p₀ = place a → place b = place a

/-- The register is in the place of the earliest claimant, and nobody earlier owns it. -/
structure Kept (place : α → β) (p₀ : β) (xs : List α) (r : Register α β) (m : α) : Prop where
  seen : m ∈ xs
  earliest : ∀ y ∈ xs, m ≤ y
  placed : r.place = place m
  unowned : r.owner = none → p₀ = place m
  owned : ∀ o, r.owner = some o → place o = place m ∧ m ≤ o

theorem kept_first (x : α) : Kept place p₀ [x] ((⟨none, p₀⟩ : Register α β).see place x) x := by
  unfold see
  split
  · rename_i h
    exact ⟨by simp, by simp, h, fun _ => h, fun o ho => by cases ho⟩
  · rw [if_neg (by simp)]
    refine ⟨by simp, by simp, rfl, (fun h => by cases h), fun o ho => ?_⟩
    cases ho
    exact ⟨rfl, le_refl _⟩

/-- One more claimant: the earliest of all is the old one or the new one. -/
theorem kept_see (h : Unshadowed place p₀) {xs : List α} {r : Register α β} {m : α} (hk : Kept place p₀ xs r m) (x : α) :
    ∃ m, Kept place p₀ (xs ++ [x]) (r.see place x) m := by
  have stays : m ≤ x → ∀ y ∈ xs ++ [x], m ≤ y := by
    intro hm y hy
    rcases List.mem_append.1 hy with hy | hy
    · exact hk.earliest y hy
    · rw [List.mem_singleton.1 hy]; exact hm
  have leads : x < m → ∀ y ∈ xs ++ [x], x ≤ y := by
    intro hx y hy
    rcases List.mem_append.1 hy with hy | hy
    · exact le_trans (le_of_lt hx) (hk.earliest y hy)
    · rw [List.mem_singleton.1 hy]
  have old : m ∈ xs ++ [x] := List.mem_append_left _ hk.seen
  have new : x ∈ xs ++ [x] := by simp
  unfold see
  split
  · rename_i hp
    rcases le_or_gt m x with hm | hm
    · exact ⟨m, old, stays hm, hk.placed, hk.unowned, hk.owned⟩
    · -- the new claimant leads, and the register is already in its place
      have hpx : place m = place x := hk.placed.symm.trans hp
      refine ⟨x, new, leads hm, hp, fun ho => (hk.unowned ho).trans hpx, fun o ho => ?_⟩
      obtain ⟨h1, h2⟩ := hk.owned o ho
      exact ⟨h1.trans hpx, le_trans (le_of_lt hm) h2⟩
  · rename_i hp
    have hne : place m ≠ place x := fun he => hp (hk.placed.trans he)
    split
    · rename_i ho
      obtain ⟨o, ho, hlt⟩ := Option.any_eq_true .. |>.1 ho
      have hm : m ≤ x := le_trans (hk.owned o ho).2 (le_of_lt (of_decide_eq_true hlt))
      exact ⟨m, old, stays hm, hk.placed, hk.unowned, hk.owned⟩
    · -- the register is taken over, which only an earlier claimant than all may do
      rename_i ho
      have hx : x < m := by
        by_contra hge
        have hmx : m < x := lt_of_le_of_ne (not_lt.1 hge) fun he => hne (congrArg place he)
        cases hown : r.owner with
        | none => exact hne (h.behind m x hmx (hk.unowned hown)).symm
        | some o =>
          obtain ⟨h1, -⟩ := hk.owned o hown
          have hox : x ≤ o := by
            by_contra hlt
            exact ho (by simp [hown, not_le.1 hlt])
          have hxo : x < o := lt_of_le_of_ne hox fun he => hne (h1.symm.trans (congrArg place he.symm))
          exact hne (h.between m x o hmx hxo h1.symm).symm
      refine ⟨x, new, leads hx, rfl, (fun h => by cases h), fun o ho => ?_⟩
      cases ho
      exact ⟨rfl, le_refl _⟩

theorem kept_seeAll (h : Unshadowed place p₀) {xs : List α} (hne : xs ≠ []) : ∃ m, Kept place p₀ xs (seeAll place p₀ xs) m := by
  induction xs using List.reverseRecOn with
  | nil => exact absurd rfl hne
  | append_singleton xs x ih =>
    rw [seeAll_snoc]
    by_cases hx : xs = []
    · subst hx
      exact ⟨x, kept_first x⟩
    · obtain ⟨m, hk⟩ := ih hx
      exact kept_see h hk x

/-- The register ends up in the place of the earliest claimant, whatever their order,
exactly when no place is shadowed. -/
theorem seeAll_iff :
    (∀ xs m, m ∈ xs → (∀ y ∈ xs, m ≤ y) → (seeAll place p₀ xs).place = place m) ↔ Unshadowed place p₀ := by
  constructor
  · intro hall
    have pair : ∀ a b, a < b → p₀ = place a → place b = place a := by
      intro a b hab hp
      by_contra hne
      have := hall [a, b] a (by simp) (by simpa using le_of_lt hab)
      simp only [seeAll, List.foldl_cons, List.foldl_nil, see, hp, if_true, Ne.symm hne, if_false, Option.any_none,
        Bool.false_eq_true] at this
      exact hne this
    refine ⟨fun a b c hab hbc hp => ?_, pair⟩
    by_contra hne
    by_cases h0 : p₀ = place a
    · exact hne (pair a b hab h0)
    · -- the last of the three takes it, the first shares its place, the middle one takes it over
      have hall := hall [c, a, b] a (by simp) (by simp [le_of_lt hab, le_of_lt (lt_trans hab hbc)])
      have hc : p₀ ≠ place c := fun he => h0 (he.trans hp.symm)
      simp only [seeAll, List.foldl_cons, List.foldl_nil, see, if_neg hc, Option.any_none, Bool.false_eq_true, if_false,
        if_pos hp.symm, if_neg (hp ▸ Ne.symm hne : ¬ place c = place b), Option.any_some, decide_eq_true_eq,
        if_neg (not_lt.2 (le_of_lt hbc))] at hall
      exact hne hall
  · intro h xs m hm hmin
    obtain ⟨m', hk⟩ := kept_seeAll h (List.ne_nil_of_mem hm)
    rw [hk.placed, le_antisymm (hk.earliest m hm) (hmin m' hk.seen)]

end Register

end Atom
