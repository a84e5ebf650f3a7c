import Mathlib.Algebra.BigOperators.Group.Finset.Piecewise
import Mathlib.Data.Fintype.BigOperators
/-!
# Counting threads

How many of finitely many threads stand somewhere, as one of them goes on. What workers have
taken from a common queue and not yet given back is such a number, so that a queue, what is
under way and what is done can be added up.
-/

namespace Atom

variable {ι Q : Type} [Fintype ι]

/-- How many threads stand where `P` says. -/
def tally (P : Q → Bool) (q : ι → Q) : Nat := (Finset.univ.filter fun i => P (q i) = true).card

variable {P : Q → Bool} {q : ι → Q}

theorem tally_eq_zero : tally P q = 0 ↔ ∀ i, P (q i) = false := by
  simp [tally, Finset.filter_eq_empty_iff]

variable [DecidableEq ι] {i : ι} {x : Q}

/-- Only the thread that goes on makes a difference. -/
theorem tally_update (P : Q → Bool) (q : ι → Q) (i : ι) (x : Q) :
    tally P (Function.update q i x) + (P (q i)).toNat = tally P q + (P x).toNat := by
  have hsum : ∀ q : ι → Q, tally P q = (P (q i)).toNat + ∑ j ∈ Finset.univ.erase i, (P (q j)).toNat := by
    intro q
    have hcount : tally P q = ∑ j, (P (q j)).toNat := by
      rw [tally, Finset.card_filter]
      refine Finset.sum_congr rfl fun j _ => ?_
      cases P (q j) <;> rfl
    rw [hcount, Finset.add_sum_erase _ (fun j => (P (q j)).toNat) (Finset.mem_univ i)]
  have hothers : ∑ j ∈ Finset.univ.erase i, (P (Function.update q i x j)).toNat = ∑ j ∈ Finset.univ.erase i, (P (q j)).toNat := by
    refine Finset.sum_congr rfl fun j hj => ?_
    rw [Function.update_of_ne (Finset.ne_of_mem_erase hj)]
  rw [hsum q, hsum (Function.update q i x), hothers, Function.update_self]
  omega

end Atom
