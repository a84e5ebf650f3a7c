import Mathlib.Algebra.Group.Nat.Defs
import Mathlib.Data.List.Induction
/-!
# Numbers written in places

A number in a fixed number of places to a base, the highest place first, and a list cut into
groups of one size. Writing a number in places and reading it back are inverse to each other,
so a text can change its base group by group and back.
-/

namespace Atom.Radix

/-- The number that these digits write. -/
def value (b : Nat) (digits : List Nat) : Nat := digits.foldl (fun n d => n * b + d) 0

/-- The lowest places of a number. -/
def places (b : Nat) : Nat → Nat → List Nat
  | 0, _ => []
  | w + 1, n => places b w (n / b) ++ [n % b]

section places
variable {b w n : Nat} {digits : List Nat}

theorem value_concat (d : Nat) : value b (digits ++ [d]) = value b digits * b + d := by
  simp [value]

@[simp] theorem length_places : (places b w n).length = w := by
  induction w generalizing n with
  | zero => rfl
  | succ w ih => simp [places, ih]

theorem places_lt (hb : 0 < b) : ∀ d ∈ places b w n, d < b := by
  induction w generalizing n with
  | zero => exact fun d hd => absurd hd List.not_mem_nil
  | succ w ih =>
    intro d hd
    rcases List.mem_append.1 hd with hd | hd
    · exact ih d hd
    · obtain rfl := List.mem_singleton.1 hd
      exact Nat.mod_lt n hb

theorem value_places : value b (places b w n) = n % b ^ w := by
  induction w generalizing n with
  | zero => simp [places, value, Nat.mod_one]
  | succ w ih =>
    rw [places, value_concat, ih, Nat.pow_succ, Nat.mul_comm (b ^ w), Nat.mod_mul, Nat.mul_comm, Nat.add_comm]

theorem value_lt (h : ∀ d ∈ digits, d < b) : value b digits < b ^ digits.length := by
  induction digits using List.reverseRecOn with
  | nil => simp [value]
  | append_singleton digits d ih =>
    have hd := h d (by simp)
    have hn := ih fun x hx => h x (List.mem_append_left _ hx)
    rw [value_concat, List.length_append, List.length_singleton, Nat.pow_succ]
    calc value b digits * b + d < value b digits * b + b := Nat.add_lt_add_left hd _
      _ = (value b digits + 1) * b := by rw [Nat.add_mul, Nat.one_mul]
      _ ≤ b ^ digits.length * b := Nat.mul_le_mul_right b hn

theorem places_value (h : ∀ d ∈ digits, d < b) : places b digits.length (value b digits) = digits := by
  induction digits using List.reverseRecOn with
  | nil => rfl
  | append_singleton digits d ih =>
    have hd := h d (by simp)
    have hdiv : (value b digits * b + d) / b = value b digits := by
      rw [Nat.mul_comm, Nat.mul_add_div (Nat.zero_lt_of_lt hd), Nat.div_eq_of_lt hd, Nat.add_zero]
    have hmod : (value b digits * b + d) % b = d := by
      rw [Nat.mul_comm, Nat.mul_add_mod, Nat.mod_eq_of_lt hd]
    rw [value_concat, List.length_append, List.length_singleton, places, hdiv, hmod,
      ih fun x hx => h x (List.mem_append_left _ hx)]

end places

/-- The first `n` groups of `k`. -/
def groups {α : Type} (k : Nat) : Nat → List α → List (List α)
  | 0, _ => []
  | n + 1, xs => xs.take k :: groups k n (xs.drop k)

/-- `m` places to the base `b` of every group of `k` to the base `a`. -/
def recode (a k b m : Nat) (digits : List Nat) : List Nat :=
  (groups k (digits.length / k) digits).flatMap fun g => places b m (value a g)

section recode
variable {a k b m : Nat}

theorem recode_append {g digits : List Nat} (hk : 0 < k) (hg : g.length = k) :
    recode a k b m (g ++ digits) = places b m (value a g) ++ recode a k b m digits := by
  have hlen : (g ++ digits).length / k = digits.length / k + 1 := by
    rw [List.length_append, hg, Nat.add_div_left _ hk]
  rw [recode, hlen, groups, List.take_left' hg, List.drop_left' hg, List.flatMap_cons, recode]

theorem length_recode (digits : List Nat) : (recode a k b m digits).length = digits.length / k * m := by
  have hlen : ∀ n (xs : List Nat), ((groups k n xs).flatMap fun g => places b m (value a g)).length = n * m := by
    intro n
    induction n with
    | zero => simp [groups]
    | succ n ih =>
      intro xs
      rw [groups, List.flatMap_cons, List.length_append, length_places, ih, Nat.add_mul, Nat.one_mul, Nat.add_comm]
  exact hlen _ _

theorem recode_lt (hb : 0 < b) (digits : List Nat) : ∀ d ∈ recode a k b m digits, d < b := by
  intro d hd
  obtain ⟨g, -, hd⟩ := List.mem_flatMap.1 hd
  exact places_lt hb d hd

/-- Where `k` places to the base `a` hold as much as `m` to the base `b`, changing the base and back
leaves whole groups as they were. -/
theorem recode_recode (hk : 0 < k) (hm : 0 < m) (hpow : a ^ k = b ^ m) : ∀ {digits : List Nat}, k ∣ digits.length →
    (∀ d ∈ digits, d < a) → recode b m a k (recode a k b m digits) = digits := by
  intro digits hdvd
  obtain ⟨n, hn⟩ := hdvd
  induction n generalizing digits with
  | zero =>
    intro _
    obtain rfl : digits = [] := List.eq_nil_of_length_eq_zero hn
    simp [recode, groups]
  | succ n ih =>
    intro h
    have hle : k ≤ digits.length := by
      rw [hn]
      exact Nat.le_mul_of_pos_right _ (Nat.succ_pos n)
    have hg : (digits.take k).length = k := List.length_take_of_le hle
    have hrest : (digits.drop k).length = k * n := by
      rw [List.length_drop, hn, Nat.mul_succ, Nat.add_sub_cancel]
    have hsmall : ∀ d ∈ digits.take k, d < a := fun d hd => h d (List.mem_of_mem_take hd)
    have hvalue : value a (digits.take k) < b ^ m := by
      have := value_lt hsmall
      rwa [hg, hpow] at this
    have hback : places a k (value a (digits.take k)) = digits.take k := by
      have := places_value hsmall
      rwa [hg] at this
    calc recode b m a k (recode a k b m digits)
        = recode b m a k (recode a k b m (digits.take k ++ digits.drop k)) := by rw [List.take_append_drop]
      _ = places a k (value b (places b m (value a (digits.take k)))) ++ recode b m a k (recode a k b m (digits.drop k)) := by
        rw [recode_append hk hg, recode_append hm length_places]
      _ = digits.take k ++ digits.drop k := by
        rw [value_places, Nat.mod_eq_of_lt hvalue, hback, ih hrest fun d hd => h d (List.mem_of_mem_drop hd)]
      _ = digits := List.take_append_drop ..

end recode

end Atom.Radix
