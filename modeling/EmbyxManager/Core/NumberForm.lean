import EmbyxManager.Atom.Radix
import EmbyxManager.Atom.Search
import EmbyxManager.Core.Avid
/-!
# The number of an ID

An ordinary ID is a brand, a hyphen and a number, and there is one way to read it so. Its
normal form has the number as an integer of at least three digits, which is read back as
the same number; so a normal form is its own.
-/

namespace EmbyxManager.Core

open Atom Atom.Regex

/-! ## Digits -/

section digits
variable {c : Char} {digits : List Char}

theorem digit_cases (h : c.isDigit = true) : ∃ k < 10, c = Nat.digitChar k := by
  simp only [Char.isDigit, Bool.and_eq_true, decide_eq_true_eq] at h
  have hlow : 48 ≤ c.toNat := h.1
  have hhigh : c.toNat ≤ 57 := h.2
  refine ⟨c.toNat - 48, by omega, ?_⟩
  have hall : ∀ k ∈ List.range 10, Char.ofNat (48 + k) = Nat.digitChar k := by decide
  rw [← hall _ (List.mem_range.2 (by omega)), Nat.add_sub_cancel' hlow, Char.ofNat_toNat]

theorem digitValue_digitChar {k : Nat} (h : k < 10) : digitValue (Nat.digitChar k) = some k := by
  have hall : ∀ k < 10, digitValue (Nat.digitChar k) = some k := by decide
  exact hall k h

theorem digitValue_lt {k : Nat} (h : digitValue c = some k) : k < 10 := by
  unfold digitValue at h
  obtain ⟨z, hz, rfl⟩ := Option.map_eq_some_iff.1 h
  have := List.find?_some hz
  simp only [decide_eq_true_eq] at this
  omega

theorem isDecimal_of_isDigit (h : c.isDigit = true) : isDecimal c = true := by
  obtain ⟨k, hk, rfl⟩ := digit_cases h
  rw [isDecimal, digitValue_digitChar hk]
  rfl

set_option maxRecDepth 4000 in
/-- The decimal digits of ASCII are the ten of them. -/
theorem isDigit_of_ascii (h : isDecimal c = true) (hc : c.toNat < 128) : c.isDigit = true := by
  have hall : ∀ n ∈ List.range 128, isDecimal (Char.ofNat n) = true → (Char.ofNat n).isDigit = true := by decide
  have := hall c.toNat (List.mem_range.2 hc)
  rw [Char.ofNat_toNat] at this
  exact this h

/-! ## Integers -/

theorem intOf_eq_value : intOf digits = Radix.value 10 (digits.map fun c => (digitValue c).getD 0) := by
  unfold intOf Radix.value
  rw [List.foldl_map]
  simp only [Nat.mul_comm]

theorem intOf_concat : intOf (digits ++ [c]) = 10 * intOf digits + (digitValue c).getD 0 := by
  simp [intOf]

theorem intOf_lt : intOf digits < 10 ^ digits.length := by
  have hbelow : ∀ d ∈ digits.map fun c => (digitValue c).getD 0, d < 10 := by
    intro d hd
    obtain ⟨c, -, rfl⟩ := List.mem_map.1 hd
    cases hc : digitValue c with
    | none => decide
    | some k => exact digitValue_lt hc
  have h := Radix.value_lt hbelow
  rwa [← intOf_eq_value, List.length_map] at h

theorem intOf_zeros (k : Nat) : intOf (List.replicate k '0' ++ digits) = intOf digits := by
  have hzero : ∀ k, (List.replicate k '0').foldl (fun n c => 10 * n + (digitValue c).getD 0) 0 = 0 := by
    intro k
    induction k with
    | zero => rfl
    | succ k ih =>
      rw [List.replicate_succ', List.foldl_append, ih]
      rfl
  unfold intOf
  rw [List.foldl_append, hzero]

/-- An integer written out is read as it is. -/
theorem intOf_toDigits (n : Nat) : intOf (Nat.toDigits 10 n) = n := by
  induction n using Nat.strong_induction_on with
  | _ n ih =>
    by_cases hn : n < 10
    · rw [Nat.toDigits_of_lt_base hn]
      simp [intOf, digitValue_digitChar hn]
    · rw [Nat.toDigits_of_base_le (by decide) (Nat.le_of_not_lt hn), intOf_concat, ih (n / 10) (by omega),
        digitValue_digitChar (Nat.mod_lt n (by decide))]
      exact Nat.div_add_mod n 10

/-- A number without a zero in front is written as it is. -/
theorem toDigits_intOf (hdigits : ∀ c ∈ digits, c.isDigit = true) (hne : digits ≠ []) (hhead : digits.head? ≠ some '0') :
    Nat.toDigits 10 (intOf digits) = digits := by
  induction digits using List.reverseRecOn with
  | nil => exact absurd rfl hne
  | append_singleton digits c ih =>
    obtain ⟨k, hk, rfl⟩ := digit_cases (hdigits c (by simp))
    rw [intOf_concat, digitValue_digitChar hk, Option.getD_some]
    cases digits with
    | nil => rw [show intOf [] = 0 from rfl, Nat.mul_zero, Nat.zero_add, Nat.toDigits_of_lt_base hk, List.nil_append]
    | cons d digits =>
      have hlast := ih (fun c hc => hdigits c (List.mem_append_left _ hc)) (List.cons_ne_nil _ _) hhead
      have hpos : 0 < intOf (d :: digits) := by
        refine Nat.pos_of_ne_zero fun hzero => hhead ?_
        rw [hzero, Nat.toDigits_zero] at hlast
        rw [← hlast]
        rfl
      rw [← Nat.toDigits_append_toDigits (by decide) hpos hk, hlast, Nat.toDigits_of_lt_base hk]

/-! ## Padded numbers -/

theorem intOf_padded (n : Nat) : intOf (padded n) = n := by rw [padded, intOf_zeros, intOf_toDigits]

theorem padded_digits (n : Nat) : ∀ c ∈ padded n, c.isDigit = true := by
  intro c hc
  rcases List.mem_append.1 hc with hc | hc
  · rw [List.eq_of_mem_replicate hc]
    rfl
  · exact Nat.isDigit_of_mem_toDigits (by decide) (by decide) hc

theorem padded_ne_nil (n : Nat) : padded n ≠ [] := by
  unfold padded
  exact List.append_ne_nil_of_right_ne_nil _ Nat.toDigits_ne_nil

/-- Padding makes no number longer than three digits or than it was. -/
theorem length_padded (hne : digits ≠ []) : (padded (intOf digits)).length ≤ max 3 digits.length := by
  have hlen : (Nat.toDigits 10 (intOf digits)).length ≤ digits.length :=
    (Nat.length_toDigits_le_iff (by decide) (List.length_pos_iff.2 hne)).2 intOf_lt
  rw [padded, List.length_append, List.length_replicate]
  omega

end digits

/-! ## Brand and number -/

/-- The text is a brand with a letter in it, a hyphen and a number. -/
structure NumberForm (s brand number : List Char) : Prop where
  text : s = brand ++ '-' :: number
  capitals : ∀ c ∈ brand, capital c = true
  letter : ∃ c ∈ brand, c.isUpper = true
  digits : ∀ c ∈ number, isDecimal c = true
  nonempty : number ≠ []

theorem capital_ne_hyphen {c : Char} (h : capital c = true) : c ≠ '-' := by
  rintro rfl
  cases h

theorem isDecimal_ne_hyphen {c : Char} (h : isDecimal c = true) : c ≠ '-' := by
  rintro rfl
  exact absurd h (by decide)

section form
variable {s brand number : List Char}

/-- There is one way to read a number form. -/
theorem NumberForm.unique {brand' number' : List Char} (h : NumberForm s brand number) (h' : NumberForm s brand' number') :
    brand = brand' ∧ number = number' := by
  have hsplit : ∀ {brand number : List Char}, NumberForm s brand number → s.takeWhile (· ≠ '-') = brand := by
    intro brand number h
    rw [h.text, List.takeWhile_append_of_pos fun c hc => by simpa using capital_ne_hyphen (h.capitals c hc),
      List.takeWhile_cons_of_neg (by simp), List.append_nil]
  obtain rfl : brand = brand' := (hsplit h).symm.trans (hsplit h')
  refine ⟨rfl, ?_⟩
  exact (List.cons.inj (List.append_cancel_left (h.text.symm.trans h'.text))).2

theorem brand_of_reads {a b : At} (h : (all [.star true (one capital), one Char.isUpper, .star true (one capital)]).Reads a b) :
    ∃ brand, (∀ c ∈ brand, capital c = true) ∧ (∃ c ∈ brand, c.isUpper = true) ∧ Over brand a b ∧ b.groups = a.groups := by
  obtain ⟨a₁, hfirst, ⟨a₂, ⟨letter, rest, hrest, hletter, rfl⟩, hlast⟩⟩ := h
  obtain ⟨u, hu, hover, hgroups⟩ := hfirst.star_one
  obtain ⟨v, hv, hover', hgroups'⟩ := hlast.star_one
  have hone : Over [letter] a₁ { a₁ with done := letter :: a₁.done, rest } := ⟨hrest, rfl⟩
  refine ⟨u ++ ([letter] ++ v), fun c hc => ?_, ⟨letter, by simp, hletter⟩, hover.trans (hone.trans hover'), hgroups'.trans hgroups⟩
  rcases List.mem_append.1 hc with hc | hc
  · exact hu c hc
  · rcases List.mem_append.1 hc with hc | hc
    · rw [List.mem_singleton.1 hc, capital, hletter]
      rfl
    · exact hv c hc

/-- What the pattern reads is a number form, with a line feed behind it perhaps. -/
theorem form_of_reads {b : At} (h : numberFormRe.Reads ⟨[], s, []⟩ b) : ∃ brand number tail, NumberForm (brand ++ '-' :: number) brand number ∧
    s = brand ++ '-' :: number ++ tail ∧ (tail = [] ∨ tail = ['\n']) ∧ b.group 1 = some brand ∧ b.group 2 = some number := by
  obtain ⟨a, ⟨-, rfl⟩, h⟩ := h
  obtain ⟨a₁, ⟨m, hbrand, rfl⟩, h⟩ := h
  obtain ⟨a₂, ⟨hyphen, rest, hrest, hhyphen, rfl⟩, h⟩ := h
  obtain ⟨a₃, ⟨m', hnumber, rfl⟩, ⟨hend, rfl⟩⟩ := h
  obtain ⟨brand, hcapitals, hletter, hover, -⟩ := brand_of_reads hbrand
  obtain ⟨number, hne, hdigits, hover', hgroups⟩ := hnumber.plus_one
  obtain rfl : hyphen = '-' := by simpa using hhyphen
  refine ⟨brand, number, m'.rest, ⟨rfl, hcapitals, hletter, hdigits, hne⟩, ?_, hend, ?_, ?_⟩
  · have htext : s = brand ++ m.rest := hover.1
    have hafter : m.rest = '-' :: rest := hrest
    have hrest' : rest = number ++ m'.rest := hover'.1
    rw [htext, hafter, hrest', List.append_assoc, List.cons_append]
  · rw [At.group, hgroups]
    exact congrArg some hover.since
  · rw [At.group]
    exact congrArg some hover'.since

/-- Where the pattern goes on behind a brand, it goes through the brand. -/
theorem run_brand {β : Type} {k : At → Option β} {done rest : List Char} {groups : List (Nat × List Char)}
    (hcapitals : ∀ c ∈ brand, capital c = true) (hletter : ∃ c ∈ brand, c.isUpper = true)
    (hk : (k ⟨brand.reverse ++ done, rest, groups⟩).isSome = true) :
    ((all [.star true (one capital), one Char.isUpper, .star true (one capital)]).run ⟨done, brand ++ rest, groups⟩ k).isSome = true := by
  obtain ⟨letter, hmem, hupper⟩ := hletter
  obtain ⟨u, v, rfl⟩ := List.append_of_mem hmem
  rw [List.append_assoc, List.cons_append, run_all_cons]
  refine run_star_one_isSome (fun c hc => hcapitals c (List.mem_append_left _ hc)) ?_
  rw [run_all_cons, run_one_cons hupper]
  refine run_star_one_isSome (fun c hc => hcapitals c (List.mem_append_right _ (List.mem_cons_of_mem _ hc))) ?_
  rw [List.reverse_append, List.reverse_cons, List.append_assoc, List.append_assoc] at hk
  exact hk

/-- Where the pattern goes on behind a number, it goes through the number. -/
theorem run_number {β : Type} {p : Char → Bool} {k : At → Option β} {done rest text : List Char} {groups : List (Nat × List Char)}
    (htext : text = number ++ rest) (hdigits : ∀ c ∈ number, p c = true) (hne : number ≠ [])
    (hk : (k ⟨number.reverse ++ done, rest, groups⟩).isSome = true) : ((plus (one p)).run ⟨done, text, groups⟩ k).isSome = true := by
  subst htext
  cases number with
  | nil => exact absurd rfl hne
  | cons d number =>
    unfold plus
    rw [run, List.cons_append, run_one_cons (hdigits d List.mem_cons_self)]
    refine run_star_one_isSome (fun c hc => hdigits c (List.mem_cons_of_mem _ hc)) ?_
    rwa [List.reverse_cons, List.append_assoc] at hk

theorem NumberForm.matches (h : NumberForm s brand number) : (numberFormRe.matchStart s).isSome = true := by
  unfold matchStart numberFormRe
  rw [h.text, run_all_cons, run, if_pos rfl, run_all_cons, run]
  refine run_brand h.capitals h.letter ?_
  rw [run_all_cons, run_one_cons (by decide), run_all_cons, run]
  exact run_number (List.append_nil number).symm h.digits h.nonempty rfl

/-- The pattern reads a number form as what it is. -/
theorem NumberForm.found (h : NumberForm s brand number) :
    ∃ found, numberFormRe.matchStart s = some found ∧ found.group 1 = some brand ∧ found.group 2 = some number := by
  obtain ⟨found, hfound⟩ := Option.isSome_iff_exists.1 h.matches
  obtain ⟨b, hreads, hb⟩ := run_reads hfound
  obtain rfl := Option.some.inj hb
  obtain ⟨brand', number', tail, h', htext, htail, hbrand, hnumber⟩ := form_of_reads hreads
  -- a number form does not end in a line feed
  have hnil : tail = [] := by
    refine htail.resolve_right fun htail => ?_
    have hlast : '\n' ∈ number := by
      have hmem : '\n' ∈ s := by
        rw [htext, htail]
        simp
      rw [h.text, List.mem_append, List.mem_cons] at hmem
      rcases hmem with hmem | hmem | hmem
      · exact absurd (h.capitals _ hmem) (by decide)
      · exact absurd hmem (by decide)
      · exact hmem
    exact absurd (h.digits _ hlast) (by decide)
  rw [hnil, List.append_nil] at htext
  rw [← htext] at h'
  obtain ⟨rfl, rfl⟩ := h.unique h'
  exact ⟨b, hfound, hbrand, hnumber⟩

/-- A text without line feeds that the pattern reads is a number form. -/
theorem form_of_found {found : At} (hfound : numberFormRe.matchStart s = some found) (hline : '\n' ∉ s) :
    ∃ brand number, NumberForm s brand number ∧ found.group 1 = some brand ∧ found.group 2 = some number := by
  obtain ⟨b, hreads, hb⟩ := run_reads hfound
  obtain rfl := Option.some.inj hb
  obtain ⟨brand, number, tail, h, htext, htail, hbrand, hnumber⟩ := form_of_reads hreads
  have hnil : tail = [] := by
    refine htail.resolve_right fun htail => hline ?_
    rw [htext, htail]
    simp
  rw [hnil, List.append_nil] at htext
  exact ⟨brand, number, htext ▸ h, hbrand, hnumber⟩

/-! ## Normal forms -/

/-- A brand and a padded number. -/
theorem numberForm_padded (hcapitals : ∀ c ∈ brand, capital c = true) (hletter : ∃ c ∈ brand, c.isUpper = true) (n : Nat) :
    NumberForm (brand ++ '-' :: padded n) brand (padded n) :=
  ⟨rfl, hcapitals, hletter, fun c hc => isDecimal_of_isDigit (padded_digits n c hc), padded_ne_nil n⟩

theorem NumberForm.normalize (h : NumberForm s brand number) : normalizeNumber? s =
    if String.ofList brand ∈ nonCidBrands then some s else (readInt number).map fun n => brand ++ '-' :: padded n := by
  obtain ⟨found, hfound, hbrand, hnumber⟩ := h.found
  unfold normalizeNumber?
  rw [hfound]
  dsimp only
  rw [hbrand, hnumber]
  rfl

/-- Where `int` takes the number, its length does not matter. -/
theorem normalizeNumber_of_some {t : List Char} (h : normalizeNumber? s = some t) : normalizeNumber s = t := by
  unfold normalizeNumber? at h
  unfold normalizeNumber
  split at h
  · exact Option.some.inj h
  · dsimp only at h ⊢
    split at h
    · rename_i hexempt
      rw [if_pos hexempt]
      exact Option.some.inj h
    · rename_i hexempt
      obtain ⟨n, hn, rfl⟩ := Option.map_eq_some_iff.1 h
      rw [if_neg hexempt]
      unfold readInt at hn
      split at hn
      · rw [Option.some.inj hn]
      · cases hn

/-- A normal form is its own. -/
theorem normalizeNumber_idem {t : List Char} (h : normalizeNumber? s = some t) : normalizeNumber? t = some t := by
  have hself := h
  unfold normalizeNumber? at h
  split at h
  · obtain rfl := Option.some.inj h
    exact hself
  · rename_i found hfound
    obtain ⟨b, hreads, hb⟩ := run_reads hfound
    obtain rfl := Option.some.inj hb
    obtain ⟨brand, number, tail, hform, -, -, hbrand, hnumber⟩ := form_of_reads hreads
    dsimp only at h
    rw [hbrand, hnumber, Option.getD_some, Option.getD_some] at h
    by_cases hexempt : String.ofList brand ∈ nonCidBrands
    · rw [if_pos hexempt] at h
      obtain rfl := Option.some.inj h
      exact hself
    · rw [if_neg hexempt] at h
      obtain ⟨n, hn, rfl⟩ := Option.map_eq_some_iff.1 h
      rw [(numberForm_padded hform.capitals hform.letter n).normalize, if_neg hexempt]
      unfold readInt at hn ⊢
      split at hn
      · rename_i hlen
        obtain rfl := Option.some.inj hn
        have hpad : (padded (intOf number)).length ≤ intMaxStrDigits := by
          have := length_padded hform.nonempty
          unfold intMaxStrDigits at hlen ⊢
          omega
        rw [if_pos hpad, intOf_padded]
        rfl
      · cases hn

end form

end EmbyxManager.Core
