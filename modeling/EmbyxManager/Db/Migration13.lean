import EmbyxManager.Core.NumberForm
/-!
# Migration 13

The ledger's keys are renamed to the parser's spelling by one UPDATE, which has the number
form, the exempt brands and the padding in SQL. It spells a key as `normalize_number` does,
and because it looks only at the keys as they were, no two rows end up under one.
-/

namespace EmbyxManager.Db.Migration13

open Atom Atom.Regex EmbyxManager.Core

abbrev Key := List Char

/-! ## The functions of SQL -/

/-- `split_part`. -/
def splitPart (s : Key) (delimiter : Char) (n : Nat) : Key := (s.splitOn delimiter).getD (n - 1) []

/-- `ltrim`. -/
def ltrim (s : Key) (c : Char) : Key := s.dropWhile (· = c)

/-- `lpad`, which cuts what is too long. -/
def lpad (s : Key) (n : Nat) (c : Char) : Key := if s.length ≤ n then List.replicate (n - s.length) c ++ s else s.take n

/-- `'^[A-Z0-9]*[A-Z][A-Z0-9]*-[0-9]+$'`. -/
def numberRe : Regex :=
  .all [.start, .all [.star true (.one capital), .one Char.isUpper, .star true (.one capital)], .one (· = '-'),
    plus (.one Char.isDigit), .aheadNot (.one fun _ => true)]

def exemptBrands : List String :=
  ["FC2", "HEYZO", "HEYDOUGA", "GETCHU", "GYUTTO", "MKBD", "MKD", "S2M", "S2MBD", "MK3D2DBD", "CW3D2BD", "CW3D2DBD"]

/-! ## The statement -/

/-- The `WHERE` of the candidates. -/
def selected (avid : Key) : Bool :=
  (numberRe.matchStart avid).isSome && !decide (String.ofList (splitPart avid '-' 1) ∈ exemptBrands)

/-- The normal form of a candidate. -/
def normalized (avid : Key) : Key :=
  splitPart avid '-' 1 ++ '-' ::
    (if 3 ≤ (ltrim (splitPart avid '-' 2) '0').length then ltrim (splitPart avid '-' 2) '0'
     else lpad (ltrim (splitPart avid '-' 2) '0') 3 '0')

def candidates (keys : List Key) : List (Key × Key) := (keys.filter selected).map fun avid => (avid, normalized avid)

/-- The key of a row after the `UPDATE`; all of it is read off the keys as they were. -/
def renamed (keys : List Key) (avid : Key) : Key :=
  match (candidates keys).find? (·.1 = avid) with
  | none => avid
  | some (_, normalized) =>
    if normalized ≠ avid ∧ normalized ∉ keys ∧ (candidates keys).countP (·.2 = normalized) = 1 then normalized else avid

/-- The keys after the migration, row by row. -/
def migrate (keys : List Key) : List Key := keys.map (renamed keys)

def spellings : List Key :=
  ["HTTM-0066".toList, "TBW-19".toList, "ABC-7".toList, "ABC-07".toList, "XYZ-0042".toList, "XYZ-042".toList, "FC2-0001".toList]

example : migrate spellings = ["HTTM-066".toList, "TBW-019".toList, "ABC-7".toList, "ABC-07".toList, "XYZ-0042".toList,
    "XYZ-042".toList, "FC2-0001".toList] := by decide

/-- The normal form of any key. -/
def normalForm (avid : Key) : Key := if selected avid then normalized avid else avid

/-! ## Number forms in SQL -/

section form
variable {avid brand number : Key}

/-- The first two parts of a number form are the brand and the number. -/
theorem splitPart_form (h : NumberForm avid brand number) : splitPart avid '-' 1 = brand ∧ splitPart avid '-' 2 = number := by
  have hbrand : '-' ∉ brand := fun hmem => capital_ne_hyphen (h.capitals _ hmem) rfl
  have hnumber : '-' ∉ number := fun hmem => isDecimal_ne_hyphen (h.digits _ hmem) rfl
  unfold splitPart
  rw [h.text, List.splitOn_append_cons_self, List.splitOn_eq_singleton hbrand, List.splitOn_eq_singleton hnumber]
  exact ⟨rfl, rfl⟩

/-- The pattern of the statement matches the number forms with the digits of ASCII. -/
theorem numberRe_iff : (numberRe.matchStart avid).isSome = true ↔
    ∃ brand number, NumberForm avid brand number ∧ ∀ c ∈ number, c.isDigit = true := by
  constructor
  · intro h
    obtain ⟨found, hfound⟩ := Option.isSome_iff_exists.1 h
    -- what is read before the end of the text is looked for
    have hrun : (all [.start, .all [.star true (.one capital), .one Char.isUpper, .star true (.one capital)], .one (· = '-'),
        plus (.one Char.isDigit)]).run ⟨[], avid, []⟩ (fun b => (aheadNot (.one fun _ => true)).run b some) = some found := hfound
    obtain ⟨b, ⟨_, ⟨-, rfl⟩, ⟨m, hbrand, ⟨m', ⟨hyphen, rest, hrest, hhyphen, rfl⟩, hnumber⟩⟩⟩, hend⟩ := run_reads hrun
    obtain ⟨brand, hcapitals, hletter, hover, -⟩ := brand_of_reads hbrand
    obtain ⟨number, hne, hdigits, hover', -⟩ := hnumber.plus_one
    obtain rfl : hyphen = '-' := by simpa using hhyphen
    have hnil : b.rest = [] := by
      cases hb : b.rest with
      | nil => rfl
      | cons c cs =>
        simp only [run, hb] at hend
        cases hend
    have htext : avid = brand ++ m.rest := hover.1
    have hrest' : rest = number ++ b.rest := hover'.1
    rw [hrest, hrest', hnil, List.append_nil] at htext
    exact ⟨brand, number, ⟨htext, hcapitals, hletter, fun c hc => isDecimal_of_isDigit (hdigits c hc), hne⟩, hdigits⟩
  · rintro ⟨brand, number, h, hdigits⟩
    unfold matchStart numberRe
    rw [h.text, run_all_cons, run, if_pos rfl, run_all_cons]
    refine run_brand h.capitals h.letter ?_
    rw [run_all_cons, run_one_cons (by decide), run_all_cons]
    exact run_number (List.append_nil number).symm hdigits h.nonempty rfl

theorem selected_iff : selected avid = true ↔ ∃ brand number, NumberForm avid brand number ∧ (∀ c ∈ number, c.isDigit = true) ∧
    String.ofList brand ∉ exemptBrands := by
  unfold selected
  rw [Bool.and_eq_true, numberRe_iff, Bool.not_eq_true', decide_eq_false_iff_not]
  constructor
  · rintro ⟨⟨brand, number, h, hdigits⟩, hexempt⟩
    rw [(splitPart_form h).1] at hexempt
    exact ⟨brand, number, h, hdigits, hexempt⟩
  · rintro ⟨brand, number, h, hdigits, hexempt⟩
    rw [(splitPart_form h).1]
    exact ⟨⟨brand, number, h, hdigits⟩, hexempt⟩

/-- Trimming and padding write the integer with at least three digits. -/
theorem padded_of_digits (hdigits : ∀ c ∈ number, c.isDigit = true) :
    (if 3 ≤ (ltrim number '0').length then ltrim number '0' else lpad (ltrim number '0') 3 '0') = padded (intOf number) := by
  have hzeros : number.takeWhile (· = '0') = List.replicate (number.takeWhile (· = '0')).length '0' :=
    List.eq_replicate_of_mem fun c hc => by simpa using List.mem_takeWhile_imp hc
  have hint : intOf number = intOf (ltrim number '0') := by
    conv_lhs => rw [← List.takeWhile_append_dropWhile (p := (· = '0')) (l := number), hzeros, intOf_zeros]
    rfl
  rw [hint]
  cases htrim : ltrim number '0' with
  | nil => rfl
  | cons c rest =>
    have hall : ∀ d ∈ c :: rest, d.isDigit = true := by
      intro d hd
      rw [← htrim] at hd
      exact hdigits d ((List.dropWhile_sublist _).subset hd)
    have hhead : (c :: rest).head? ≠ some '0' := by
      intro he
      have hstop := List.head?_dropWhile_not (· = '0') number
      have hdrop : number.dropWhile (· = '0') = c :: rest := htrim
      rw [hdrop, he] at hstop
      simp at hstop
    rw [padded, toDigits_intOf hall (List.cons_ne_nil _ _) hhead]
    by_cases hlen : 3 ≤ (c :: rest).length
    · rw [if_pos hlen, Nat.sub_eq_zero_of_le hlen, List.replicate_zero, List.nil_append]
    · rw [if_neg hlen, lpad, if_pos (by omega)]

/-- A selected key is spelled with the integer of its number. -/
theorem normalized_form (h : NumberForm avid brand number) (hdigits : ∀ c ∈ number, c.isDigit = true) :
    normalized avid = brand ++ '-' :: padded (intOf number) := by
  obtain ⟨hbrand, hnumber⟩ := splitPart_form h
  rw [normalized, hbrand, hnumber, padded_of_digits hdigits]

/-- A normal form is its own. -/
theorem normalForm_normalized (h : selected avid = true) : normalForm (normalized avid) = normalized avid := by
  obtain ⟨brand, number, hform, hdigits, hexempt⟩ := selected_iff.1 h
  have hpad := numberForm_padded hform.capitals hform.letter (intOf number)
  rw [normalized_form hform hdigits, normalForm,
    if_pos (selected_iff.2 ⟨brand, _, hpad, padded_digits (intOf number), hexempt⟩),
    normalized_form hpad (padded_digits (intOf number)), intOf_padded]

end form

/-! ## The same spelling -/

/-- ASCII without line feeds. -/
def Plain (avid : Key) : Prop := ∀ c ∈ avid, c.toNat < 128 ∧ c ≠ '\n'

/-- The exempt brands of the statement are the parser's. -/
theorem exemptBrands_eq : exemptBrands = nonCidBrands := rfl

/-- `normalize_number` gets past its guard. -/
def MayChange (avid : Key) : Prop :=
  ∃ found, numberFormRe.matchStart avid = some found ∧ String.ofList ((found.group 1).getD []) ∉ nonCidBrands

section plain
variable {avid : Key}

theorem form_of_plain (h : Plain avid) {found : At} (hfound : numberFormRe.matchStart avid = some found) :
    ∃ brand number, NumberForm avid brand number ∧ (∀ c ∈ number, c.isDigit = true) ∧ found.group 1 = some brand := by
  obtain ⟨brand, number, hform, hbrand, -⟩ := form_of_found hfound fun hmem => (h _ hmem).2 rfl
  refine ⟨brand, number, hform, fun c hc => isDigit_of_ascii (hform.digits c hc) (h c ?_).1, hbrand⟩
  rw [hform.text]
  exact List.mem_append_right _ (List.mem_cons_of_mem _ hc)

/-- The statement selects the keys that `normalize_number` may change. -/
theorem selected_iff_mayChange (h : Plain avid) : selected avid = true ↔ MayChange avid := by
  rw [selected_iff, exemptBrands_eq]
  constructor
  · rintro ⟨brand, number, hform, -, hexempt⟩
    obtain ⟨found, hfound, hbrand, -⟩ := hform.found
    exact ⟨found, hfound, by rwa [hbrand]⟩
  · rintro ⟨found, hfound, hexempt⟩
    obtain ⟨brand, number, hform, hdigits, hbrand⟩ := form_of_plain h hfound
    rw [hbrand] at hexempt
    exact ⟨brand, number, hform, hdigits, hexempt⟩

/-- The normal form of SQL is what `normalize_number` gives, unless the number is too long for it. -/
theorem normalizeNumber_eq (h : Plain avid) : normalizeNumber? avid =
    if selected avid = true ∧ intMaxStrDigits < (splitPart avid '-' 2).length then none else some (normalForm avid) := by
  by_cases hselected : selected avid = true
  · obtain ⟨brand, number, hform, hdigits, hexempt⟩ := selected_iff.1 hselected
    rw [hform.normalize, ← exemptBrands_eq, if_neg hexempt, (splitPart_form hform).2, normalForm, if_pos hselected,
      normalized_form hform hdigits, readInt]
    by_cases hlen : number.length ≤ intMaxStrDigits
    · rw [if_pos hlen, if_neg fun hlong => Nat.not_le.2 hlong.2 hlen]
      rfl
    · rw [if_neg hlen, if_pos ⟨hselected, Nat.lt_of_not_le hlen⟩]
      rfl
  · rw [if_neg fun hlong => hselected hlong.1, normalForm, if_neg hselected]
    unfold normalizeNumber?
    split
    · rfl
    · rename_i found hfound
      refine if_pos ?_
      by_contra hexempt
      exact hselected ((selected_iff_mayChange h).2 ⟨found, hfound, hexempt⟩)

end plain

/-! ## The rows -/

section rows
variable {keys : List Key} {avid : Key}

/-- A row is renamed to its normal form, where no row has it and no other candidate gets it, or stays. -/
theorem renamed_cases (h : avid ∈ keys) :
    (selected avid = true ∧ renamed keys avid = normalized avid ∧ normalized avid ≠ avid ∧ normalized avid ∉ keys ∧
      (candidates keys).countP (·.2 = normalized avid) = 1) ∨
    (renamed keys avid = avid ∧ (selected avid = true → normalized avid ≠ avid → normalized avid ∉ keys →
      (candidates keys).countP (·.2 = normalized avid) ≠ 1)) := by
  have hfind : (candidates keys).find? (·.1 = avid) = if selected avid then some (avid, normalized avid) else none := by
    unfold candidates
    rw [List.find?_map]
    by_cases hselected : selected avid = true
    · have hmem : avid ∈ keys.filter selected := List.mem_filter.2 ⟨h, hselected⟩
      obtain ⟨k, hk⟩ := Option.isSome_iff_exists.1 (List.find?_isSome.2 ⟨avid, hmem, decide_eq_true rfl⟩ :
        ((keys.filter selected).find? fun k => decide (k = avid)).isSome = true)
      have heq := List.find?_some hk
      rw [decide_eq_true_eq] at heq
      rw [heq] at hk
      rw [if_pos hselected]
      exact congrArg (Option.map fun k => (k, normalized k)) hk
    · rw [if_neg hselected, Option.map_eq_none_iff, List.find?_eq_none]
      intro k hk he
      obtain rfl : k = avid := of_decide_eq_true he
      exact hselected (List.mem_filter.1 hk).2
  unfold renamed
  rw [hfind]
  by_cases hselected : selected avid = true
  · rw [if_pos hselected]
    dsimp only
    by_cases hfree : normalized avid ≠ avid ∧ normalized avid ∉ keys ∧ (candidates keys).countP (·.2 = normalized avid) = 1
    · rw [if_pos hfree]
      exact .inl ⟨hselected, rfl, hfree⟩
    · rw [if_neg hfree]
      exact .inr ⟨rfl, fun _ hne hnot hcount => hfree ⟨hne, hnot, hcount⟩⟩
  · rw [if_neg hselected]
    exact .inr ⟨rfl, fun hsel => absurd hsel hselected⟩

/-- The candidates with a certain normal form. -/
def sharing (keys : List Key) (form : Key) : List Key := keys.filter fun avid => selected avid && decide (normalized avid = form)

theorem countP_candidates (form : Key) : (candidates keys).countP (·.2 = form) = (sharing keys form).length := by
  unfold candidates sharing
  rw [List.countP_map, List.countP_filter, List.countP_eq_length_filter]
  refine congrArg List.length (List.filter_congr fun avid _ => ?_)
  rw [Bool.and_comm]
  rfl

theorem mem_sharing {form : Key} : avid ∈ sharing keys form ↔ avid ∈ keys ∧ selected avid = true ∧ normalized avid = form := by
  unfold sharing
  rw [List.mem_filter, Bool.and_eq_true, decide_eq_true_eq]

/-- Two rows stay two rows. -/
theorem renamed_inj {other : Key} (h : avid ∈ keys) (hother : other ∈ keys) (he : renamed keys avid = renamed keys other) :
    avid = other := by
  rcases renamed_cases h with ⟨hsel, hto, -, hfree, hcount⟩ | ⟨hstay, -⟩
  · rcases renamed_cases hother with ⟨hsel', hto', -, -, -⟩ | ⟨hstay', -⟩
    · rw [hto, hto'] at he
      rw [countP_candidates, List.length_eq_one_iff] at hcount
      obtain ⟨only, honly⟩ := hcount
      have hmem : avid ∈ sharing keys (normalized avid) := mem_sharing.2 ⟨h, hsel, rfl⟩
      have hmem' : other ∈ sharing keys (normalized avid) := mem_sharing.2 ⟨hother, hsel', he.symm⟩
      rw [honly, List.mem_singleton] at hmem hmem'
      rw [hmem, hmem']
    · rw [hto, hstay'] at he
      exact absurd (he ▸ hother) hfree
  · rcases renamed_cases hother with ⟨-, hto', -, hfree', -⟩ | ⟨hstay', -⟩
    · rw [hstay, hto'] at he
      exact absurd (he ▸ h) hfree'
    · rwa [hstay, hstay'] at he

theorem migrate_nodup (hkeys : keys.Nodup) : (migrate keys).Nodup :=
  List.Nodup.map_on (fun _ h _ hother he => renamed_inj h hother he) hkeys

/-- A key that is left alone and not in normal form is in another's way, or another is in its. -/
theorem left_alone (hkeys : keys.Nodup) (h : avid ∈ keys) (hstay : renamed keys avid = avid) (hform : normalForm avid ≠ avid) :
    normalForm avid ∈ keys ∨ ∃ other ∈ keys, other ≠ avid ∧ selected other = true ∧ normalForm other = normalForm avid := by
  have hselected : selected avid = true := by
    by_contra hno
    exact hform (if_neg hno)
  have hnormal : ∀ {k}, selected k = true → normalForm k = normalized k := fun hk => if_pos hk
  rw [hnormal hselected] at hform ⊢
  by_cases htaken : normalized avid ∈ keys
  · exact .inl htaken
  · right
    have hcount : (sharing keys (normalized avid)).length ≠ 1 := by
      rcases renamed_cases h with ⟨-, hto, hne, -⟩ | ⟨-, hcount⟩
      · exact absurd (hto.symm.trans hstay) hne
      · rw [← countP_candidates]
        exact hcount hselected hform htaken
    have hmem : avid ∈ sharing keys (normalized avid) := mem_sharing.2 ⟨h, hselected, rfl⟩
    by_contra hnone
    have hall : ∀ other ∈ sharing keys (normalized avid), other = avid := by
      intro other hother
      obtain ⟨hin, hsel, he⟩ := mem_sharing.1 hother
      by_contra hne
      exact hnone ⟨other, hin, hne, hsel, (hnormal hsel).trans he⟩
    have hrep := List.eq_replicate_of_mem hall
    have hnodup : (sharing keys (normalized avid)).Nodup := hkeys.filter _
    rw [hrep, List.nodup_replicate] at hnodup
    have hpos := List.length_pos_of_mem hmem
    omega

end rows

/-- Migration 13 spells a key of ASCII without line feeds as `normalize_number` does where that returns, which it does not for
a number of more than 4300 digits; it selects the keys that `normalize_number` may change. It renames a row to its normal form or
leaves it, keeps the keys apart, and leaves out of normal form only a key whose normal form another row had or another candidate
shared. A normal form is its own. -/
theorem migration13 :
    (∀ avid, Plain avid →
      (selected avid = true ↔ MayChange avid) ∧
      normalizeNumber? avid =
        if selected avid = true ∧ 4300 < (splitPart avid '-' 2).length then none else some (normalForm avid)) ∧
    (∀ keys : List Key, keys.Nodup →
      (∀ avid ∈ keys, renamed keys avid = avid ∨ renamed keys avid = normalForm avid) ∧
      (∀ avid ∈ keys, ∀ other ∈ keys, renamed keys avid = renamed keys other → avid = other) ∧
      (migrate keys).Nodup ∧
      ∀ avid ∈ migrate keys, normalForm avid ≠ avid → avid ∈ keys ∧
        ((∃ other ∈ keys, other ≠ avid ∧ other = normalForm avid) ∨
          ∃ other ∈ keys, other ≠ avid ∧ selected other = true ∧ normalForm other = normalForm avid)) ∧
    ∀ avid normal, normalizeNumber? avid = some normal → normalizeNumber? normal = some normal := by
  refine ⟨fun avid h => ⟨selected_iff_mayChange h, normalizeNumber_eq h⟩, fun keys hkeys => ⟨fun avid h => ?_,
    fun avid h other hother => renamed_inj h hother, migrate_nodup hkeys, fun avid h hform => ?_⟩, fun _ _ => normalizeNumber_idem⟩
  · rcases renamed_cases h with ⟨hsel, hto, -⟩ | ⟨hstay, -⟩
    · exact .inr (hto.trans (if_pos hsel).symm)
    · exact .inl hstay
  · obtain ⟨old, hold, rfl⟩ := List.mem_map.1 h
    rcases renamed_cases hold with ⟨hsel, hto, -⟩ | ⟨hstay, -⟩
    · rw [hto] at hform
      exact absurd (normalForm_normalized hsel) hform
    · rw [hstay] at hform ⊢
      refine ⟨hold, (left_alone hkeys hold hstay hform).imp_left fun htaken => ?_⟩
      exact ⟨_, htaken, hform, rfl⟩

/-- `TBW-19` is spelled as the parser does; `ABC-7` is left, for `ABC-07` would be spelled the same. -/
theorem migration13_spellings :
    (selected "TBW-19".toList = true ∧ normalizeNumber? "TBW-19".toList = some "TBW-019".toList) ∧ (migrate spellings).Nodup ∧
      (normalForm "ABC-7".toList ≠ "ABC-7".toList ∧
        ((∃ other ∈ spellings, other ≠ "ABC-7".toList ∧ other = normalForm "ABC-7".toList) ∨
          ∃ other ∈ spellings, other ≠ "ABC-7".toList ∧ selected other = true ∧ normalForm other = normalForm "ABC-7".toList)) := by
  obtain ⟨hspelled, hkeys, -⟩ := migration13
  have hall : ("TBW-19".toList.all fun c => c.toNat < 128 && c != '\n') = true := by decide
  have hplain : Plain "TBW-19".toList := fun c hc => by simpa using List.all_eq_true.1 hall c hc
  have hnodup : spellings.Nodup := by decide
  have hform : normalForm "ABC-7".toList ≠ "ABC-7".toList := by decide
  obtain ⟨-, -, hdistinct, hleft⟩ := hkeys spellings hnodup
  refine ⟨⟨by decide, ?_⟩, hdistinct, hform, (hleft _ (by decide) hform).2⟩
  exact (hspelled _ hplain).2.trans (by decide)

/-- A number of 4301 zeros: SQL writes three, and `int` raises. -/
theorem long_number_raises : ¬ ∀ avid, Plain avid → normalizeNumber? avid = some (normalForm avid) := by
  intro h
  have hform : NumberForm (['A'] ++ '-' :: List.replicate 4301 '0') ['A'] (List.replicate 4301 '0') := by
    refine ⟨rfl, ?_, ⟨'A', List.mem_singleton.2 rfl, rfl⟩, fun c hc => ?_, fun he => ?_⟩
    · intro c hc
      rw [List.mem_singleton.1 hc]
      rfl
    · rw [List.eq_of_mem_replicate hc]
      decide
    · cases he
  have hplain : Plain (['A'] ++ '-' :: List.replicate 4301 '0') := by
    intro c hc
    rcases List.mem_append.1 hc with hc | hc
    · rw [List.mem_singleton.1 hc]
      decide
    · rcases List.mem_cons.1 hc with rfl | hc
      · decide
      · rw [List.eq_of_mem_replicate hc]
        decide
  have hnone : readInt (List.replicate 4301 '0') = none := by
    rw [readInt, List.length_replicate]
    rfl
  have hgives := h _ hplain
  rw [hform.normalize, if_neg (by decide), hnone] at hgives
  cases hgives

end EmbyxManager.Db.Migration13
