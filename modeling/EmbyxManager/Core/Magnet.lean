import EmbyxManager.Atom.Radix
import EmbyxManager.Atom.Search
import EmbyxManager.Core.Upper
import EmbyxManager.Monitor.Parts
import EmbyxManager.Monitor.World
/-!
# Info hashes

`extract_info_hash` reads the hash that a magnet is known by, and `_offline_file_to_dict`
spells the one CloudDrive reports; the tracker joins the two by their text. A torrent has
one key whichever way its hash is written, and a key is forty hexadecimal digits, unless
the value is a number with the prefix that `int` accepts.
-/

namespace EmbyxManager.Core

open Atom Atom.Regex Parts

/-! ## Reading a magnet -/

/-- `[A-Za-z0-9]` under `IGNORECASE`. -/
def hashChar (c : Char) : Bool := (ignoreCase c).isLower || c.isDigit

/-- `_BTIH_RE`. -/
def btihRe : Regex := .seq (word "urn:btih:") (.group 1 (plus (.one hashChar)))

/-- `_HEX_LENGTH`. -/
def hexLength : Nat := 40

/-- `_BASE32_LENGTH`. -/
def base32Length : Nat := 32

def isHexDigit (c : Char) : Bool := c.isDigit || ('a' ≤ c && c ≤ 'f') || ('A' ≤ c && c ≤ 'F')

/-- Whether `int(value, 16)` reads a run of hash characters, which holds no sign, blank or underscore. -/
def readsBase16 (value : List Char) : Bool :=
  let digits := match value with
    | '0' :: x :: digits => if x = 'x' ∨ x = 'X' then digits else value
    | _ => value
  digits ≠ [] && digits.all isHexDigit

/-- Where a character stands in the alphabet of base32. -/
def base32Value (c : Char) : Option Nat :=
  if 'A' ≤ c ∧ c ≤ 'Z' then some (c.toNat - 65) else if '2' ≤ c ∧ c ≤ '7' then some (c.toNat - 24) else none

/-- `base64.b32decode` of a text without padding; none where it raises. -/
def b32decode (text : List Char) : Option (List Nat) :=
  if text.length % 8 ≠ 0 then none else (text.mapM base32Value).map (Radix.recode 32 8 256 5)

/-- `bytes.hex`. -/
def hexText (bytes : List Nat) : List Char := bytes.flatMap fun b => [Nat.digitChar (b / 16), Nat.digitChar (b % 16)]

/-- The magnet's info hash as upper-case hex, or none. -/
def extractInfoHash (magnet : String) : Option InfoHash :=
  match (btihRe.search magnet.toList).bind (·.group 1) with
  | none => none
  | some value =>
    if value.length = hexLength then
      if readsBase16 value then some (String.ofList (strUpper value)) else none
    else if value.length = base32Length then
      (b32decode (strUpper value)).map fun decoded => String.ofList (strUpper (hexText decoded))
    else none

/-! ## What CloudDrive reports -/

/-- An offline task as CloudDrive lists it, with the number of its status. -/
structure OfflineFile where
  name : String
  status : Nat
  infoHash : String
  percendDone : Rat

/-- `OfflineFileStatus.Name`, read as an `OfflineStatus`. -/
def offlineStatus : Nat → OfflineStatus
  | 0 => .init
  | 1 => .downloading
  | 2 => .finished
  | 3 => .error
  | _ => .unknown

def offlineFileToDict (file : OfflineFile) : OfflineTask where
  name := file.name
  infoHash := String.ofList (strUpper file.infoHash.toList)
  status := offlineStatus file.status
  progress := file.percendDone

/-! ## Hashes -/

/-- A v1 info hash. -/
structure Sha1 where
  bytes : List Nat
  length : bytes.length = 20
  byte : ∀ b ∈ bytes, b < 256

def base32Char (d : Nat) : Char := if d < 26 then Char.ofNat (65 + d) else Char.ofNat (24 + d)

/-- One text is the other in some mix of letter case. -/
def InAnyCase (t written : List Char) : Prop := written.map Char.toLower = t.map Char.toLower

/-- A text of 40 upper-case hexadecimal digits. -/
def IsKey (key : List Char) : Prop := key.length = 40 ∧ ∀ c ∈ key, c.isDigit = true ∨ 'A' ≤ c ∧ c ≤ 'F'

namespace Sha1

/-- The hash as 40 hexadecimal digits. -/
def hex (h : Sha1) : List Char := hexText h.bytes

/-- The hash as 32 characters of base32. -/
def base32 (h : Sha1) : List Char := (Radix.recode 256 5 32 8 h.bytes).map base32Char

/-- What the ledger joins on. -/
def key (h : Sha1) : InfoHash := String.ofList (h.hex.map Char.toUpper)

/-- The hash is written in hex or in base32, in any mix of letter case. -/
def WrittenAs (h : Sha1) (value : List Char) : Prop := InAnyCase h.hex value ∨ InAnyCase h.base32 value

end Sha1

/-! ## The first value of a magnet -/

/-- `urn:btih:` as `IGNORECASE` reads it. -/
def Marks (marker : List Char) : Prop := marker.map ignoreCase = "urn:btih:".toList

/-- All the hash characters behind the first marker that any stand behind. -/
def FirstValue (magnet value : List Char) : Prop :=
  ∃ before marker after, magnet = before ++ (marker ++ (value ++ after)) ∧ Marks marker ∧ value ≠ [] ∧
    (∀ c ∈ value, hashChar c = true) ∧ (∀ c ∈ after.head?, hashChar c = false) ∧
    ∀ before' marker' c rest, magnet = before' ++ (marker' ++ c :: rest) → Marks marker' → hashChar c = true →
      before.length ≤ before'.length

theorem marks_iff {marker : List Char} :
    List.Forall₂ (fun c x => decide (ignoreCase x = c) = true) "urn:btih:".toList marker ↔ Marks marker := by
  have h : ∀ s : List Char, List.Forall₂ (fun c x => decide (ignoreCase x = c) = true) s marker ↔ marker.map ignoreCase = s := by
    intro s
    induction marker generalizing s with
    | nil => cases s <;> simp
    | cons x marker ih =>
      cases s with
      | nil => simp
      | cons c s => rw [List.forall₂_cons, ih, List.map_cons, List.cons.injEq, decide_eq_true_eq]
  exact h _

theorem takeWhile_run {p : Char → Bool} {value after : List Char} (hall : ∀ c ∈ value, p c = true)
    (hafter : ∀ c ∈ after.head?, p c = false) :
    (value ++ after).takeWhile p = value ∧ (value ++ after).dropWhile p = after := by
  rw [List.takeWhile_append_of_pos hall, List.dropWhile_append_of_pos hall]
  cases after with
  | nil => exact ⟨List.append_nil _, rfl⟩
  | cons d after =>
    have hd : ¬p d = true := by simp [hafter d rfl]
    exact ⟨by rw [List.takeWhile_cons_of_neg hd, List.append_nil], List.dropWhile_cons_of_neg hd⟩

theorem run_btihRe {done marker after : List Char} {c : Char} (hmarker : Marks marker) (hc : hashChar c = true) :
    btihRe.run ⟨done, marker ++ c :: after, []⟩ some = some ⟨((c :: after).takeWhile hashChar).reverse ++ (marker.reverse ++ done),
      (c :: after).dropWhile hashChar, [(1, (c :: after).takeWhile hashChar)]⟩ := by
  rw [List.takeWhile_cons_of_pos hc, List.dropWhile_cons_of_pos hc, List.reverse_cons, List.append_assoc]
  unfold btihRe plus word
  rw [run, run_text (marks_iff.2 hmarker), run, run, run_one_cons hc, run_star_one rfl]
  refine congrArg some (congrArg _ (congrArg (fun v => [(1, v)]) (Over.since ⟨?_, ?_⟩)))
  · rw [List.cons_append, List.takeWhile_append_dropWhile]
  · rw [List.reverse_cons, List.append_assoc]
    rfl

theorem run_btihRe_none {done rest : List Char}
    (h : ∀ marker c after, rest = marker ++ c :: after → Marks marker → ¬hashChar c = true) :
    btihRe.run ⟨done, rest, []⟩ some = none := by
  cases hrun : btihRe.run ⟨done, rest, []⟩ some with
  | none => rfl
  | some b =>
    obtain ⟨_, hreads, -⟩ := run_reads hrun
    obtain ⟨m, hmarker, ⟨g, ⟨d, ⟨c, after, hrest, hc, -⟩, -⟩, -⟩⟩ := hreads
    obtain ⟨marker, hforall, he⟩ := Reads.text hmarker
    exact absurd hc (h marker c after (he.trans (by rw [hrest])) (marks_iff.1 hforall))

/-- The search finds the first value. -/
theorem firstValue_iff {magnet value : List Char} :
    (btihRe.search magnet).bind (·.group 1) = some value ↔ FirstValue magnet value := by
  constructor
  · intro h
    obtain ⟨found, hfound, hgroup⟩ := Option.bind_eq_some_iff.1 h
    obtain ⟨before, rest, hmagnet, hrun, hfirst⟩ := search_iff.1 hfound
    -- where the pattern matches there is a marker with a value
    obtain ⟨marker, c, after, he, hm, hc⟩ : ∃ marker c after, rest = marker ++ c :: after ∧ Marks marker ∧ hashChar c = true := by
      by_contra hno
      have hnone : btihRe.run ⟨before.reverse, rest, []⟩ some = none :=
        run_btihRe_none fun marker c after he hm hc => hno ⟨marker, c, after, he, hm, hc⟩
      rw [hnone] at hrun
      cases hrun
    rw [he, run_btihRe hm hc] at hrun
    obtain rfl := Option.some.inj hrun
    obtain rfl : (c :: after).takeWhile hashChar = value := Option.some.inj hgroup
    refine ⟨before, marker, (c :: after).dropWhile hashChar, ?_, hm, ?_, fun x hx => List.mem_takeWhile_imp hx, ?_, ?_⟩
    · rw [List.takeWhile_append_dropWhile, ← he, hmagnet]
    · rw [List.takeWhile_cons_of_pos hc]
      exact List.cons_ne_nil _ _
    · intro x hx
      have hhead := List.head?_dropWhile_not hashChar (c :: after)
      rw [Option.mem_def.1 hx] at hhead
      simpa using hhead
    · intro before' marker' c' rest' hmagnet' hm' hc'
      by_contra hlt
      have hnone := hfirst before' _ hmagnet' (Nat.lt_of_not_le hlt)
      rw [run_btihRe hm' hc'] at hnone
      cases hnone
  · rintro ⟨before, marker, after, hmagnet, hm, hne, hall, hafter, hfirst⟩
    obtain ⟨htake, -⟩ := takeWhile_run hall hafter
    cases value with
    | nil => exact absurd rfl hne
    | cons c value =>
      -- the value is taken whole, and no marker before it has one
      have hrun := @run_btihRe before.reverse marker (value ++ after) c hm (hall c List.mem_cons_self)
      rw [Option.bind_eq_some_iff]
      refine ⟨_, search_iff.2 ⟨before, _, hmagnet, hrun, ?_⟩, congrArg some htake⟩
      intro before' rest' hmagnet' hlt
      refine run_btihRe_none fun marker' c' after' he hm' hc' => ?_
      have hle := hfirst before' marker' c' after' (by rw [hmagnet', he]) hm' hc'
      exact absurd hle (Nat.not_le_of_lt hlt)

/-! ## Letter case -/

theorem ascii_of_toLower {c : Char} (h : c.toLower.toNat < 128) : c.toNat < 128 := by
  unfold Char.toLower at h
  split at h
  · rename_i hc
    have hle : c.toNat ≤ 90 := hc.2
    omega
  · exact h

set_option maxRecDepth 4000 in
theorem toLower_ascii {c : Char} (h : c.toNat < 128) : c.toLower.toNat < 128 ∧ c.toLower.toUpper = c.toUpper ∧
    (isHexDigit c.toLower = true → isHexDigit c = true) := by
  have hall : ∀ n ∈ List.range 128, (Char.ofNat n).toLower.toNat < 128 ∧ (Char.ofNat n).toLower.toUpper = (Char.ofNat n).toUpper ∧
      (isHexDigit (Char.ofNat n).toLower = true → isHexDigit (Char.ofNat n) = true) := by decide
  have hc := hall c.toNat (List.mem_range.2 h)
  rwa [Char.ofNat_toNat] at hc

theorem InAnyCase.ascii {t written : List Char} (h : InAnyCase t written) (ht : ∀ c ∈ t, c.toNat < 128) :
    ∀ c ∈ written, c.toNat < 128 := by
  intro c hc
  have hmem : c.toLower ∈ t.map Char.toLower := by
    rw [← h]
    exact List.mem_map_of_mem hc
  obtain ⟨d, hd, he⟩ := List.mem_map.1 hmem
  apply ascii_of_toLower
  rw [← he]
  exact (toLower_ascii (ht d hd)).1

/-- Texts of ASCII that differ in letter case have the same upper case. -/
theorem InAnyCase.upper {t written : List Char} (h : InAnyCase t written) (ht : ∀ c ∈ t, c.toNat < 128) :
    strUpper written = t.map Char.toUpper := by
  have hmap : ∀ {s : List Char}, (∀ c ∈ s, c.toNat < 128) → s.map Char.toUpper = (s.map Char.toLower).map Char.toUpper := by
    intro s hs
    rw [List.map_map]
    exact List.map_congr_left fun c hc => (toLower_ascii (hs c hc)).2.1.symm
  rw [strUpper_ascii (h.ascii ht), hmap (h.ascii ht), h, ← hmap ht]

theorem InAnyCase.length {t written : List Char} (h : InAnyCase t written) : written.length = t.length := by
  have := congrArg List.length h
  rwa [List.length_map, List.length_map] at this

/-! ## Digits -/

theorem digitChar_hex {d : Nat} (h : d < 16) : (Nat.digitChar d).toNat < 128 ∧ isHexDigit (Nat.digitChar d) = true ∧
    (Nat.digitChar d).toLower = Nat.digitChar d := by
  have hall : ∀ d < 16, (Nat.digitChar d).toNat < 128 ∧ isHexDigit (Nat.digitChar d) = true ∧
    (Nat.digitChar d).toLower = Nat.digitChar d := by decide
  exact hall d h

theorem base32Char_digit {d : Nat} (h : d < 32) : (base32Char d).toNat < 128 ∧ (base32Char d).toUpper = base32Char d ∧
    base32Value (base32Char d) = some d := by
  have hall : ∀ d < 32, (base32Char d).toNat < 128 ∧ (base32Char d).toUpper = base32Char d ∧
    base32Value (base32Char d) = some d := by decide
  exact hall d h

theorem isHexDigit_ascii {c : Char} (h : isHexDigit c = true) : c.toNat < 128 := by
  simp only [isHexDigit, Char.isDigit, Bool.or_eq_true, Bool.and_eq_true, decide_eq_true_eq] at h
  rcases h with (⟨-, h⟩ | ⟨-, h⟩) | ⟨-, h⟩
  · exact Nat.lt_of_le_of_lt h (by decide)
  · exact Nat.lt_of_le_of_lt h (by decide)
  · exact Nat.lt_of_le_of_lt h (by decide)

set_option maxRecDepth 4000 in
theorem toUpper_hex {c : Char} (h : isHexDigit c = true) : c.toUpper.isDigit = true ∨ 'A' ≤ c.toUpper ∧ c.toUpper ≤ 'F' := by
  have hall : ∀ n ∈ List.range 128, isHexDigit (Char.ofNat n) = true →
      (Char.ofNat n).toUpper.isDigit = true ∨ 'A' ≤ (Char.ofNat n).toUpper ∧ (Char.ofNat n).toUpper ≤ 'F' := by decide
  have hc := hall c.toNat (List.mem_range.2 (isHexDigit_ascii h))
  rw [Char.ofNat_toNat] at hc
  exact hc h

theorem hexText_hex {bytes : List Nat} (h : ∀ b ∈ bytes, b < 256) : ∀ c ∈ hexText bytes, ∃ d < 16, c = Nat.digitChar d := by
  intro c hc
  obtain ⟨b, hb, hc⟩ := List.mem_flatMap.1 hc
  have hlt := h b hb
  rcases List.mem_cons.1 hc with rfl | hc
  · exact ⟨b / 16, by omega, rfl⟩
  · exact ⟨b % 16, Nat.mod_lt b (by decide), List.mem_singleton.1 hc⟩

theorem length_hexText (bytes : List Nat) : (hexText bytes).length = 2 * bytes.length := by
  induction bytes with
  | nil => rfl
  | cons b bytes ih =>
    rw [hexText, List.flatMap_cons, List.length_append, ← hexText, ih]
    simp only [List.length_cons, List.length_nil]
    omega

/-- A hash character has one character for its upper case. -/
theorem length_upperChar {c : Char} (h : hashChar c = true) : (upperChar c).length = 1 := by
  by_cases hc : c.toNat < 128
  · rw [upperChar_ascii hc]
    rfl
  · have hlower : c = 'ſ' ∨ c = 'K' ∨ c = 'ı' ∨ c = 'İ' := by
      rw [hashChar, Bool.or_eq_true] at h
      rcases h with h | h
      · unfold ignoreCase at h
        split at h
        · exact .inl (by assumption)
        · split at h
          · exact .inr (.inl (by assumption))
          · split at h
            · exact .inr (.inr (by assumption))
            · have hle : c.toLower.toNat ≤ 122 := by
                change (decide ('a' ≤ c.toLower) && decide (c.toLower ≤ 'z')) = true at h
                rw [Bool.and_eq_true, decide_eq_true_eq, decide_eq_true_eq] at h
                exact h.2
              exact absurd (ascii_of_toLower (Nat.lt_of_le_of_lt hle (by decide))) hc
      · have hle : c.toNat ≤ 57 := by
          simp only [Char.isDigit, Bool.and_eq_true, decide_eq_true_eq] at h
          exact h.2
        omega
    rcases hlower with rfl | rfl | rfl | rfl <;> decide

theorem length_strUpper {value : List Char} (h : ∀ c ∈ value, hashChar c = true) : (strUpper value).length = value.length := by
  induction value with
  | nil => rfl
  | cons c value ih =>
    rw [strUpper, List.flatMap_cons, List.length_append, length_upperChar (h c List.mem_cons_self), ← strUpper,
      ih fun x hx => h x (List.mem_cons_of_mem _ hx), List.length_cons, Nat.add_comm]

/-- Forty hexadecimal digits in upper case are a key. -/
theorem isKey_upper {value : List Char} (hlen : value.length = 40) (h : ∀ c ∈ value, isHexDigit c = true) :
    IsKey (strUpper value) := by
  rw [strUpper_ascii fun c hc => isHexDigit_ascii (h c hc)]
  refine ⟨by rw [List.length_map, hlen], fun c hc => ?_⟩
  obtain ⟨d, hd, rfl⟩ := List.mem_map.1 hc
  exact toUpper_hex (h d hd)

theorem length_of_mapM {α β : Type} {f : α → Option β} {xs : List α} {ys : List β} (h : xs.mapM f = some ys) :
    ys.length = xs.length := by
  induction xs generalizing ys with
  | nil =>
    obtain rfl : [] = ys := Option.some.inj h
    rfl
  | cons x xs ih =>
    rw [List.mapM_cons] at h
    obtain ⟨y, -, h⟩ := Option.bind_eq_some_iff.1 h
    obtain ⟨zs, hzs, h⟩ := Option.bind_eq_some_iff.1 h
    obtain rfl : y :: zs = ys := Option.some.inj h
    rw [List.length_cons, List.length_cons, ih hzs]

/-! ## A hash read back -/

section sha1
variable (h : Sha1) {value : List Char}

theorem hex_ascii : ∀ c ∈ h.hex, c.toNat < 128 := by
  intro c hc
  obtain ⟨d, hd, rfl⟩ := hexText_hex h.byte c hc
  exact (digitChar_hex hd).1

theorem base32_digits : ∀ d ∈ Radix.recode 256 5 32 8 h.bytes, d < 32 := Radix.recode_lt (by decide) _

theorem base32_ascii : ∀ c ∈ h.base32, c.toNat < 128 := by
  intro c hc
  obtain ⟨d, hd, rfl⟩ := List.mem_map.1 hc
  exact (base32Char_digit (base32_digits h d hd)).1

theorem length_base32 : h.base32.length = 32 := by
  rw [Sha1.base32, List.length_map, Radix.length_recode, h.length]

theorem hex_isHexDigit (hvalue : InAnyCase h.hex value) : ∀ c ∈ value, isHexDigit c = true := by
  intro c hc
  have hmem : c.toLower ∈ h.hex.map Char.toLower := by
    rw [← hvalue]
    exact List.mem_map_of_mem hc
  obtain ⟨e, he, hlower⟩ := List.mem_map.1 hmem
  obtain ⟨d, hd, rfl⟩ := hexText_hex h.byte e he
  apply (toLower_ascii (hvalue.ascii (hex_ascii h) c hc)).2.2
  rw [← hlower, (digitChar_hex hd).2.2]
  exact (digitChar_hex hd).2.1

theorem b32decode_base32 : b32decode h.base32 = some h.bytes := by
  have hmap : ∀ digits : List Nat, (∀ d ∈ digits, d < 32) → (digits.map base32Char).mapM base32Value = some digits := by
    intro digits hdigits
    induction digits with
    | nil => rfl
    | cons d digits ih =>
      rw [List.map_cons, List.mapM_cons, (base32Char_digit (hdigits d List.mem_cons_self)).2.2,
        ih fun x hx => hdigits x (List.mem_cons_of_mem _ hx)]
      rfl
  have hback : Radix.recode 32 8 256 5 (Radix.recode 256 5 32 8 h.bytes) = h.bytes :=
    Radix.recode_recode (by decide) (by decide) (by decide) ⟨4, h.length⟩ h.byte
  rw [b32decode, length_base32, if_neg (by decide), Sha1.base32, hmap _ (base32_digits h), Option.map_some, hback]

theorem b32decode_bytes {text : List Char} {decoded : List Nat} (hdecoded : b32decode text = some decoded) :
    decoded.length = text.length / 8 * 5 ∧ ∀ b ∈ decoded, b < 256 := by
  unfold b32decode at hdecoded
  split at hdecoded
  · cases hdecoded
  · obtain ⟨digits, hdigits, rfl⟩ := Option.map_eq_some_iff.1 hdecoded
    refine ⟨?_, Radix.recode_lt (by decide) digits⟩
    rw [Radix.length_recode, length_of_mapM hdigits]

theorem base32_upper (hvalue : InAnyCase h.base32 value) : strUpper value = h.base32 := by
  rw [hvalue.upper (base32_ascii h)]
  refine List.map_congr_left (fun c hc => ?_) |>.trans (List.map_id _)
  obtain ⟨d, hd, rfl⟩ := List.mem_map.1 hc
  exact (base32Char_digit (base32_digits h d hd)).2.1

end sha1

/-! ## The key of a magnet -/

/-- A number of 38 hexadecimal digits behind the prefix that `int` accepts. -/
def Prefixed (value : List Char) : Prop :=
  ∃ x digits, value = '0' :: x :: digits ∧ (x = 'x' ∨ x = 'X') ∧ digits.length = 38 ∧ ∀ c ∈ digits, isHexDigit c = true

theorem readsBase16_hex {value : List Char} (hne : value ≠ []) (h : ∀ c ∈ value, isHexDigit c = true) :
    readsBase16 value = true := by
  have hall : value.all isHexDigit = true := List.all_eq_true.2 h
  unfold readsBase16
  split
  · rename_i x digits
    have hx := h x (by simp)
    rw [if_neg (by rintro (rfl | rfl) <;> cases hx)]
    simp only [hall, Bool.and_true]
    rfl
  · simp only [hall, Bool.and_true]
    exact decide_eq_true hne

theorem readsBase16_cases {value : List Char} (hlen : value.length = 40) (h : readsBase16 value = true) :
    (∀ c ∈ value, isHexDigit c = true) ∨ Prefixed value := by
  unfold readsBase16 at h
  split at h
  · rename_i x digits
    by_cases hx : x = 'x' ∨ x = 'X'
    · rw [if_pos hx, Bool.and_eq_true] at h
      exact .inr ⟨x, digits, rfl, hx, by simpa using hlen, List.all_eq_true.1 h.2⟩
    · rw [if_neg hx, Bool.and_eq_true] at h
      exact .inl (List.all_eq_true.1 h.2)
  · rw [Bool.and_eq_true] at h
    exact .inl (List.all_eq_true.1 h.2)

theorem readsBase16_prefixed {value : List Char} (h : Prefixed value) : value.length = 40 ∧ readsBase16 value = true := by
  obtain ⟨x, digits, rfl, hx, hlen, hdigits⟩ := h
  refine ⟨by simp [hlen], ?_⟩
  have hne : digits ≠ [] := fun he => by simp [he] at hlen
  have hall : digits.all isHexDigit = true := List.all_eq_true.2 hdigits
  simp only [readsBase16, if_pos hx, hall, Bool.and_true]
  exact decide_eq_true hne

section key
variable {magnet : String} {value : List Char}

theorem extractInfoHash_hex (hfirst : FirstValue magnet.toList value) (hlen : value.length = 40) :
    extractInfoHash magnet = if readsBase16 value then some (String.ofList (strUpper value)) else none := by
  unfold extractInfoHash
  rw [firstValue_iff.2 hfirst]
  exact if_pos hlen

theorem extractInfoHash_base32 (hfirst : FirstValue magnet.toList value) (hlen : value.length = 32) :
    extractInfoHash magnet = (b32decode (strUpper value)).map fun decoded => String.ofList (strUpper (hexText decoded)) := by
  unfold extractInfoHash
  rw [firstValue_iff.2 hfirst]
  exact (if_neg (by rw [hlen]; decide)).trans (if_pos hlen)

/-- However the hash is written, the magnet has its key. -/
theorem extractInfoHash_written {h : Sha1} (hfirst : FirstValue magnet.toList value) (hvalue : h.WrittenAs value) :
    extractInfoHash magnet = some h.key := by
  have hhex : h.hex.length = 40 := by rw [Sha1.hex, length_hexText, h.length]
  rcases hvalue with hvalue | hvalue
  · have hlen : value.length = 40 := hvalue.length.trans hhex
    have hne : value ≠ [] := fun he => by simp [he] at hlen
    rw [extractInfoHash_hex hfirst hlen, if_pos (readsBase16_hex hne (hex_isHexDigit h hvalue)), hvalue.upper (hex_ascii h),
      Sha1.key]
  · have hlen : value.length = 32 := hvalue.length.trans (length_base32 h)
    rw [extractInfoHash_base32 hfirst hlen, base32_upper h hvalue, b32decode_base32, Option.map_some, ← Sha1.hex,
      strUpper_ascii (hex_ascii h), Sha1.key]

/-- What a magnet gives is a key, or a number with a prefix. -/
theorem extractInfoHash_cases {key : InfoHash} (hkey : extractInfoHash magnet = some key) :
    IsKey key.toList ∨ ∃ value, FirstValue magnet.toList value ∧ Prefixed value := by
  unfold extractInfoHash at hkey
  split at hkey
  · cases hkey
  · rename_i value hvalue
    have hfirst := firstValue_iff.1 hvalue
    by_cases hlen : value.length = hexLength
    · rw [if_pos hlen] at hkey
      by_cases hread : readsBase16 value = true
      · rw [if_pos hread] at hkey
        obtain rfl := Option.some.inj hkey
        rw [String.toList_ofList]
        exact (readsBase16_cases hlen hread).imp (isKey_upper hlen) fun hprefixed => ⟨value, hfirst, hprefixed⟩
      · rw [if_neg hread] at hkey
        cases hkey
    · rw [if_neg hlen] at hkey
      by_cases hlen' : value.length = base32Length
      · rw [if_pos hlen', Option.map_eq_some_iff] at hkey
        obtain ⟨decoded, hdecoded, rfl⟩ := hkey
        obtain ⟨hbytes, hlt⟩ := b32decode_bytes hdecoded
        obtain ⟨_, _, _, _, _, _, hall, -⟩ := hfirst
        rw [length_strUpper hall, hlen'] at hbytes
        rw [String.toList_ofList]
        refine .inl (isKey_upper ?_ fun c hc => ?_)
        · rw [length_hexText, hbytes]
          rfl
        · obtain ⟨d, hd, rfl⟩ := hexText_hex hlt c hc
          exact (digitChar_hex hd).2.1
      · rw [if_neg hlen'] at hkey
        cases hkey

/-- Every hash the magnet writes has one key, which is the one CloudDrive's task has; and the magnet
has no key or one of 40 upper-case hexadecimal digits. -/
def OneJoinKey (magnet : String) : Prop :=
  (∀ (h : Sha1) (value : List Char), FirstValue magnet.toList value → h.WrittenAs value →
    extractInfoHash magnet = some h.key ∧
      ∀ file : OfflineFile, InAnyCase h.hex file.infoHash.toList → (offlineFileToDict file).infoHash = h.key) ∧
  ∀ key, extractInfoHash magnet = some key → IsKey key.toList

theorem not_isKey_prefixed (h : Prefixed value) : ¬IsKey (strUpper value) := by
  obtain ⟨x, digits, rfl, hx, -, -⟩ := h
  intro hkey
  have hmem : 'X' ∈ strUpper ('0' :: x :: digits) := by
    refine List.mem_flatMap.2 ⟨x, by simp, ?_⟩
    rcases hx with rfl | rfl <;> decide
  exact absurd (hkey.2 'X' hmem) (by decide)

/-- A magnet has one join key exactly where its first value is no number with a prefix. -/
theorem oneJoinKey_iff (magnet : String) :
    OneJoinKey magnet ↔ ∀ value, FirstValue magnet.toList value → ¬Prefixed value := by
  constructor
  · rintro ⟨-, hkey⟩ value hfirst hprefixed
    obtain ⟨hlen, hread⟩ := readsBase16_prefixed hprefixed
    have hgives := extractInfoHash_hex hfirst hlen
    rw [if_pos hread] at hgives
    have hbad := hkey _ hgives
    rw [String.toList_ofList] at hbad
    exact not_isKey_prefixed hprefixed hbad
  · intro hplain
    refine ⟨fun h value hfirst hvalue => ⟨extractInfoHash_written hfirst hvalue, fun file hfile => ?_⟩, fun key hkey => ?_⟩
    · simp only [offlineFileToDict, Sha1.key, hfile.upper (hex_ascii h)]
    · rcases extractInfoHash_cases hkey with hkey | ⟨value, hfirst, hprefixed⟩
      · exact hkey
      · exact absurd hprefixed (hplain value hfirst)

end key

/-- `int` reads the value behind its prefix, so what is no hash becomes a key. -/
theorem prefixed_magnet : ¬OneJoinKey "magnet:?xt=urn:btih:0xaaaaaaaaaaaaaaaaaaaaaaaaaaaaaaaaaaaaaa&dn=x" := by
  intro h
  have hkey := h.2 "0XAAAAAAAAAAAAAAAAAAAAAAAAAAAAAAAAAAAAAA" (by decide)
  exact absurd (hkey.2 'X' (by decide)) (by decide)

end EmbyxManager.Core
