import Mathlib.Data.List.Dedup
import Mathlib.Data.String.Basic
import EmbyxManager.Monitor.Parts
/-!
# The order of parts

Parts that differ in their number alone are sorted by name before they get their `-cdN`, so
what counts is how the numbers compare as texts. Copies of one file are told by a number in
brackets at the end of the name, and are dropped before anything is arranged.
-/

namespace EmbyxManager.Parts

open Atom

/-! ## Copies -/

/-- `\s`. -/
def isSpace (c : Char) : Bool :=
  (9 ≤ c.toNat && c.toNat ≤ 13) || (0x1C ≤ c.toNat && c.toNat ≤ 0x20) || (0x2000 ≤ c.toNat && c.toNat ≤ 0x200A) ||
    [0x85, 0xA0, 0x1680, 0x2028, 0x2029, 0x202F, 0x205F, 0x3000].contains c.toNat

/-- `COPY_SUFFIX_RE`. -/
def copySuffixRe : Regex :=
  .all [.star true (.one isSpace), .one (· = '('), .plus (.one isDecimal), .one (· = ')'), .finish]

def normalizeCopySuffix (stem : List Char) : List Char := copySuffixRe.sub [] stem

/-- What two copies of one file have in common. -/
def copyKey (v : Video) : List Char × List Char × Nat :=
  (normalizeCopySuffix (stem v.name), (suffix v.name).map Char.toLower, v.size)

/-- The name says that the file is a copy. -/
def isCopy (v : Video) : Bool := (copyKey v).1 ≠ stem v.name

/-- `_drop_duplicate_copies`: the videos without the copies whose original is there. -/
def dropDuplicateCopies (videos : List Video) : List Video :=
  videos.filter fun v => !(isCopy v && videos.any fun u => !isCopy u && decide (copyKey u = copyKey v))

/-- The archive pipeline with everything it reads off names and sizes. -/
def pipeline (fold : Char → List Char) (avidOf : String → Avid) : Archiver where
  getAvid := avidOf
  dropCopies := dropDuplicateCopies
  arrange := arrangeVideos fold avidOf

/-! ## Names with a number -/

/-- Names that differ in a part number only. -/
structure PartNames where
  before : List Char
  after : List Char
  /-- How each number is written. -/
  number : Nat → List Char

def PartNames.name (p : PartNames) (k : Nat) : String := String.ofList (p.before ++ (p.number k ++ p.after))

/-- The videos are the parts `1` to `n`, each once; the numbers are written in decimal digits, with
or without zeros in front. -/
structure PartSet (p : PartNames) (n : Nat) (videos : List Video) : Prop where
  several : 2 ≤ n
  names : (videos.map (·.name)).Perm ((List.range' 1 n).map p.name)
  decimal : ∀ k, 1 ≤ k → k ≤ n → ∀ c ∈ p.number k, isDecimal c = true
  reads : ∀ k, 1 ≤ k → k ≤ n → intOf (p.number k) = k

/-- Each number, with what follows it, comes before the next one as a text. -/
def Ascends (p : PartNames) (n : Nat) : Prop :=
  ∀ k, 1 ≤ k → k < n → p.number k ++ p.after < p.number (k + 1) ++ p.after

instance (p : PartNames) (n : Nat) : Decidable (Ascends p n) :=
  decidable_of_iff (∀ k < n, 1 ≤ k → p.number k ++ p.after < p.number (k + 1) ++ p.after)
    ⟨fun h k hk hn => h k hn hk, fun h k hn hk => h k hk hn⟩

/-- A call that is to file its videos under this AVID. -/
def CallFor (avid : Avid) : ArchiveCall → Prop
  | .folder _ _ _ _ expected => expected = "" ∨ expected = avid
  | .looseGroup avid' _ _ _ => avid' = avid

/-- Whatever the brand's directory, part `k` is to be moved to `AVID-cdk`. -/
def FiledInOrder (arch : Archiver) (call : ArchiveCall) (avid : Avid) (p : PartNames) (n : Nat) : Prop :=
  ∃ ordered, call.selection arch = some ⟨avid, ordered⟩ ∧
    ∀ own, ∀ v ∈ call.videos, ∀ k, 1 ≤ k → k ≤ n → v.name = p.name k →
      (v, (⟨own, avid ++ ("-cd" ++ Nat.repr k) ++ String.ofList (suffix v.name)⟩ : LibraryFile)) ∈
        Archive.targets avid ordered own

/-! ## Nothing is taken for a copy -/

theorem dedup_const {α : Type} [DecidableEq α] {a : α} {l : List α} (h : ∀ x ∈ l, x = a) (hne : l ≠ []) : l.dedup = [a] := by
  induction l with
  | nil => exact absurd rfl hne
  | cons x rest ih =>
    obtain rfl := h x List.mem_cons_self
    have hrest : ∀ y ∈ rest, y = x := fun y hy => h y (List.mem_cons_of_mem _ hy)
    by_cases hnil : rest = []
    · subst hnil
      rfl
    · have hmem : x ∈ rest := by
        obtain ⟨y, hy⟩ := List.exists_mem_of_ne_nil _ hnil
        exact hrest y hy ▸ hy
      rw [List.dedup_cons_of_mem hmem]
      exact ih hrest hnil

theorem allSame_of {texts : List (List Char)} {t : List Char} (h : ∀ u ∈ texts, u = t) (hne : texts ≠ []) :
    allSame texts = true := by
  rw [allSame, dedup_const h hne]
  rfl

theorem splitName_join (name : List Char) : (splitName name).1 ++ (splitName name).2 = name := by
  rcases splitName_cases name with h | ⟨stem, ext, hname, -, -, hsplit⟩
  · unfold splitName at h ⊢
    dsimp only at h ⊢
    split
    · simp
    · rename_i hn
      rw [if_neg hn] at h
      cases h
  · rw [hsplit, ← hname]

theorem toLower_bracket (c : Char) : c.toLower = '(' ↔ c = '(' := by
  unfold Char.toLower
  split
  · rename_i hupper
    have hne : c ≠ '(' := by
      rintro rfl
      exact absurd hupper (by decide)
    refine iff_of_false (fun h => ?_) hne
    have hval := congrArg (fun c => c.val.toNat) h
    simp only [UInt32.toNat_add, ge_iff_le, UInt32.le_iff_toNat_le] at hval hupper
    have hA : 'A'.val.toNat = 65 := rfl
    have hZ : 'Z'.val.toNat = 90 := rfl
    have hd : ('a'.val - 'A'.val).toNat = 32 := rfl
    have hb : '('.val.toNat = 40 := rfl
    omega
  · exact Iff.rfl

theorem count_lower (s : List Char) : (s.map Char.toLower).count '(' = s.count '(' := by
  induction s with
  | nil => rfl
  | cons c cs ih =>
    rw [List.map_cons, List.count_cons, List.count_cons, ih]
    simp [toLower_bracket]

/-- What reads as a copy suffix holds a bracket. -/
theorem copySuffix_bracket {a b : Regex.At} (h : copySuffixRe.Reads a b) : '(' ∈ a.since b := by
  obtain ⟨m, hspaces, m', ⟨c, rest, hrest, hc, rfl⟩, hdigits⟩ := h
  obtain ⟨t, ht⟩ := Regex.Reads.over (r := .star true (.one isSpace)) hspaces
  obtain ⟨u, hu⟩ := Regex.Reads.over (r := .all [.plus (.one isDecimal), .one (· = ')'), .finish]) hdigits
  have hone : Regex.Over [c] m { m with done := c :: m.done, rest } := ⟨hrest, rfl⟩
  rw [((ht.trans hone).trans hu).since]
  have : c = '(' := by simpa using hc
  simp [this]

theorem isCopy_iff {v : Video} : isCopy v = true ↔ normalizeCopySuffix (stem v.name) ≠ stem v.name := by
  unfold isCopy
  exact decide_eq_true_iff

/-- Files that differ in digits only are no copies of each other. -/
theorem dropDuplicateCopies_eq {videos : List Video} {t : List Char} (h : ∀ v ∈ videos, withoutDigits v.name = t) :
    dropDuplicateCopies videos = videos := by
  have brackets : ∀ v ∈ videos, (stem v.name).count '(' + ((suffix v.name).map Char.toLower).count '(' = t.count '(' := by
    intro v hv
    rw [count_lower, ← List.count_append, stem, suffix, splitName_join, ← h v hv, withoutDigits,
      List.count_filter (by decide)]
  refine List.filter_eq_self.2 fun v hv => ?_
  rw [Bool.not_eq_true', Bool.and_eq_false_imp]
  intro hcopy
  rw [Bool.eq_false_iff]
  intro hany
  obtain ⟨u, hu, hbase⟩ := List.any_eq_true.1 hany
  simp only [Bool.and_eq_true, Bool.not_eq_true', decide_eq_true_eq] at hbase
  have hstem : normalizeCopySuffix (stem u.name) = stem u.name := by
    by_contra hne
    rw [isCopy_iff.2 hne] at hbase
    cases hbase.1
  have hnormal : normalizeCopySuffix (stem u.name) = normalizeCopySuffix (stem v.name) := congrArg Prod.fst hbase.2
  have hsuffix : (suffix u.name).map Char.toLower = (suffix v.name).map Char.toLower := congrArg (·.2.1) hbase.2
  have hlt : (normalizeCopySuffix (stem v.name)).count '(' < (stem v.name).count '(' := by
    rcases Regex.sub_nil_or copySuffixRe (fun _ _ => copySuffix_bracket) (stem v.name) with he | hlt
    · exact absurd he (isCopy_iff.1 hcopy)
    · exact hlt
  have hv' := brackets v hv
  have hu' := brackets u hu
  rw [hsuffix, ← hstem, hnormal] at hu'
  omega

/-! ## What is selected -/

section selection
variable {p : PartNames} {n : Nat} {videos : List Video}

theorem PartSet.exists_number (h : PartSet p n videos) {v : Video} (hv : v ∈ videos) :
    ∃ k, 1 ≤ k ∧ k ≤ n ∧ v.name = p.name k := by
  have hmem : v.name ∈ (List.range' 1 n).map p.name := h.names.subset (List.mem_map_of_mem hv)
  obtain ⟨k, hk, hname⟩ := List.mem_map.1 hmem
  rw [List.mem_range'_1] at hk
  exact ⟨k, hk.1, by omega, hname.symm⟩

theorem PartSet.exists_video (h : PartSet p n videos) {k : Nat} (hk : 1 ≤ k) (hn : k ≤ n) :
    ∃ v ∈ videos, v.name = p.name k := by
  have hmem : p.name k ∈ videos.map (·.name) :=
    h.names.symm.subset (List.mem_map_of_mem (List.mem_range'_1.2 ⟨hk, by omega⟩))
  exact List.mem_map.1 hmem

theorem PartSet.length (h : PartSet p n videos) : videos.length = n := by
  have := h.names.length_eq
  simpa using this

theorem PartSet.withoutDigits (h : PartSet p n videos) {v : Video} (hv : v ∈ videos) :
    withoutDigits v.name = (p.before ++ p.after).filter fun c => !isDecimal c := by
  obtain ⟨k, hk, hn, hname⟩ := h.exists_number hv
  have hnumber : (p.number k).filter (fun c => !isDecimal c) = [] :=
    List.filter_eq_nil_iff.2 fun c hc => by simp [h.decimal k hk hn c hc]
  simp [Parts.withoutDigits, hname, PartNames.name, hnumber]

/-- Numbers that are written alike are the same number. -/
theorem PartSet.name_inj (h : PartSet p n videos) {j k : Nat} (hj : 1 ≤ j) (hjn : j ≤ n) (hk : 1 ≤ k) (hkn : k ≤ n)
    (hname : p.name j = p.name k) : j = k := by
  have hlist := congrArg String.toList hname
  simp only [PartNames.name, String.toList_ofList, List.append_cancel_left_eq, List.append_cancel_right_eq] at hlist
  rw [← h.reads j hj hjn, ← h.reads k hk hkn, hlist]

theorem PartSet.ne_nil (h : PartSet p n videos) : videos ≠ [] := by
  rintro rfl
  have hlen := h.length
  have htwo := h.several
  rw [List.length_nil] at hlen
  omega

theorem PartSet.multiPart (h : PartSet p n videos) : multiPartVideoCheck videos = true := by
  have htwo : minMultiPartVideos ≤ videos.length := h.length ▸ h.several
  have hsame : allSame (videos.map fun v => Parts.withoutDigits v.name) = true := by
    refine allSame_of (t := (p.before ++ p.after).filter fun c => !isDecimal c) ?_ fun hnil =>
      h.ne_nil (List.map_eq_nil_iff.1 hnil)
    intro u hu
    obtain ⟨v, hv, rfl⟩ := List.mem_map.1 hu
    exact h.withoutDigits hv
  rw [multiPartVideoCheck, hsame, decide_eq_true htwo]
  rfl

/-- Either call files the videos in the order of their names. -/
theorem selection_eq (fold : Char → List Char) (avidOf : String → Avid) {avid : Avid} {call : ArchiveCall}
    (h : PartSet p n call.videos) (havid : avid ≠ "") (hread : ∀ v ∈ call.videos, avidOf v.name = avid)
    (hcall : CallFor avid call) :
    call.selection (pipeline fold avidOf) = some ⟨avid, byName call.videos⟩ := by
  cases call with
  | looseGroup avid' videos dst priority =>
    cases hcall
    rfl
  | folder dir videos dst priority expected =>
    simp only [ArchiveCall.videos] at h hread ⊢
    have hlen := h.length
    have htwo := h.several
    have hne : videos ≠ [] := h.ne_nil
    have hkept : dropDuplicateCopies videos = videos := dropDuplicateCopies_eq fun v hv => h.withoutDigits hv
    have hdedup : (videos.map fun v => avidOf v.name).dedup = [avid] := by
      refine dedup_const (fun a ha => ?_) fun hnil => hne (List.map_eq_nil_iff.1 hnil)
      obtain ⟨v, hv, rfl⟩ := List.mem_map.1 ha
      exact hread v hv
    have hexpected : Archive.reconcileAvid (pipeline fold avidOf) dir.name avid expected = .ok avid := by
      simp only [Archive.reconcileAvid, havid, if_false]
      rcases hcall with rfl | rfl
      · simp
      · simp
    have hident : Archive.identifyAvid (pipeline fold avidOf) dir.name videos expected = .ok avid := by
      unfold Archive.identifyAvid
      rw [show (videos.map fun v => (pipeline fold avidOf).getAvid v.name).dedup = [avid] from hdedup]
      exact hexpected
    simp only [ArchiveCall.selection, Archive.select, if_neg hne]
    rw [show (pipeline fold avidOf).dropCopies videos = videos from hkept, hident]
    dsimp only
    rw [if_neg (by omega), show (pipeline fold avidOf).arrange videos avid = some (byName videos) from if_pos h.multiPart]
    rfl

/-! ## What the names sort to -/

theorem append_lt_iff (s : List Char) {t u : List Char} : s ++ t < s ++ u ↔ t < u := by
  induction s with
  | nil => exact Iff.rfl
  | cons c cs ih => rw [List.cons_append, List.cons_append, List.cons_lt_cons_self, ih]

theorem PartNames.name_lt (p : PartNames) (j k : Nat) :
    p.name j < p.name k ↔ p.number j ++ p.after < p.number k ++ p.after := by
  rw [String.lt_iff_toList_lt, PartNames.name, PartNames.name, String.toList_ofList, String.toList_ofList, append_lt_iff]

theorem Ascends.name_lt (h : Ascends p n) {j k : Nat} (hj : 1 ≤ j) (hjk : j < k) (hk : k ≤ n) : p.name j < p.name k := by
  induction k with
  | zero => omega
  | succ k ih =>
    have hlast : p.name k < p.name (k + 1) ∨ k = 0 := by
      rcases Nat.eq_zero_or_pos k with h0 | hpos
      · exact .inr h0
      · exact .inl ((p.name_lt k (k + 1)).2 (h k hpos (by omega)))
    rcases Nat.lt_succ_iff_lt_or_eq.1 hjk with hlt | rfl
    · rcases hlast with hlast | h0
      · exact (ih hlt (by omega)).trans hlast
      · omega
    · exact hlast.resolve_right (by omega)

/-- Where the numbers ascend as texts, the names do as they are counted. -/
theorem Ascends.names_eq (h : PartSet p n videos) (ha : Ascends p n) :
    (byName videos).map (·.name) = (List.range' 1 n).map p.name := by
  have hsorted : ((byName videos).map (·.name)).Pairwise (· ≤ ·) :=
    List.pairwise_map.2 (List.pairwise_insertionSort (fun v v' : Video => v.name ≤ v'.name) videos)
  have hcounted : ((List.range' 1 n).map p.name).Pairwise (· ≤ ·) := by
    refine List.pairwise_map.2 (List.pairwise_iff_getElem.2 fun i j hi hj hij => ?_)
    simp only [List.getElem_range', List.length_range'] at hi hj ⊢
    exact (ha.name_lt (by omega) (by omega) (by omega)).le
  have hperm : ((byName videos).map (·.name)).Perm ((List.range' 1 n).map p.name) :=
    ((List.perm_insertionSort _ videos).map _).trans h.names
  exact hperm.eq_of_pairwise (fun a b _ _ hab hba => le_antisymm hab hba) hsorted hcounted

end selection

/-! ## What each part is filed as -/

theorem repr_inj {j k : Nat} (h : Nat.repr j = Nat.repr k) : j = k := by
  have hdigits : Nat.toDigits 10 j = Nat.toDigits 10 k := by
    simpa [Nat.repr] using congrArg String.toList h
  rw [← Nat.ofDigitChars_toDigits (b := 10) (n := j) (by decide) (by decide), hdigits,
    Nat.ofDigitChars_toDigits (by decide) (by decide)]

theorem mem_targets {avid : Avid} {ordered : List Video} {own : BrandDir} {v : Video} {k : Nat} (hk : 1 ≤ k)
    (hseveral : 1 < ordered.length) :
    (v, (⟨own, avid ++ ("-cd" ++ Nat.repr k) ++ String.ofList (suffix v.name)⟩ : LibraryFile)) ∈
        Archive.targets avid ordered own ↔ ordered[k - 1]? = some v := by
  simp only [Archive.targets, List.mem_map, Prod.mk.injEq, LibraryFile.mk.injEq, true_and, Prod.exists,
    List.mem_zipIdx_iff_getElem?]
  constructor
  · rintro ⟨w, i, hget, rfl, hname⟩
    have hi : i + 1 = k := by
      simp only [Archive.targetName, hseveral, decide_true, if_true] at hname
      have hlist := congrArg String.toList hname
      simp only [String.toList_append, List.append_cancel_right_eq, List.append_cancel_left_eq] at hlist
      exact repr_inj (String.toList_inj.1 hlist)
    rw [← hi, Nat.add_sub_cancel]
    exact hget
  · intro hget
    refine ⟨v, k - 1, hget, rfl, ?_⟩
    simp only [Archive.targetName, hseveral, decide_true, if_true]
    rw [Nat.sub_add_cancel hk]

/-- Part `k` is filed as `-cdk`, for every `k` and by either call, exactly when the numbers as they are
written, with what follows them, ascend as texts. -/
theorem parts_in_order_iff (fold : Char → List Char) (avidOf : String → Avid) (avid : Avid) (p : PartNames) (n : Nat)
    (call : ArchiveCall) (h : PartSet p n call.videos) (havid : avid ≠ "")
    (hread : ∀ v ∈ call.videos, avidOf v.name = avid) (hcall : CallFor avid call) :
    FiledInOrder (pipeline fold avidOf) call avid p n ↔ Ascends p n := by
  have hsel := selection_eq fold avidOf h havid hread hcall
  have hlen : (byName call.videos).length = n := by rw [byName, List.length_insertionSort, h.length]
  have hseveral : 1 < (byName call.videos).length := hlen ▸ h.several
  constructor
  · rintro ⟨ordered, hordered, hfiled⟩ k hk hkn
    obtain rfl : byName call.videos = ordered := by
      rw [hsel] at hordered
      cases hordered
      rfl
    have place : ∀ j, 1 ≤ j → j ≤ n → ((byName call.videos).map (·.name))[j - 1]? = some (p.name j) := by
      intro j hj hjn
      obtain ⟨v, hv, hname⟩ := h.exists_video hj hjn
      rw [List.getElem?_map, (mem_targets hj hseveral).1 (hfiled ⟨"", ""⟩ v hv j hj hjn hname), Option.map_some, hname]
    have hsorted : ((byName call.videos).map (·.name)).Pairwise (· ≤ ·) :=
      List.pairwise_map.2 (List.pairwise_insertionSort (fun v v' : Video => v.name ≤ v'.name) call.videos)
    obtain ⟨hi, hki⟩ := List.getElem?_eq_some_iff.1 (place k hk hkn.le)
    obtain ⟨hj, hkj⟩ := List.getElem?_eq_some_iff.1 (place (k + 1) (by omega) hkn)
    have hle : p.name k ≤ p.name (k + 1) := by
      rw [← hki, ← hkj]
      exact List.pairwise_iff_getElem.1 hsorted _ _ hi hj (by omega)
    have hne : p.name k ≠ p.name (k + 1) := fun e => by
      have := h.name_inj hk hkn.le (by omega) hkn e
      omega
    exact (p.name_lt k (k + 1)).1 (lt_of_le_of_ne hle hne)
  · intro ha
    refine ⟨_, hsel, fun own v hv k hk hkn hname => (mem_targets hk hseveral).2 ?_⟩
    obtain ⟨i, hi, hget⟩ := List.getElem_of_mem (mem_byName.2 hv)
    have hnames := ha.names_eq h
    have hik : p.name (1 + i) = v.name := by
      have hmap : ((byName call.videos).map (·.name))[i]? = ((List.range' 1 n).map p.name)[i]? := by rw [hnames]
      rw [List.getElem?_map, List.getElem?_map, List.getElem?_eq_getElem hi, hget,
        List.getElem?_eq_getElem (by simpa using hlen ▸ hi), List.getElem_range', Option.map_some, Option.map_some,
        Option.some.injEq] at hmap
      simpa using hmap.symm
    have hin : 1 + i ≤ n := by omega
    have : 1 + i = k := h.name_inj (by omega) hin hk hkn (hik.trans hname)
    rw [← this, Nat.add_sub_cancel_left, List.getElem?_eq_getElem hi, hget]

namespace TenParts

/-- `ABC-123-1.mp4` to `ABC-123-10.mp4`. -/
def plain : PartNames := ⟨"ABC-123-".toList, ".mp4".toList, Nat.toDigits 10⟩

/-- `ABC-123-01.mp4` to `ABC-123-10.mp4`. -/
def padded : PartNames := ⟨"ABC-123-".toList, ".mp4".toList, fun k => if k < 10 then '0' :: Nat.toDigits 10 k else Nat.toDigits 10 k⟩

def video (p : PartNames) (k : Nat) : Video := ⟨"/inbox/x/" ++ p.name k, p.name k, 1⟩

def call (p : PartNames) : ArchiveCall := .folder ⟨"/inbox/x", "x"⟩ ((List.range' 1 10).map (video p)) "library" false ""

theorem partSet {p : PartNames} (hd : ∀ k ∈ List.range 11, 1 ≤ k → (p.number k).all isDecimal = true)
    (hr : ∀ k < 11, 1 ≤ k → intOf (p.number k) = k) : PartSet p 10 (call p).videos where
  several := by decide
  names := by
    rw [show (call p).videos.map (·.name) = (List.range' 1 10).map p.name by
      simp only [call, ArchiveCall.videos, List.map_map]
      rfl]
  decimal k hk hn := List.all_eq_true.1 (hd k (List.mem_range.2 (by omega)) hk)
  reads k hk hn := hr k (by omega) hk

end TenParts

/-- Padded to one width, ten parts are filed in their order. -/
theorem padded_parts_in_order :
    FiledInOrder (pipeline (fun c => [c.toLower]) fun _ => "ABC-123") (TenParts.call TenParts.padded) "ABC-123"
      TenParts.padded 10 :=
  (parts_in_order_iff _ _ "ABC-123" TenParts.padded 10 (TenParts.call TenParts.padded)
    (TenParts.partSet (by decide) (by decide)) (by decide) (fun _ _ => rfl) (.inl rfl)).2 (by decide)

/-- Without padding the tenth part is sorted behind the first and filed as `-cd2`. -/
theorem plain_parts_out_of_order :
    ¬ ∀ (fold : Char → List Char) (avidOf : String → Avid) (avid : Avid) (p : PartNames) (n : Nat) (call : ArchiveCall),
      PartSet p n call.videos → avid ≠ "" → (∀ v ∈ call.videos, avidOf v.name = avid) → CallFor avid call →
      FiledInOrder (pipeline fold avidOf) call avid p n := by
  intro h
  have hset : PartSet TenParts.plain 10 (TenParts.call TenParts.plain).videos :=
    TenParts.partSet (by decide) (by decide)
  obtain ⟨ordered, hordered, hfiled⟩ := h (fun c => [c.toLower]) (fun _ => "ABC-123") "ABC-123" TenParts.plain 10
    (TenParts.call TenParts.plain) hset (by decide) (fun _ _ => rfl) (.inl rfl)
  rw [selection_eq (fun c => [c.toLower]) (fun _ => "ABC-123") hset (by decide) (fun _ _ => rfl) (.inl rfl)] at hordered
  cases hordered
  have hmem : TenParts.video TenParts.plain 2 ∈ (TenParts.call TenParts.plain).videos :=
    List.mem_map_of_mem (List.mem_range'_1.2 (by decide))
  have hplace := (mem_targets (by decide) (by decide)).1
    (hfiled ⟨"", ""⟩ _ hmem 2 (by decide) (by decide) rfl)
  exact absurd hplace (by decide)

end EmbyxManager.Parts
