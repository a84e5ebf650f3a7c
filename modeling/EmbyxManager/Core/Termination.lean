import Mathlib.Algebra.GroupWithZero.Nat
import Mathlib.Algebra.Order.BigOperators.Group.List
import EmbyxManager.Atom.Search
import EmbyxManager.Core.Avid
import EmbyxManager.Core.Upper
/-!
# Reading an AVID ends

`get_avid` and `get_id` call each other on texts of their own making. What shrinks is not
the text, which upper case can lengthen, but its upper case: cutting out a domain, putting a
dash for two brackets and going to the folder's name all make it shorter, and whatever was
read off an upper-cased text is upper case already.
-/

namespace EmbyxManager.Core

open Atom Atom.Regex Parts

/-! ## The length of the upper case -/

/-- The length of the upper-cased text. -/
def upperLength (s : List Char) : Nat := (strUpper s).length

theorem strUpper_append (s t : List Char) : strUpper (s ++ t) = strUpper s ++ strUpper t := List.flatMap_append

theorem upperLength_append (s t : List Char) : upperLength (s ++ t) = upperLength s + upperLength t := by
  rw [upperLength, strUpper_append, List.length_append]
  rfl

theorem upperLength_le {s t : List Char} (h : s.Sublist t) : upperLength s ≤ upperLength t :=
  (h.flatMap upperChar).length_le

theorem upperLength_of_upper {s : List Char} (h : strUpper s = s) : upperLength s = s.length := by rw [upperLength, h]

theorem upperLength_char {c : Char} (h : c.toNat < 128) : upperLength [c] = 1 := by
  have hupper := strUpper_ascii (s := [c]) fun d hd => by
    obtain rfl := List.mem_singleton.1 hd
    exact h
  rw [upperLength, hupper]
  rfl

/-- Pieces that are each put in the place of one that is no shorter. -/
theorem upperLength_flatMap {α : Type} {f g : α → List Char} {xs : List α}
    (h : ∀ x ∈ xs, upperLength (f x) ≤ upperLength (g x)) : upperLength (xs.flatMap f) ≤ upperLength (xs.flatMap g) := by
  induction xs with
  | nil => exact Nat.le_refl _
  | cons x xs ih =>
    have hx := h x List.mem_cons_self
    have hxs := ih fun y hy => h y (List.mem_cons_of_mem _ hy)
    rw [List.flatMap_cons, List.flatMap_cons, upperLength_append, upperLength_append]
    exact Nat.add_le_add hx hxs

/-! ## Noise -/

theorem stripSuffixes_sublist (fuel : Nat) (stem : List Char) : (stripSuffixes fuel stem).Sublist stem := by
  induction fuel generalizing stem with
  | zero => exact .refl _
  | succ fuel ih =>
    unfold stripSuffixes
    dsimp only
    split
    · exact .refl _
    · exact (ih _).trans (sub_nil_sublist suffixRe stem)

/-- The suffix loop ends: as many rounds as the text is long leave nothing to strip. -/
theorem stripSuffixes_ends {fuel : Nat} {stem : List Char} (hfuel : stem.length ≤ fuel) :
    suffixRe.sub [] (stripSuffixes fuel stem) = stripSuffixes fuel stem := by
  induction fuel generalizing stem with
  | zero =>
    obtain rfl := List.eq_nil_of_length_eq_zero (Nat.le_zero.1 hfuel)
    exact List.sublist_nil.1 (sub_nil_sublist suffixRe [])
  | succ fuel ih =>
    unfold stripSuffixes
    dsimp only
    by_cases htrimmed : suffixRe.sub [] stem = stem
    · rw [if_pos htrimmed, htrimmed]
    · rw [if_neg htrimmed]
      have hsub := sub_nil_sublist suffixRe stem
      have hlt : (suffixRe.sub [] stem).length < stem.length :=
        Nat.lt_of_le_of_ne hsub.length_le fun he => htrimmed (hsub.eq_of_length he)
      exact ih (Nat.le_of_lt_succ (Nat.lt_of_lt_of_le hlt hfuel))

theorem keepGroup_sublist (r : Regex) (n : Nat) (s : List Char) : (keepGroup r n s).Sublist s := by
  refine (List.Sublist.flatMap_right (g := Piece.text) _ fun piece hpiece => ?_).trans (by rw [pieces_text])
  cases piece with
  | char c => exact .refl _
  | found t groups =>
    change ((groups.lookup n).getD []).Sublist t
    cases hlookup : groups.lookup n with
    | none => exact List.nil_sublist t
    | some u =>
      obtain ⟨before, after, hsplit, -⟩ := List.lookup_eq_some_iff.1 hlookup
      have hmem : (n, u) ∈ groups := by
        rw [hsplit]
        exact List.mem_append_right _ List.mem_cons_self
      exact groups_of_found hpiece (n, u) hmem

/-- A run of separators is longer than the dash that takes its place. -/
theorem upperLength_separators (s : List Char) : upperLength (separatorRunRe.sub ['-'] s) ≤ upperLength s := by
  refine Nat.le_trans (upperLength_flatMap (g := Piece.text) fun piece hpiece => ?_) (by rw [pieces_text])
  cases piece with
  | char c => exact Nat.le_refl _
  | found t groups =>
    obtain ⟨a, b, ⟨m, ⟨c, rest, hrest, -, rfl⟩, hreads⟩, rfl⟩ := reads_of_found hpiece
    obtain ⟨u, hu⟩ := hreads.over
    have hover : Over [c] a { a with done := c :: a.done, rest } := ⟨hrest, rfl⟩
    have hsince : a.since b = c :: u := (hover.trans hu).since
    change upperLength ['-'] ≤ upperLength (a.since b)
    rw [upperLength_char (by decide), hsince]
    exact Nat.le_trans (Nat.succ_pos _) (length_le_strUpper (c :: u))

theorem strip_sublist (s : List Char) : (strip s).Sublist s := by
  have h := (List.dropWhile_sublist isSpace (l := (s.dropWhile isSpace).reverse)).reverse
  rw [List.reverse_reverse] at h
  exact h.trans (List.dropWhile_sublist isSpace)

theorem upperLength_noise (stem : List Char) : upperLength (stripReleaseNoise stem) ≤ upperLength stem := by
  unfold stripReleaseNoise
  dsimp only
  refine Nat.le_trans (upperLength_le (strip_sublist _)) (Nat.le_trans (upperLength_separators _) (upperLength_le ?_))
  exact (stripSuffixes_sublist _ _).trans ((keepGroup_sublist studioRe 1 _).trans
    ((sub_nil_sublist tagRe _).trans (sub_nil_sublist qualityPrefixRe stem)))

theorem stripExtension_sublist (name : String) : (stripExtension name).Sublist name.toList := by
  unfold stripExtension
  dsimp only
  split
  · exact List.take_sublist _ _
  · exact .refl _

/-! ## Paths -/

/-- The parts of a text take the separators between them with them. -/
theorem upperLength_splitOn (path : List Char) :
    ((path.splitOn '/').map fun part => upperLength part + 1).sum = upperLength path + 1 := by
  induction path with
  | nil => rfl
  | cons c path ih =>
    obtain ⟨head, rest, hsplit⟩ := List.exists_cons_of_ne_nil (List.splitOn_ne_nil '/' path)
    rw [hsplit, List.map_cons, List.sum_cons] at ih
    have hcons : upperLength (c :: path) = upperLength [c] + upperLength path := upperLength_append [c] path
    rw [List.splitOn_cons_eq_if_modifyHead]
    split
    · rename_i hc
      have hslash : upperLength [c] = 1 := upperLength_char (by rw [beq_iff_eq.1 hc]; decide)
      rw [hsplit, List.map_cons, List.sum_cons, List.map_cons, List.sum_cons, ih, hcons, hslash]
      change 0 + 1 + (upperLength path + 1) = 1 + upperLength path + 1
      omega
    · have hhead : upperLength (c :: head) = upperLength [c] + upperLength head := upperLength_append [c] head
      rw [hsplit, List.modifyHead_cons, List.map_cons, List.sum_cons, hhead, hcons]
      omega

theorem sum_pathParts (path : List Char) : ((pathParts path).map fun part => upperLength part + 1).sum ≤ upperLength path + 1 := by
  rw [← upperLength_splitOn path]
  exact (List.filter_sublist.map _).sum_le_sum fun _ _ => Nat.zero_le _

theorem upperLength_pathName (path : List Char) : upperLength (pathName path) ≤ upperLength path := by
  have hsum := sum_pathParts path
  unfold pathName
  cases hlast : (pathParts path).getLast? with
  | none => exact Nat.zero_le _
  | some name =>
    rw [← List.dropLast_append_getLast? name hlast, List.map_append, List.sum_append] at hsum
    simp only [List.map_cons, List.map_nil, List.sum_cons, List.sum_nil, Option.getD_some] at hsum ⊢
    omega

/-- The folder of a name is named more briefly than the path. -/
theorem upperLength_parentName {path : List Char} (h : parentName path ≠ []) :
    upperLength (parentName path) < upperLength path := by
  have hsum := sum_pathParts path
  unfold parentName at h ⊢
  cases hparent : (pathParts path).dropLast.getLast? with
  | none =>
    rw [hparent] at h
    exact absurd rfl h
  | some parent =>
    cases hlast : (pathParts path).getLast? with
    | none =>
      rw [List.getLast?_eq_none_iff.1 hlast] at hparent
      cases hparent
    | some name =>
      rw [← List.dropLast_append_getLast? name hlast, ← List.dropLast_append_getLast? parent hparent, List.map_append,
        List.sum_append, List.map_append, List.sum_append] at hsum
      simp only [List.map_cons, List.map_nil, List.sum_cons, List.sum_nil, Option.getD_some] at hsum ⊢
      omega

/-! ## Going back -/

section parser
variable {p : AvidParser} {path : List Char}

/-- What `get_id` reads is no longer than the path in upper case. -/
theorem upperLength_stemOf (hignore : ∀ s, (p.ignore s).Sublist s) : upperLength (p.stemOf path) ≤ upperLength path := by
  have hextension := stripExtension_sublist (String.ofList (pathName path))
  rw [String.toList_ofList] at hextension
  calc upperLength (p.stemOf path)
      ≤ upperLength (stripReleaseNoise (stripExtension (String.ofList (pathName path)))) := upperLength_le (hignore _)
    _ ≤ upperLength (stripExtension (String.ofList (pathName path))) := upperLength_noise _
    _ ≤ upperLength (pathName path) := upperLength_le hextension
    _ ≤ upperLength path := upperLength_pathName path

/-- A text that comes of cutting an upper-cased one down. -/
theorem upperLength_part {s t : List Char} (h : t.Sublist (strUpper s)) : upperLength t = t.length :=
  upperLength_of_upper (strUpper_of_subset fun _ hc => h.subset hc)

theorem bracketsToDash_length (s : List Char) : (bracketsToDash s).length ≤ s.length ∧
    (inText ")(".toList s = true → (bracketsToDash s).length < s.length) := by
  induction s using bracketsToDash.induct with
  | case1 rest ih =>
    rw [bracketsToDash]
    have hle := ih.1
    simp only [List.length_cons]
    omega
  | case2 c rest hno ih =>
    rw [bracketsToDash.eq_2 _ _ hno, List.length_cons, List.length_cons]
    refine ⟨Nat.succ_le_succ ih.1, fun h => Nat.succ_lt_succ (ih.2 ?_)⟩
    unfold inText at h ⊢
    rw [List.tails, List.any_cons, Bool.or_eq_true] at h
    refine h.resolve_left fun hprefix => ?_
    obtain ⟨after, hafter⟩ := List.isPrefixOf_iff_prefix.1 hprefix
    obtain ⟨hc, hrest⟩ := List.cons.inj hafter
    exact hno after hc.symm hrest.symm
  | case3 => exact ⟨Nat.le_refl _, fun h => absurd h (by decide)⟩

theorem mem_bracketsToDash {s : List Char} : ∀ c ∈ bracketsToDash s, c ∈ s ∨ c = '-' := by
  induction s using bracketsToDash.induct with
  | case1 rest ih =>
    intro c hc
    rw [bracketsToDash] at hc
    rcases List.mem_cons.1 hc with rfl | hc
    · exact .inr rfl
    · exact (ih c hc).imp_left fun h => List.mem_cons_of_mem _ (List.mem_cons_of_mem _ h)
  | case2 d rest hno ih =>
    intro c hc
    rw [bracketsToDash.eq_2 _ _ hno] at hc
    rcases List.mem_cons.1 hc with rfl | hc
    · exact .inl List.mem_cons_self
    · exact (ih c hc).imp_left (List.mem_cons_of_mem _)
  | case3 => exact fun c hc => absurd hc List.not_mem_nil

/-- What is put in the place of an upper-cased text with brackets is shorter. -/
theorem upperLength_bracketsToDash {s norm : List Char} (hnorm : norm.Sublist (strUpper s))
    (hbrackets : inText ")(".toList norm = true) : upperLength (bracketsToDash norm) < norm.length := by
  have hupper : strUpper (bracketsToDash norm) = bracketsToDash norm := by
    refine strUpper_of_subset (s := s ++ ['-']) fun c hc => ?_
    rw [strUpper_append, List.mem_append]
    refine (mem_bracketsToDash c hc).imp (fun h => hnorm.subset h) ?_
    rintro rfl
    decide
  rw [upperLength_of_upper hupper]
  exact (bracketsToDash_length norm).2 hbrackets

/-- `enter`, on texts that are shorter in upper case than the path. -/
def onlyShorter (path : List Char) (enter : List Char → Option (List Char)) (t : List Char) : Option (List Char) :=
  if (strUpper t).length < (strUpper path).length then enter t else none

theorem onlyShorter_of_lt {enter : List Char → Option (List Char)} {t : List Char} (h : upperLength t < upperLength path) :
    onlyShorter path enter t = enter t := if_pos h

section shorter
variable {enter : List Char → Option (List Char)} {norm s : List Char}

theorem fallback_shorter (hnorm : norm.Sublist (strUpper s)) (hlen : norm.length ≤ upperLength path) :
    AvidParser.fallback (onlyShorter path enter) path norm = AvidParser.fallback enter path norm := by
  unfold AvidParser.fallback
  cases matchOddNumbering norm with
  | cons c id => rfl
  | nil =>
    have hbrackets : (if inText ")(".toList norm then onlyShorter path enter (bracketsToDash norm) else some []) =
        if inText ")(".toList norm then enter (bracketsToDash norm) else some [] := by
      by_cases hin : inText ")(".toList norm = true
      · rw [if_pos hin, if_pos hin]
        exact onlyShorter_of_lt (Nat.lt_of_lt_of_le (upperLength_bracketsToDash hnorm hin) hlen)
      · rw [if_neg hin, if_neg hin]
    have hparent : (if parentName path ≠ [] then onlyShorter path enter (parentName path) else some []) =
        if parentName path ≠ [] then enter (parentName path) else some [] := by
      by_cases hne : parentName path ≠ []
      · rw [if_pos hne, if_pos hne]
        exact onlyShorter_of_lt (upperLength_parentName hne)
      · rw [if_neg hne, if_neg hne]
    dsimp only
    rw [hbrackets, hparent]

theorem regular_shorter (hnorm : norm.Sublist (strUpper s)) (hlen : norm.length ≤ upperLength path) :
    AvidParser.regular (onlyShorter path enter) path norm = AvidParser.regular enter path norm := by
  unfold AvidParser.regular
  rw [fallback_shorter hnorm hlen]

/-- `get_id` goes back to `get_avid` on texts that are shorter in upper case, and on no others. -/
theorem idOf_shorter (hupper : p.upper = strUpper) (hignore : ∀ s, (p.ignore s).Sublist s) :
    p.idOf (onlyShorter path enter) path = p.idOf enter path := by
  have hlen : (strUpper (p.stemOf path)).length ≤ upperLength path := upperLength_stemOf hignore
  have hdomain : (p.domainVariants (strUpper (p.stemOf path))).1.Sublist (strUpper (p.stemOf path)) ∧
      (p.domainVariants (strUpper (p.stemOf path))).2.Sublist (strUpper (p.stemOf path)) := by
    unfold AvidParser.domainVariants
    split
    · exact ⟨.refl _, .refl _⟩
    · dsimp only
      refine ⟨sub_nil_sublist _ _, ?_⟩
      split
      · exact sub_nil_sublist _ _
      · exact .refl _
  unfold AvidParser.idOf
  rw [hupper]
  dsimp only
  cases matchMarked (strUpper (p.stemOf path)) with
  | some found =>
    cases found with
    | some id => rfl
    | none => exact fallback_shorter (.refl _) hlen
  | none =>
    dsimp only
    by_cases hsame : (p.domainVariants (strUpper (p.stemOf path))).1 = strUpper (p.stemOf path)
    · rw [if_pos hsame, if_pos hsame, regular_shorter (.refl _) hlen]
    · have hlt : (p.domainVariants (strUpper (p.stemOf path))).1.length < (strUpper (p.stemOf path)).length :=
        Nat.lt_of_le_of_ne hdomain.1.length_le fun he => hsame (hdomain.1.eq_of_length he)
      have henter := @onlyShorter_of_lt path enter _ (Nat.lt_of_lt_of_le ((upperLength_part hdomain.1).symm ▸ hlt) hlen)
      rw [if_neg hsame, if_neg hsame, henter,
        regular_shorter hdomain.2 (Nat.le_trans hdomain.2.length_le hlen)]

/-- Where `get_avid` ends on every text, so does `get_id`. -/
theorem idOf_isSome (henter : ∀ t, (enter t).isSome = true) : (p.idOf enter path).isSome = true := by
  have hfallback : ∀ norm, (AvidParser.fallback enter path norm).isSome = true := by
    intro norm
    unfold AvidParser.fallback
    split
    · have hbrackets : (if inText ")(".toList norm then enter (bracketsToDash norm) else some []).isSome = true := by
        split
        · exact henter _
        · rfl
      obtain ⟨avid, havid⟩ := Option.isSome_iff_exists.1 hbrackets
      rw [havid]
      change (if avid ≠ [] then some avid else if parentName path ≠ [] then enter (parentName path) else some []).isSome = true
      split
      · rfl
      · split
        · exact henter _
        · rfl
    · rfl
  have hregular : ∀ norm, (AvidParser.regular enter path norm).isSome = true := by
    intro norm
    unfold AvidParser.regular
    split
    · rfl
    · exact hfallback norm
  unfold AvidParser.idOf
  dsimp only
  split
  · rfl
  · exact hfallback _
  · split
    · exact hregular _
    · obtain ⟨avid, havid⟩ := Option.isSome_iff_exists.1 (henter (p.domainVariants (p.upper (p.stemOf path))).1)
      rw [havid]
      change (if avid ≠ [] then some avid else AvidParser.regular enter path _).isSome = true
      split
      · rfl
      · exact hregular _

end shorter

/-- `get_id` ends where `get_avid` ends on the texts that are shorter in upper case. -/
theorem idOf_ends (hupper : p.upper = strUpper) (hignore : ∀ s, (p.ignore s).Sublist s)
    {enter : List Char → Option (List Char)} (henter : ∀ t, upperLength t < upperLength path → (enter t).isSome = true) :
    (p.idOf enter path).isSome = true := by
  -- what the rest of the texts give does not matter, so it may as well be something
  have hshort : ∀ t, (if upperLength t < upperLength path then enter t else some []).isSome = true := by
    intro t
    split
    · exact henter t (by assumption)
    · rfl
  have htotal := @idOf_isSome p path _ hshort
  have hsame : onlyShorter path (fun t => if upperLength t < upperLength path then enter t else some []) = onlyShorter path enter := by
    funext t
    unfold onlyShorter
    by_cases ht : upperLength t < upperLength path
    · exact (if_pos ht).trans ((if_pos ht).trans (if_pos ht).symm)
    · exact (if_neg ht).trans (if_neg ht).symm
  rwa [← idOf_shorter hupper hignore, hsame, idOf_shorter hupper hignore] at htotal

theorem getAvid_ends (hupper : p.upper = strUpper) (hignore : ∀ s, (p.ignore s).Sublist s) {depth : Nat} {title : List Char}
    (hdepth : upperLength title < depth) : (p.getAvid depth title).isSome = true := by
  induction depth generalizing title with
  | zero => exact absurd hdepth (Nat.not_lt_zero _)
  | succ depth ih =>
    unfold AvidParser.getAvid
    dsimp only
    split
    · rfl
    · rw [Option.isSome_map]
      refine idOf_ends hupper hignore fun t ht => ih (Nat.lt_of_lt_of_le ht ?_)
      exact Nat.le_trans (upperLength_le List.filter_sublist) (Nat.le_of_lt_succ hdepth)

end parser

/-- Reading an AVID ends for every text, with no more calls in each other than the upper-cased text has characters: `get_id`
goes back to `get_avid` only on texts that are shorter in upper case. The suffix loop ends too. -/
theorem avid_ends (p : AvidParser) (hupper : p.upper = strUpper) (hignore : ∀ s, (p.ignore s).Sublist s) :
    (∀ title depth, (strUpper title).length < depth → ∃ id, p.getAvid depth title = some id) ∧
    (∀ path depth, (strUpper path).length ≤ depth → ∃ id, p.getId depth path = some id) ∧
    (∀ path enter, p.idOf (onlyShorter path enter) path = p.idOf enter path) ∧
    ∀ stem rounds, stem.length ≤ rounds → suffixRe.sub [] (stripSuffixes rounds stem) = stripSuffixes rounds stem := by
  refine ⟨fun title depth hdepth => ?_, fun path depth hdepth => ?_, fun path enter => ?_, fun stem rounds hrounds => ?_⟩
  · exact Option.isSome_iff_exists.1 (getAvid_ends hupper hignore hdepth)
  · refine Option.isSome_iff_exists.1 (idOf_ends hupper hignore fun t ht => ?_)
    exact getAvid_ends hupper hignore (Nat.lt_of_lt_of_le ht hdepth)
  · exact idOf_shorter hupper hignore
  · exact stripSuffixes_ends hrounds

/-- A parser with an exception and a pattern to ignore. -/
def sampleParser : AvidParser := ⟨["SP-EX"], (word "sample").sub [], strUpper, Char.isAlphanum⟩

theorem avid_ends_sample :
    (∀ title depth, (strUpper title).length < depth → ∃ id, sampleParser.getAvid depth title = some id) ∧
    (∀ path depth, (strUpper path).length ≤ depth → ∃ id, sampleParser.getId depth path = some id) ∧
    (∀ path enter, sampleParser.idOf (onlyShorter path enter) path = sampleParser.idOf enter path) ∧
    ∀ stem rounds, stem.length ≤ rounds → suffixRe.sub [] (stripSuffixes rounds stem) = stripSuffixes rounds stem :=
  avid_ends sampleParser rfl (sub_nil_sublist (word "sample"))

end EmbyxManager.Core
