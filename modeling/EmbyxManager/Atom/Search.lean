import Mathlib.Data.List.Flatten
import Mathlib.Data.List.Forall2
import EmbyxManager.Atom.Regex
/-!
# What a pattern finds

`run_reads` says what a match can have read. Here is the other direction for the patterns
that are written without looking ahead: a text that can be read is matched, and where there
is one way through, the place it ends is known. A search finds the first place that matches.
-/

namespace Atom.Regex

/-! ## Ways through -/

section run
variable {β : Type} {k : At → Option β} {p : Char → Bool} {done rest : List Char} {groups : List (Nat × List Char)}

theorem run_all_cons {r : Regex} {rs : List Regex} {a : At} : (all (r :: rs)).run a k = r.run a fun b => (all rs).run b k := by
  cases rs with
  | nil => rfl
  | cons s rs => rfl

theorem run_one_cons {c : Char} (hc : p c = true) :
    (one p).run ⟨done, c :: rest, groups⟩ k = k ⟨c :: done, rest, groups⟩ := by
  simp only [run, hc, if_true]

theorem repeated_one_cons {greedy : Bool} {n : Nat} {c : Char} (hc : p c = true) :
    repeated greedy (fun a k => (one p).run a k) (n + 1) ⟨done, c :: rest, groups⟩ k =
      if greedy then (repeated greedy (fun a k => (one p).run a k) n ⟨c :: done, rest, groups⟩ k).orElse fun _ =>
        k ⟨done, c :: rest, groups⟩
      else (k ⟨done, c :: rest, groups⟩).orElse fun _ =>
        repeated greedy (fun a k => (one p).run a k) n ⟨c :: done, rest, groups⟩ k := by
  simp only [repeated, run, hc, if_true, List.length_cons, Nat.lt_succ_self]

/-- A text written out is read where it stands. -/
theorem run_text {q : Char → Char → Bool} {s t : List Char} (h : List.Forall₂ (q · · = true) s t) :
    (text q s).run ⟨done, t ++ rest, groups⟩ k = k ⟨t.reverse ++ done, rest, groups⟩ := by
  unfold text
  induction h generalizing done with
  | nil => rfl
  | @cons c x s t hx _ ih =>
    rw [List.map_cons, run_all_cons, List.cons_append, run_one_cons hx, ih, List.reverse_cons, List.append_assoc]
    rfl

/-- A greedy repetition of a class takes all it can, where the rest of the pattern lets it. -/
theorem run_star_one (h : (k ⟨(rest.takeWhile p).reverse ++ done, rest.dropWhile p, groups⟩).isSome = true) :
    (star true (one p)).run ⟨done, rest, groups⟩ k = k ⟨(rest.takeWhile p).reverse ++ done, rest.dropWhile p, groups⟩ := by
  unfold run
  induction rest generalizing done with
  | nil => rfl
  | cons c rest ih =>
    by_cases hc : p c = true
    · have hmore : (((c :: rest).takeWhile p).reverse ++ done) = (rest.takeWhile p).reverse ++ c :: done := by
        rw [List.takeWhile_cons_of_pos hc, List.reverse_cons, List.append_assoc]
        rfl
      have hleft : (c :: rest).dropWhile p = rest.dropWhile p := List.dropWhile_cons_of_pos hc
      rw [hmore, hleft] at h ⊢
      obtain ⟨x, hx⟩ := Option.isSome_iff_exists.1 h
      have hround := (ih h).trans hx
      exact (repeated_one_cons hc).trans (by rw [if_pos rfl, hround, hx]; rfl)
    · rw [List.takeWhile_cons_of_neg hc, List.dropWhile_cons_of_neg hc]
      simp only [repeated, run, hc, if_true, Bool.false_eq_true, if_false, List.length_cons]
      rfl

/-- Where the rest of the pattern goes through behind some characters of a class, it goes through
behind a repetition of that class. -/
theorem run_star_one_isSome {greedy : Bool} {t : List Char} (ht : ∀ c ∈ t, p c = true)
    (h : (k ⟨t.reverse ++ done, rest, groups⟩).isSome = true) :
    ((star greedy (one p)).run ⟨done, t ++ rest, groups⟩ k).isSome = true := by
  unfold run
  induction t generalizing done with
  | nil =>
    have hk : (k ⟨done, rest, groups⟩).isSome = true := h
    change (repeated greedy _ rest.length ⟨done, rest, groups⟩ k).isSome = true
    cases hn : rest.length with
    | zero => exact hk
    | succ n =>
      rw [repeated]
      cases greedy with
      | true => simp only [if_true, Option.orElse_eq_or, Option.isSome_or, hk, Bool.or_true]
      | false => simp only [Bool.false_eq_true, if_false, Option.orElse_eq_or, Option.isSome_or, hk, Bool.true_or]
  | cons c t ih =>
    rw [List.reverse_cons, List.append_assoc] at h
    have hround : (repeated greedy (fun a k => (one p).run a k) (t ++ rest).length ⟨c :: done, t ++ rest, groups⟩ k).isSome = true :=
      ih (fun x hx => ht x (List.mem_cons_of_mem _ hx)) h
    refine (congrArg Option.isSome (repeated_one_cons (ht c List.mem_cons_self))).trans ?_
    cases greedy with
    | true =>
      rw [if_pos rfl, Option.orElse_eq_or, Option.isSome_or]
      exact (Bool.or_eq_true _ _).mpr (.inl hround)
    | false =>
      rw [if_neg Bool.false_ne_true, Option.orElse_eq_or, Option.isSome_or]
      exact (Bool.or_eq_true _ _).mpr (.inr hround)

end run

/-! ## What was read -/

theorem Reads.text {q : Char → Char → Bool} {s : List Char} {a b : At} (h : (Regex.text q s).Reads a b) :
    ∃ t, List.Forall₂ (q · · = true) s t ∧ a.rest = t ++ b.rest := by
  induction s generalizing a with
  | nil =>
    obtain rfl : b = a := h
    exact ⟨[], .nil, rfl⟩
  | cons c s ih =>
    have hseq : (seq (one (q c)) (Regex.text q s)).Reads a b := by
      cases s with
      | nil => exact ⟨b, h, rfl⟩
      | cons d s => exact h
    obtain ⟨m, ⟨x, rest, hrest, hx, rfl⟩, hm⟩ := hseq
    obtain ⟨t, ht, he⟩ := ih hm
    exact ⟨x :: t, .cons hx ht, by rw [hrest, List.cons_append, ← he]⟩

theorem Reads.star_one {greedy : Bool} {p : Char → Bool} {a b : At} (h : (star greedy (one p)).Reads a b) :
    ∃ t, (∀ c ∈ t, p c = true) ∧ Over t a b ∧ b.groups = a.groups := by
  have hstar : Relation.ReflTransGen (one p).Reads a b := h
  clear h
  induction hstar with
  | refl => exact ⟨[], fun _ hc => absurd hc List.not_mem_nil, ⟨rfl, rfl⟩, rfl⟩
  | tail _ hstep ih =>
    obtain ⟨t, ht, hover, hgroups⟩ := ih
    obtain ⟨c, rest, hrest, hc, rfl⟩ := hstep
    refine ⟨t ++ [c], fun x hx => ?_, hover.trans ⟨hrest, rfl⟩, hgroups⟩
    rcases List.mem_append.1 hx with hx | hx
    · exact ht x hx
    · rw [List.mem_singleton.1 hx]
      exact hc

theorem Reads.plus_one {p : Char → Bool} {a b : At} (h : (plus (one p)).Reads a b) :
    ∃ t, t ≠ [] ∧ (∀ c ∈ t, p c = true) ∧ Over t a b ∧ b.groups = a.groups := by
  obtain ⟨m, ⟨c, rest, hrest, hc, rfl⟩, hmore⟩ := h
  obtain ⟨t, ht, hover, hgroups⟩ := hmore.star_one
  have hone : Over [c] a { a with done := c :: a.done, rest } := ⟨hrest, rfl⟩
  refine ⟨[c] ++ t, List.cons_ne_nil _ _, fun x hx => ?_, hone.trans hover, hgroups⟩
  rcases List.mem_append.1 hx with hx | hx
  · rw [List.mem_singleton.1 hx]
    exact hc
  · exact ht x hx

/-- A group holds a part of what was read. -/
theorem Reads.groups {r : Regex} {a b : At} (h : r.Reads a b) :
    ∃ t, Over t a b ∧ ∀ g ∈ b.groups, g ∈ a.groups ∨ g.2.Sublist t := by
  induction r generalizing a b with
  | empty | ahead _ | aheadNot _ =>
    obtain rfl : b = a := h
    exact ⟨[], ⟨rfl, rfl⟩, fun g hg => .inl hg⟩
  | one p =>
    obtain ⟨c, rest, hrest, -, rfl⟩ := h
    exact ⟨[c], ⟨hrest, rfl⟩, fun g hg => .inl hg⟩
  | seq r s ihr ihs =>
    obtain ⟨m, hm, hb⟩ := h
    obtain ⟨t, ht, hgt⟩ := ihr hm
    obtain ⟨u, hu, hgu⟩ := ihs hb
    refine ⟨t ++ u, ht.trans hu, fun g hg => ?_⟩
    rcases hgu g hg with hg | hg
    · exact (hgt g hg).imp_right fun hsub => hsub.trans (List.sublist_append_left t u)
    · exact .inr (hg.trans (List.sublist_append_right t u))
  | alt r s ihr ihs => exact h.elim ihr ihs
  | star _ r ih =>
    have hstar : Relation.ReflTransGen r.Reads a b := h
    clear h
    induction hstar with
    | refl => exact ⟨[], ⟨rfl, rfl⟩, fun g hg => .inl hg⟩
    | tail _ hstep ih' =>
      -- the groups of earlier rounds lie in what those rounds have read
      obtain ⟨t, ht, hgt⟩ := ih'
      obtain ⟨u, hu, hgu⟩ := ih hstep
      refine ⟨t ++ u, ht.trans hu, fun g hg => ?_⟩
      rcases hgu g hg with hg | hg
      · exact (hgt g hg).imp_right fun hsub => hsub.trans (List.sublist_append_left t u)
      · exact .inr (hg.trans (List.sublist_append_right t u))
  | group n r ih =>
    obtain ⟨m, hm, rfl⟩ := h
    obtain ⟨t, ht, hgt⟩ := ih hm
    refine ⟨t, ⟨ht.1, ht.2⟩, fun g hg => ?_⟩
    rcases List.mem_cons.1 hg with rfl | hg
    · exact .inr (by rw [ht.since])
    · exact hgt g hg
  | start | finish | behind _ =>
    obtain rfl : b = a := h.2
    exact ⟨[], ⟨rfl, rfl⟩, fun g hg => .inl hg⟩

/-! ## Something else in the place of what is found -/

section pieces
variable {r : Regex} {s t : List Char} {groups : List (Nat × List Char)}

theorem pieces_text : (r.pieces s).flatMap Piece.text = s :=
  (piecesFrom_text r (2 * s.length + 2) false { rest := s } (by simp) rfl).1

theorem reads_of_found (h : .found t groups ∈ r.pieces s) : ∃ a b, r.Reads a b ∧ t = a.since b := by
  obtain ⟨a, b, -, hreads, ht, -⟩ := (piecesFrom_text r (2 * s.length + 2) false { rest := s } (by simp) rfl).2 t groups h
  exact ⟨a, b, hreads, ht⟩

theorem groups_of_found (h : .found t groups ∈ r.pieces s) : ∀ g ∈ groups, g.2.Sublist t := by
  obtain ⟨a, b, hnone, hreads, rfl, rfl⟩ :=
    (piecesFrom_text r (2 * s.length + 2) false { rest := s } (by simp) rfl).2 t groups h
  obtain ⟨u, hu, hgu⟩ := hreads.groups
  intro g hg
  rw [hu.since]
  refine (hgu g hg).resolve_left fun hg => ?_
  rw [hnone] at hg
  exact List.not_mem_nil hg

/-- What matches are cut out of is a part of the text. -/
theorem sub_nil_sublist (r : Regex) (s : List Char) : (r.sub [] s).Sublist s := by
  refine (List.Sublist.flatMap_right (g := Piece.text) _ fun piece _ => ?_).trans (by rw [pieces_text])
  cases piece with
  | char c => exact .refl _
  | found t groups => exact List.nil_sublist _

end pieces

/-! ## Searching -/

theorem searchFrom_iff {r : Regex} {fuel : Nat} {a b : At} (hfuel : a.rest.length < fuel) :
    r.searchFrom fuel a = some b ↔ ∃ t rest, a.rest = t ++ rest ∧
      r.run ⟨t.reverse ++ a.done, rest, a.groups⟩ some = some b ∧
      ∀ u rest', a.rest = u ++ rest' → u.length < t.length → r.run ⟨u.reverse ++ a.done, rest', a.groups⟩ some = none := by
  induction fuel generalizing a with
  | zero => exact absurd hfuel (Nat.not_lt_zero _)
  | succ fuel ih =>
    obtain ⟨done, rest, groups⟩ := a
    rw [searchFrom]
    cases hrun : r.run ⟨done, rest, groups⟩ some with
    | some b' =>
      constructor
      · intro h
        obtain rfl := Option.some.inj h
        exact ⟨[], rest, rfl, hrun, fun u _ _ hu => absurd hu (Nat.not_lt_zero _)⟩
      · rintro ⟨t, rest', hrest, hb, hfirst⟩
        cases t with
        | nil =>
          obtain rfl : rest = rest' := hrest
          exact hrun.symm.trans hb
        | cons c t =>
          have hnone := hfirst [] rest rfl (Nat.succ_pos _)
          exact absurd (hrun.symm.trans hnone) (by simp)
    | none =>
      cases rest with
      | nil =>
        constructor
        · intro h
          cases h
        · rintro ⟨t, rest', hrest, hb, -⟩
          obtain ⟨rfl, rfl⟩ := List.append_eq_nil_iff.1 hrest.symm
          exact absurd (hrun.symm.trans hb) (by simp)
      | cons c rest =>
        -- nothing matches here: a match further on is one of the rest, moved by a character
        rw [if_neg (List.cons_ne_nil c rest)]
        have hnext := ih (a := At.next ⟨done, c :: rest, groups⟩) (Nat.lt_of_succ_lt_succ hfuel)
        rw [hnext]
        constructor
        · rintro ⟨t, rest', hrest, hb, hfirst⟩
          refine ⟨c :: t, rest', congrArg (c :: ·) hrest, ?_, fun u rest'' hu hlt => ?_⟩
          · rw [List.reverse_cons, List.append_assoc]
            exact hb
          · cases u with
            | nil =>
              obtain rfl : c :: rest = rest'' := hu
              exact hrun
            | cons d u =>
              obtain ⟨rfl, htail⟩ : c = d ∧ rest = u ++ rest'' := List.cons.inj hu
              have := hfirst u rest'' htail (Nat.lt_of_succ_lt_succ hlt)
              rw [List.reverse_cons, List.append_assoc]
              exact this
        · rintro ⟨t, rest', hrest, hb, hfirst⟩
          cases t with
          | nil =>
            obtain rfl : c :: rest = rest' := hrest
            exact absurd (hrun.symm.trans hb) (by simp)
          | cons d t =>
            obtain ⟨rfl, htail⟩ : c = d ∧ rest = t ++ rest' := List.cons.inj hrest
            rw [List.reverse_cons, List.append_assoc] at hb
            refine ⟨t, rest', htail, hb, fun u rest'' hu hlt => ?_⟩
            have := hfirst (c :: u) rest'' (congrArg (c :: ·) hu) (Nat.succ_lt_succ hlt)
            rw [List.reverse_cons, List.append_assoc] at this
            exact this

/-- A search finds the first place that matches. -/
theorem search_iff {r : Regex} {s : List Char} {b : At} : r.search s = some b ↔ ∃ t rest, s = t ++ rest ∧
    r.run ⟨t.reverse, rest, []⟩ some = some b ∧
    ∀ u rest', s = u ++ rest' → u.length < t.length → r.run ⟨u.reverse, rest', []⟩ some = none := by
  have hfuel : ({ rest := s } : At).rest.length < s.length + 1 := Nat.lt_succ_self _
  have h := searchFrom_iff (r := r) (b := b) hfuel
  simp only [List.append_nil] at h
  exact h

end Atom.Regex
