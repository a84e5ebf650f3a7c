import Mathlib.Logic.Relation
/-!
# Regular expressions that backtrack

The matcher of `re`: alternatives are tried in the order they are written, a repetition
takes as much as it can, or as little, and gives back what the rest of the pattern needs.
The first way through that succeeds is the match. A text is a list of characters, and a
place in it remembers what has been read, so that a pattern can look behind.

`Reads` says what a pattern may read, whatever is tried first; `run_reads` ties the matcher
to it, and `sub_nil_or` is the rule for a pattern that is cut out of a text.
-/

namespace Atom

inductive Regex where
  | empty
  /-- One character of a class. -/
  | one (p : Char → Bool)
  | seq (r s : Regex)
  | alt (r s : Regex)
  /-- `r*`, or `r*?` when it is not greedy. -/
  | star (greedy : Bool) (r : Regex)
  /-- `(r)`, under a number of its own. -/
  | group (n : Nat) (r : Regex)
  /-- `^`. -/
  | start
  /-- `$`: at the end, or before a line feed that ends the text. -/
  | finish
  /-- `(?<=[...])`. -/
  | behind (p : Char → Bool)
  /-- `(?=r)`. -/
  | ahead (r : Regex)
  /-- `(?!r)`. -/
  | aheadNot (r : Regex)

namespace Regex

/-! ## Patterns -/

/-- One after the other. -/
def all : List Regex → Regex
  | [] => empty
  | [r] => r
  | r :: rs => seq r (all rs)

/-- `r|s|...`. -/
def any : List Regex → Regex
  | [] => one fun _ => false
  | [r] => r
  | r :: rs => alt r (any rs)

/-- `r?`. -/
def opt (r : Regex) : Regex := alt r empty

/-- `r+`. -/
def plus (r : Regex) : Regex := seq r (star true r)

/-- `r{n}`. -/
def times (n : Nat) (r : Regex) : Regex := all (List.replicate n r)

/-- `r{0,n}`. -/
def upTo (r : Regex) : Nat → Regex
  | 0 => empty
  | n + 1 => opt (seq r (upTo r n))

/-- `r{m,n}`. -/
def between (m n : Nat) (r : Regex) : Regex := seq (times m r) (upTo r (n - m))

/-- A text written out, each character standing for what `p` says. -/
def text (p : Char → Char → Bool) (s : List Char) : Regex := all (s.map fun c => one (p c))

/-! ## Matching -/

/-- A place in a text: what has been read, backwards, what is left, and the groups so far. -/
structure At where
  done : List Char := []
  rest : List Char
  groups : List (Nat × List Char) := []

/-- What was read since an earlier place. -/
def At.since (a b : At) : List Char := (b.done.take (b.done.length - a.done.length)).reverse

/-- What a group holds; the last time it was read counts. -/
def At.group (a : At) (n : Nat) : Option (List Char) := a.groups.lookup n

def At.next (a : At) : At :=
  match a.rest with
  | [] => a
  | c :: rest => { a with done := c :: a.done, rest }

/-- At most `n` rounds of a repetition; a round that reads nothing is not taken. -/
def repeated {β : Type} (greedy : Bool) (body : At → (At → Option β) → Option β) : Nat → At → (At → Option β) → Option β
  | 0, a, k => k a
  | n + 1, a, k =>
    let round := fun _ : Unit =>
      body a fun b => if b.rest.length < a.rest.length then repeated greedy body n b k else none
    if greedy then (round ()).orElse fun _ => k a else (k a).orElse round

/-- Match from a place on, and go on with `k` from wherever that leads. -/
def run {β : Type} : Regex → At → (At → Option β) → Option β
  | empty, a, k => k a
  | one p, a, k =>
    match a.rest with
    | [] => none
    | c :: rest => if p c then k { a with done := c :: a.done, rest } else none
  | seq r s, a, k => r.run a fun b => s.run b k
  | alt r s, a, k => (r.run a k).orElse fun _ => s.run a k
  | star greedy r, a, k => repeated greedy (fun a k => r.run a k) a.rest.length a k
  | group n r, a, k => r.run a fun b => k { b with groups := (n, a.since b) :: b.groups }
  | start, a, k => if a.done = [] then k a else none
  | finish, a, k => if a.rest = [] ∨ a.rest = ['\n'] then k a else none
  | behind p, a, k =>
    match a.done with
    | [] => none
    | c :: _ => if p c then k a else none
  | ahead r, a, k => if (run (β := Unit) r a fun _ => some ()).isSome then k a else none
  | aheadNot r, a, k => if (run (β := Unit) r a fun _ => some ()).isSome then none else k a

/-- `re.match`. -/
def matchStart (r : Regex) (s : List Char) : Option At := r.run { rest := s } some

def searchFrom (r : Regex) : Nat → At → Option At
  | 0, _ => none
  | fuel + 1, a =>
    match r.run a some with
    | some b => some b
    | none => if a.rest = [] then none else searchFrom r fuel a.next

/-- `re.search`. -/
def search (r : Regex) (s : List Char) : Option At := r.searchFrom (s.length + 1) { rest := s }

/-! ## Going through a text -/

/-- A part of a text: a character no match holds, or a match. -/
inductive Piece where
  | char (c : Char)
  | found (text : List Char) (groups : List (Nat × List Char))

/-- The matches from left to right with what lies between them. Where a match has just
ended nothing shorter than a character is found. -/
def piecesFrom (r : Regex) : Nat → Bool → At → List Piece
  | 0, _, _ => []
  | fuel + 1, advance, a =>
    match r.run a fun b => if advance ∧ b.rest.length = a.rest.length then none else some b with
    | some b => .found (a.since b) b.groups :: piecesFrom r fuel (b.rest.length = a.rest.length) { b with groups := [] }
    | none =>
      match a.rest with
      | [] => []
      | c :: _ => .char c :: piecesFrom r fuel false a.next

def pieces (r : Regex) (s : List Char) : List Piece := piecesFrom r (2 * s.length + 2) false { rest := s }

/-- `re.sub` with what stands in the place of a match. -/
def sub (r : Regex) (by_ : List Char) (s : List Char) : List Char :=
  (r.pieces s).flatMap fun
    | .char c => [c]
    | .found .. => by_

/-- The texts `re.finditer` finds. -/
def findAll (r : Regex) (s : List Char) : List (List Char) :=
  (r.pieces s).filterMap fun
    | .char _ => none
    | .found text _ => some text

/-! ## What a match has read -/

/-- The pattern leads from one place to another; what it looks ahead at is not followed. -/
def Reads : Regex → At → At → Prop
  | empty, a, b => b = a
  | one p, a, b => ∃ c rest, a.rest = c :: rest ∧ p c = true ∧ b = { a with done := c :: a.done, rest }
  | seq r s, a, b => ∃ m, r.Reads a m ∧ s.Reads m b
  | alt r s, a, b => r.Reads a b ∨ s.Reads a b
  | star _ r, a, b => Relation.ReflTransGen r.Reads a b
  | group n r, a, b => ∃ m, r.Reads a m ∧ b = { m with groups := (n, a.since m) :: m.groups }
  | start, a, b => a.done = [] ∧ b = a
  | finish, a, b => (a.rest = [] ∨ a.rest = ['\n']) ∧ b = a
  | behind p, a, b => (∃ c cs, a.done = c :: cs ∧ p c = true) ∧ b = a
  | ahead _, a, b => b = a
  | aheadNot _, a, b => b = a

section reads
variable {β : Type} {x : β}

theorem repeated_reads {R : At → At → Prop} {body : At → (At → Option β) → Option β}
    (hbody : ∀ a k, body a k = some x → ∃ b, R a b ∧ k b = some x) {greedy : Bool} {n : Nat} {a : At}
    {k : At → Option β} (h : repeated greedy body n a k = some x) : ∃ b, Relation.ReflTransGen R a b ∧ k b = some x := by
  induction n generalizing a with
  | zero => exact ⟨a, .refl, h⟩
  | succ n ih =>
    have round : (body a fun b => if b.rest.length < a.rest.length then repeated greedy body n b k else none) = some x →
        ∃ b, Relation.ReflTransGen R a b ∧ k b = some x := by
      intro h
      obtain ⟨b, hb, h⟩ := hbody a _ h
      split at h
      · obtain ⟨c, hc, hk⟩ := ih h
        exact ⟨c, .head hb hc, hk⟩
      · cases h
    cases greedy with
    | true =>
      simp only [repeated, if_true, Option.orElse_eq_or, Option.or_eq_some_iff] at h
      rcases h with h | ⟨-, h⟩
      · exact round h
      · exact ⟨a, .refl, h⟩
    | false =>
      simp only [repeated, Bool.false_eq_true, if_false, Option.orElse_eq_or, Option.or_eq_some_iff] at h
      rcases h with h | ⟨-, h⟩
      · exact ⟨a, .refl, h⟩
      · exact round h

/-- What the matcher goes on from is what the pattern reads. -/
theorem run_reads {r : Regex} {a : At} {k : At → Option β} (h : r.run a k = some x) :
    ∃ b, r.Reads a b ∧ k b = some x := by
  induction r generalizing a k with
  | empty => exact ⟨a, rfl, h⟩
  | one p =>
    simp only [run] at h
    split at h
    · cases h
    · rename_i c rest hrest
      split at h
      · exact ⟨_, ⟨c, rest, hrest, by assumption, rfl⟩, h⟩
      · cases h
  | seq r s ihr ihs =>
    obtain ⟨m, hm, h⟩ := ihr h
    obtain ⟨b, hb, h⟩ := ihs h
    exact ⟨b, ⟨m, hm, hb⟩, h⟩
  | alt r s ihr ihs =>
    simp only [run, Option.orElse_eq_or, Option.or_eq_some_iff] at h
    rcases h with h | ⟨-, h⟩
    · obtain ⟨b, hb, h⟩ := ihr h
      exact ⟨b, .inl hb, h⟩
    · obtain ⟨b, hb, h⟩ := ihs h
      exact ⟨b, .inr hb, h⟩
  -- a star is read round by round, which is an induction of its own
  | star greedy r ih => exact repeated_reads (fun a k h => ih h) h
  | group n r ih =>
    obtain ⟨m, hm, h⟩ := ih h
    exact ⟨_, ⟨m, hm, rfl⟩, h⟩
  | start =>
    simp only [run] at h
    split at h
    · exact ⟨a, ⟨by assumption, rfl⟩, h⟩
    · cases h
  | finish =>
    simp only [run] at h
    split at h
    · exact ⟨a, ⟨by assumption, rfl⟩, h⟩
    · cases h
  | behind p =>
    simp only [run] at h
    split at h
    · cases h
    · rename_i c cs hdone
      split at h
      · exact ⟨a, ⟨⟨c, cs, hdone, by assumption⟩, rfl⟩, h⟩
      · cases h
  | ahead r =>
    simp only [run] at h
    split at h
    · exact ⟨a, rfl, h⟩
    · cases h
  | aheadNot r =>
    simp only [run] at h
    split at h
    · cases h
    · exact ⟨a, rfl, h⟩

end reads

/-- From one place to a later one, over this text. -/
def Over (t : List Char) (a b : At) : Prop := a.rest = t ++ b.rest ∧ b.done = t.reverse ++ a.done

theorem Over.trans {t u : List Char} {a b c : At} (h : Over t a b) (h' : Over u b c) : Over (t ++ u) a c :=
  ⟨by rw [h.1, h'.1, List.append_assoc], by rw [h'.2, h.2, List.reverse_append, List.append_assoc]⟩

theorem Over.since {t : List Char} {a b : At} (h : Over t a b) : a.since b = t := by
  simp [At.since, h.2]

/-- A pattern reads a text off the front of what is left. -/
theorem Reads.over {r : Regex} {a b : At} (h : r.Reads a b) : ∃ t, Over t a b := by
  induction r generalizing a b with
  | empty | ahead _ | aheadNot _ => exact ⟨[], by cases h; exact ⟨rfl, rfl⟩⟩
  | one p =>
    obtain ⟨c, rest, hrest, -, rfl⟩ := h
    exact ⟨[c], hrest, rfl⟩
  | seq r s ihr ihs =>
    obtain ⟨m, hm, hb⟩ := h
    obtain ⟨t, ht⟩ := ihr hm
    obtain ⟨u, hu⟩ := ihs hb
    exact ⟨t ++ u, ht.trans hu⟩
  | alt r s ihr ihs => exact h.elim ihr ihs
  | star _ r ih =>
    have hstar : Relation.ReflTransGen r.Reads a b := h
    clear h
    induction hstar with
    | refl => exact ⟨[], rfl, rfl⟩
    | tail _ hstep ih' =>
      obtain ⟨t, ht⟩ := ih'
      obtain ⟨u, hu⟩ := ih hstep
      exact ⟨t ++ u, ht.trans hu⟩
  | group n r ih =>
    obtain ⟨m, hm, rfl⟩ := h
    obtain ⟨t, ht⟩ := ih hm
    exact ⟨t, ht.1, ht.2⟩
  | start | finish | behind _ => exact ⟨[], by cases h.2; exact ⟨rfl, rfl⟩⟩

/-- The text of a piece. -/
def Piece.text : Piece → List Char
  | .char c => [c]
  | .found text _ => text

theorem piecesFrom_text (r : Regex) (fuel : Nat) (advance : Bool) (a : At)
    (hfuel : 2 * a.rest.length + (if advance then 1 else 2) ≤ fuel) (hgroups : a.groups = []) :
    (piecesFrom r fuel advance a).flatMap Piece.text = a.rest ∧
      ∀ t groups, .found t groups ∈ piecesFrom r fuel advance a →
        ∃ b c, b.groups = [] ∧ r.Reads b c ∧ t = b.since c ∧ groups = c.groups := by
  induction fuel generalizing advance a with
  | zero => split at hfuel <;> omega
  | succ fuel ih =>
    unfold piecesFrom
    split
    · rename_i b hrun
      obtain ⟨c, hreads, hc⟩ := run_reads hrun
      obtain ⟨t, ht⟩ := hreads.over
      -- an empty match is not taken twice in one place, so two steps use up a character
      have hadv : ¬(advance = true ∧ c.rest.length = a.rest.length) := fun h => by rw [if_pos h] at hc; cases hc
      rw [if_neg hadv, Option.some.injEq] at hc
      subst hc
      have hlen : a.rest.length = t.length + c.rest.length := by rw [ht.1, List.length_append]
      have hnext : 2 * ({ c with groups := [] } : At).rest.length +
          (if decide (c.rest.length = a.rest.length) = true then 1 else 2) ≤ fuel := by
        by_cases he : c.rest.length = a.rest.length
        · cases advance with
          | true => exact absurd ⟨rfl, he⟩ hadv
          | false =>
            simp only [he, decide_true, if_true, Bool.false_eq_true, if_false] at hfuel ⊢
            omega
        · simp only [he, decide_false, Bool.false_eq_true, if_false]
          split at hfuel <;> omega
      obtain ⟨htext, hfound⟩ := ih _ _ hnext rfl
      refine ⟨?_, ?_⟩
      · rw [List.flatMap_cons, htext, ht.1, Piece.text, ht.since]
      · intro u groups hu
        rcases List.mem_cons.1 hu with he | hu
        · cases he
          exact ⟨a, c, hgroups, hreads, rfl, rfl⟩
        · exact hfound u groups hu
    · split
      · rename_i hrest
        exact ⟨hrest.symm, fun _ _ h => by cases h⟩
      · rename_i c rest hrest
        -- nothing is found here: one character is passed over
        have hnext : 2 * a.next.rest.length + (if false = true then 1 else 2) ≤ fuel := by
          simp only [At.next, hrest, List.length_cons, Bool.false_eq_true, if_false] at hfuel ⊢
          split at hfuel <;> omega
        obtain ⟨htext, hfound⟩ := ih _ _ hnext (by simp only [At.next, hrest, hgroups])
        refine ⟨?_, ?_⟩
        · rw [List.flatMap_cons, htext, Piece.text, hrest]
          simp [At.next, hrest]
        · intro u groups hu
          rcases List.mem_cons.1 hu with he | hu
          · cases he
          · exact hfound u groups hu

/-- What is left of a piece when matches are cut out. -/
def Piece.kept : Piece → List Char
  | .char c => [c]
  | .found .. => []

theorem kept_or {c : Char} {ps : List Piece} (h : ∀ t groups, .found t groups ∈ ps → c ∈ t) :
    ps.flatMap Piece.kept = ps.flatMap Piece.text ∨ (ps.flatMap Piece.kept).count c < (ps.flatMap Piece.text).count c := by
  induction ps with
  | nil => exact .inl rfl
  | cons piece rest ih =>
    have hrest := ih fun t groups ht => h t groups (List.mem_cons_of_mem _ ht)
    simp only [List.flatMap_cons, List.count_append]
    cases piece with
    | char x =>
      rcases hrest with he | hlt
      · exact .inl (by rw [he]; rfl)
      · exact .inr (Nat.add_lt_add_left hlt _)
    | found t groups =>
      right
      have ht : 0 < t.count c := List.count_pos_iff.2 (h t groups List.mem_cons_self)
      have hle : (rest.flatMap Piece.kept).count c ≤ (rest.flatMap Piece.text).count c := by
        rcases hrest with he | hlt
        · exact Nat.le_of_eq (by rw [he])
        · exact Nat.le_of_lt hlt
      simp only [Piece.kept, Piece.text, List.count_nil]
      omega

/-- Where every match holds a certain character, cutting the matches out of a text leaves it as it
is or takes that character from it. -/
theorem sub_nil_or (r : Regex) {c : Char} (hr : ∀ a b, r.Reads a b → c ∈ a.since b) (s : List Char) :
    r.sub [] s = s ∨ (r.sub [] s).count c < s.count c := by
  obtain ⟨htext, hfound⟩ := piecesFrom_text r (2 * s.length + 2) false { rest := s } (by simp) rfl
  have hsub : r.sub [] s = (r.pieces s).flatMap Piece.kept := by
    unfold sub
    refine congrArg (fun f => List.flatMap f _) (funext fun piece => ?_)
    cases piece <;> rfl
  have h := @kept_or c (r.pieces s) fun t groups ht => by
    obtain ⟨a, b, -, hreads, rfl, -⟩ := hfound t groups ht
    exact hr a b hreads
  rw [← hsub, show (r.pieces s).flatMap Piece.text = s from htext] at h
  exact h

end Regex

end Atom
