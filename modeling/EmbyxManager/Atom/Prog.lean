import Mathlib.Logic.Relation
/-!
# Programs over atomic actions

A program either returns, raises, or asks the world for one atomic action and
goes on with the answer, which may itself be an exception. The program says
nothing about the world: an `Env` says which answers an action may get and what
state the world is in afterwards, so one translation of the code can be run
alone, interleaved with others, or against a ghost state that only remembers
what the program has seen.

`wp` is the rule everything else goes through: the weakest precondition of a
program against an environment, with a guard on every action it asks for.
`wp_runs` and `runs_wp` tie it to the runs.
-/

namespace Atom

/-- A program: `Res op` is what the action `op` answers when it does not raise. -/
inductive Prog {Op : Type} (Res : Op → Type) (E α : Type) where
  | ret (a : α)
  | raise (e : E)
  | act (op : Op) (k : Except E (Res op) → Prog Res E α)

/-- What the world may answer in a state, and the state it is in then. -/
abbrev Env {Op : Type} (Res : Op → Type) (E σ : Type) := σ → (op : Op) → Except E (Res op) → σ → Prop

variable {Op : Type} {Res : Op → Type} {E α β γ σ : Type}

namespace Prog

def bind : Prog Res E α → (α → Prog Res E β) → Prog Res E β
  | ret a, f => f a
  | raise e, _ => raise e
  | act op k, f => act op fun r => (k r).bind f

instance : Monad (Prog Res E) where
  pure := ret
  bind := bind

/-- `try`: an exception becomes a value. -/
def attempt : Prog Res E α → Prog Res E (Except E α)
  | ret a => ret (.ok a)
  | raise e => ret (.error e)
  | act op k => act op fun r => (k r).attempt

/-- Ask for one action; an exception it answers is raised. -/
def call (op : Op) : Prog Res E (Res op) :=
  act op fun
    | .ok a => ret a
    | .error e => raise e

/-- `for x in xs`, with what the loop accumulates. -/
def foldEach : List β → γ → (γ → β → Prog Res E γ) → Prog Res E γ
  | [], acc, _ => ret acc
  | x :: xs, acc, f => (f acc x).bind fun acc => foldEach xs acc f

/-- `for x in xs`. -/
def forEach (xs : List β) (f : β → Prog Res E Unit) : Prog Res E Unit := foldEach xs () fun _ x => f x

/-- What the program has returned, once it has. -/
def result : Prog Res E α → Option α
  | ret a => some a
  | _ => none

theorem result_eq_some {p : Prog Res E α} {a : α} : p.result = some a ↔ p = ret a := by
  cases p <;> simp [result]

/-! ## Weakest preconditions -/

/-- Whatever the world answers, every action the program asks for satisfies `G`
and it ends in `Q` when it returns and in `X` when it raises. -/
def wp (T : Env Res E σ) (G : σ → Op → Prop) :
    Prog Res E α → (α → σ → Prop) → (E → σ → Prop) → σ → Prop
  | ret a, Q, _, s => Q a s
  | raise e, _, X, s => X e s
  | act op k, Q, X, s => G s op ∧ ∀ r s', T s op r s' → (k r).wp T G Q X s'

section wp
variable {T : Env Res E σ} {G : σ → Op → Prop} {Q Q' : α → σ → Prop} {X X' : E → σ → Prop} {s : σ}

@[simp] theorem wp_ret (a : α) : wp T G (ret a) Q X s ↔ Q a s := .rfl

@[simp] theorem wp_pure (a : α) : wp T G (pure a) Q X s ↔ Q a s := .rfl

@[simp] theorem wp_raise (e : E) : wp T G (raise e : Prog Res E α) Q X s ↔ X e s := .rfl

theorem wp_act (op : Op) (k : Except E (Res op) → Prog Res E α) :
    wp T G (act op k) Q X s ↔ G s op ∧ ∀ r s', T s op r s' → wp T G (k r) Q X s' := .rfl

@[simp] theorem wp_call (op : Op) {Q : Res op → σ → Prop} :
    wp T G (call op) Q X s ↔ G s op ∧ (∀ a s', T s op (.ok a) s' → Q a s') ∧ ∀ e s', T s op (.error e) s' → X e s' := by
  constructor
  · rintro ⟨hg, h⟩
    exact ⟨hg, fun a s' ht => h _ _ ht, fun e s' ht => h _ _ ht⟩
  · rintro ⟨hg, ha, he⟩
    refine ⟨hg, fun r s' ht => ?_⟩
    cases r with
    | ok a => exact ha a s' ht
    | error e => exact he e s' ht

@[simp] theorem wp_bind (p : Prog Res E α) (f : α → Prog Res E β) {Q : β → σ → Prop} :
    wp T G (p >>= f) Q X s ↔ wp T G p (fun a s => wp T G (f a) Q X s) X s := by
  change wp T G (p.bind f) Q X s ↔ _
  induction p generalizing s with
  | ret a => exact .rfl
  | raise e => exact .rfl
  | act op k ih =>
    simp only [bind, wp_act]
    exact and_congr .rfl (forall_congr' fun r => forall_congr' fun s' => imp_congr .rfl (ih r))

@[simp] theorem wp_map (g : α → β) (p : Prog Res E α) {Q : β → σ → Prop} :
    wp T G (g <$> p) Q X s ↔ wp T G p (fun a s => Q (g a) s) X s :=
  wp_bind p (fun a => ret (g a))

@[simp] theorem wp_discard (p : Prog Res E α) {Q : Unit → σ → Prop} :
    wp T G (discard p) Q X s ↔ wp T G p (fun _ s => Q () s) X s :=
  wp_bind p fun _ => ret ()

@[simp] theorem wp_attempt (p : Prog Res E α) {Q : Except E α → σ → Prop} :
    wp T G p.attempt Q X s ↔ wp T G p (fun a s => Q (.ok a) s) (fun e s => Q (.error e) s) s := by
  induction p generalizing s with
  | ret a => exact .rfl
  | raise e => exact .rfl
  | act op k ih =>
    simp only [attempt, wp_act]
    exact and_congr .rfl (forall_congr' fun r => forall_congr' fun s' => imp_congr .rfl (ih r))

theorem wp_mono {p : Prog Res E α} (h : wp T G p Q X s) (hQ : ∀ a s, Q a s → Q' a s)
    (hX : ∀ e s, X e s → X' e s) : wp T G p Q' X' s := by
  induction p generalizing s with
  | ret a => exact hQ a s h
  | raise e => exact hX e s h
  | act op k ih => exact ⟨h.1, fun r s' ht => ih r (h.2 r s' ht)⟩

theorem wp_ite {c : Prop} [Decidable c] {p q : Prog Res E α} (hp : c → wp T G p Q X s) (hq : ¬c → wp T G q Q X s) :
    wp T G (if c then p else q) Q X s := by
  by_cases h : c
  · rw [if_pos h]
    exact hp h
  · rw [if_neg h]
    exact hq h

/-- A smaller environment and a weaker guard. -/
theorem wp_env {T' : Env Res E σ} {G' : σ → Op → Prop} {p : Prog Res E α} (h : wp T G p Q X s)
    (hT : ∀ s op r s', T' s op r s' → T s op r s') (hG : ∀ s op, G s op → G' s op) : wp T' G' p Q X s := by
  induction p generalizing s with
  | ret a => exact h
  | raise e => exact h
  | act op k ih => exact ⟨hG _ _ h.1, fun r s' ht => ih r (h.2 r s' (hT _ _ _ _ ht))⟩

/-- A world that is looked at through `π`. -/
theorem wp_through {τ : Type} {U : Env Res E τ} (π : τ → σ) (hT : ∀ w op r w', U w op r w' → T (π w) op r (π w'))
    {p : Prog Res E α} {w : τ} (h : wp T G p Q X (π w)) :
    wp U (fun w => G (π w)) p (fun a w => Q a (π w)) (fun e w => X e (π w)) w := by
  induction p generalizing w with
  | ret a => exact h
  | raise e => exact h
  | act op k ih => exact ⟨h.1, fun r w' ht => ih r (h.2 r (π w') (hT _ _ _ _ ht))⟩

/-- A coarser view of the world that is right until `L` sets in, which it does for good; `J` is what
the world keeps throughout. -/
theorem wp_unless {τ : Type} {U : Env Res E τ} (π : τ → σ) {J L : τ → Prop} (hJ : ∀ w op r w', J w → U w op r w' → J w')
    (hL : ∀ w op r w', J w → L w → U w op r w' → L w') (hT : ∀ w op r w', J w → U w op r w' → L w' ∨ T (π w) op r (π w'))
    {p : Prog Res E α} {w : τ} (hw : J w) (h : L w ∨ wp T G p Q X (π w)) :
    wp U (fun w op => L w ∨ G (π w) op) p (fun a w => J w ∧ (L w ∨ Q a (π w))) (fun e w => J w ∧ (L w ∨ X e (π w))) w := by
  induction p generalizing w with
  | ret a => exact ⟨hw, h⟩
  | raise e => exact ⟨hw, h⟩
  | act op k ih =>
    refine ⟨h.imp_right And.left, fun r w' ht => ih r (hJ w op r w' hw ht) ?_⟩
    rcases h with h | h
    · exact .inl (hL w op r w' hw h ht)
    · exact (hT w op r w' hw ht).imp_right (h.2 r (π w'))

/-- Nothing is asked of the program. -/
theorem wp_trivial (p : Prog Res E α) : wp T (fun _ _ => True) p (fun _ _ => True) (fun _ _ => True) s := by
  induction p generalizing s with
  | ret a => trivial
  | raise e => trivial
  | act op k ih => exact ⟨trivial, fun r s' _ => ih r⟩

theorem wp_and {p : Prog Res E α} (h : wp T G p Q X s) (h' : wp T G p Q' X' s) :
    wp T G p (fun a s => Q a s ∧ Q' a s) (fun e s => X e s ∧ X' e s) s := by
  induction p generalizing s with
  | ret a => exact ⟨h, h'⟩
  | raise e => exact ⟨h, h'⟩
  | act op k ih => exact ⟨h.1, fun r s' ht => ih r (h.2 r s' ht) (h'.2 r s' ht)⟩

/-- What holds for each index holds for all. -/
theorem wp_forall {ι : Type} {p : Prog Res E α} {Q : ι → α → σ → Prop} {Y : ι → E → σ → Prop} (h : wp T G p Q' X s)
    (h' : ∀ i, wp T G p (Q i) (Y i) s) : wp T G p (fun a s => Q' a s ∧ ∀ i, Q i a s) X s := by
  induction p generalizing s with
  | ret a => exact ⟨h, h'⟩
  | raise e => exact h
  | act op k ih => exact ⟨h.1, fun r s' ht => ih r (h.2 r s' ht) fun i => (h' i).2 r s' ht⟩

/-- Two guards at once. -/
theorem wp_guards {G' G'' : σ → Op → Prop} {p : Prog Res E α} (h : wp T G p Q X s) (h' : wp T G' p Q' X' s)
    (hG : ∀ s op, G s op → G' s op → G'' s op) : wp T G'' p Q X s := by
  induction p generalizing s with
  | ret a => exact h
  | raise e => exact h
  | act op k ih => exact ⟨hG _ _ h.1 h'.1, fun r s' ht => ih r (h.2 r s' ht) (h'.2 r s' ht)⟩

/-- What every guarded action keeps also holds at either end. -/
theorem wp_inv {I : σ → Prop} {p : Prog Res E α} (hstep : ∀ s op r s', I s → G s op → T s op r s' → I s')
    (h : wp T G p Q X s) (hI : I s) : wp T G p (fun a s => Q a s ∧ I s) (fun e s => X e s ∧ I s) s := by
  induction p generalizing s with
  | ret a => exact ⟨h, hI⟩
  | raise e => exact ⟨h, hI⟩
  | act op k ih => exact ⟨h.1, fun r s' ht => ih r (h.2 r s' ht) (hstep _ _ _ _ hI h.1 ht)⟩

/-- The loop rule: an invariant over what is left to go through. -/
theorem wp_foldEach {f : γ → β → Prog Res E γ} {Q : γ → σ → Prop} (I : List β → γ → σ → Prop)
    (hf : ∀ x xs acc s, I (x :: xs) acc s → wp T G (f acc x) (I xs) X s) (hQ : ∀ acc s, I [] acc s → Q acc s)
    {xs : List β} {acc : γ} (hI : I xs acc s) : wp T G (foldEach xs acc f) Q X s := by
  induction xs generalizing acc s with
  | nil => exact hQ acc s hI
  | cons x xs ih =>
    change wp T G (f acc x >>= fun acc => foldEach xs acc f) Q X s
    rw [wp_bind]
    exact wp_mono (hf x xs acc s hI) (fun _ _ h => ih h) (fun _ _ h => h)

/-- The loop rule where no round is about `k`. -/
theorem wp_foldEach_none {κ : Type} [DecidableEq κ] {f : γ → β → Prog Res E γ} {key : β → κ} {k : κ} {P : γ → σ → Prop}
    (hP : ∀ acc y s, key y ≠ k → P acc s → wp T G (f acc y) P X s) {xs : List β}
    (hxs : xs.filter (key · = k) = []) {acc : γ} (hs : P acc s) : wp T G (foldEach xs acc f) P X s := by
  refine wp_foldEach (fun ys acc s => ys ⊆ xs ∧ P acc s) ?_ (fun _ _ h => h.2) ⟨fun _ h => h, hs⟩
  rintro y ys acc s ⟨hsub, hPs⟩
  have hy : key y ≠ k := by simpa using List.filter_eq_nil_iff.1 hxs y (hsub (by simp))
  exact wp_mono (hP acc y s hy hPs) (fun _ _ h => ⟨fun z hz => hsub (by simp [hz]), h⟩) fun _ _ h => h

/-- The loop rule where one round is about `k`: what that round does, the others keep. -/
theorem wp_foldEach_one {κ : Type} [DecidableEq κ] {f : γ → β → Prog Res E γ} {key : β → κ} {k : κ} {x : β}
    {P Q : γ → σ → Prop} (hP : ∀ acc y s, key y ≠ k → P acc s → wp T G (f acc y) P X s)
    (hx : ∀ acc s, P acc s → wp T G (f acc x) Q X s)
    (hQ : ∀ acc y s, key y ≠ k → Q acc s → wp T G (f acc y) Q X s) {xs : List β}
    (hxs : xs.filter (key · = k) = [x]) {acc : γ} (hs : P acc s) : wp T G (foldEach xs acc f) Q X s := by
  induction xs generalizing acc s with
  | nil => cases hxs
  | cons y ys ih =>
    change wp T G (f acc y >>= fun acc => foldEach ys acc f) Q X s
    rw [wp_bind]
    by_cases hy : key y = k
    · rw [List.filter_cons_of_pos (by simpa using hy)] at hxs
      obtain ⟨rfl, hys⟩ := List.cons.inj hxs
      exact wp_mono (hx acc s hs) (fun _ _ h => wp_foldEach_none hQ hys h) fun _ _ h => h
    · rw [List.filter_cons_of_neg (by simpa using hy)] at hxs
      exact wp_mono (hP acc y s hy hs) (fun _ _ h => ih hxs h) fun _ _ h => h

@[simp] theorem wp_forEach_nil {f : β → Prog Res E Unit} {Q : Unit → σ → Prop} :
    wp T G (forEach [] f) Q X s ↔ Q () s := .rfl

theorem wp_forEach_cons {f : β → Prog Res E Unit} (x : β) (xs : List β) {Q : Unit → σ → Prop} :
    wp T G (forEach (x :: xs) f) Q X s ↔ wp T G (f x) (fun _ s => wp T G (forEach xs f) Q X s) X s :=
  wp_bind (f x) fun _ => forEach xs f

end wp

/-! ## Programs in the place of actions -/

/-- Every action of the program carried out by a program of its own. -/
def handle {Op' : Type} {Res' : Op' → Type} (h : (op : Op) → Prog Res' E (Res op)) : Prog Res E α → Prog Res' E α
  | ret a => ret a
  | raise e => raise e
  | act op k => (h op).attempt.bind fun r => (k r).handle h

/-- The refinement rule: when what carries an action out does what a coarser environment
says of the action, the program does what it does in that environment. -/
theorem wp_handle {Op' : Type} {Res' : Op' → Type} {T : Env Res E σ} {T' : Env Res' E σ} {G : σ → Op → Prop}
    {G' : σ → Op' → Prop} {h : (op : Op) → Prog Res' E (Res op)} {p : Prog Res E α} {Q : α → σ → Prop} {X : E → σ → Prop}
    {s : σ} (hh : ∀ s op, G s op → wp T' G' (h op) (fun a s' => T s op (.ok a) s') (fun e s' => T s op (.error e) s') s)
    (hp : wp T G p Q X s) : wp T' G' (p.handle h) Q X s := by
  induction p generalizing s with
  | ret a => exact hp
  | raise e => exact hp
  | act op k ih =>
    refine (wp_bind _ _).2 ((wp_attempt _).2 ?_)
    exact wp_mono (hh s op hp.1) (fun a s' ht => ih _ (hp.2 _ _ ht)) fun e s' ht => ih _ (hp.2 _ _ ht)

section handle
variable {Op' : Type} {Res' : Op' → Type} (h : (op : Op) → Prog Res' E (Res op))

theorem bind_assoc {δ : Type} (p : Prog Res E α) (f : α → Prog Res E β) (g : β → Prog Res E δ) :
    (p.bind f).bind g = p.bind fun a => (f a).bind g := by
  induction p with
  | ret a => rfl
  | raise e => rfl
  | act op k ih => exact congrArg (act op) (funext ih)

/-- What is attempted raises nothing. -/
theorem attempt_bind_attempt (p : Prog Res E α) (f : Except E α → Prog Res E β) :
    (p.attempt.bind f).attempt = p.attempt.bind fun r => (f r).attempt := by
  induction p with
  | ret a => rfl
  | raise e => rfl
  | act op k ih => exact congrArg (act op) (funext ih)

@[simp] theorem handle_bind (p : Prog Res E α) (f : α → Prog Res E β) :
    (p >>= f).handle h = p.handle h >>= fun a => (f a).handle h := by
  change (p.bind f).handle h = (p.handle h).bind fun a => (f a).handle h
  induction p with
  | ret a => rfl
  | raise e => rfl
  | act op k ih =>
    simp only [bind, handle, bind_assoc]
    exact congrArg _ (funext ih)

@[simp] theorem handle_attempt (p : Prog Res E α) : p.attempt.handle h = (p.handle h).attempt := by
  induction p with
  | ret a => rfl
  | raise e => rfl
  | act op k ih =>
    simp only [attempt, handle, attempt_bind_attempt]
    exact congrArg _ (funext ih)

@[simp] theorem handle_call (op : Op) : (call op : Prog Res E (Res op)).handle h = h op := by
  have hreturn : ∀ p : Prog Res' E (Res op), (p.attempt.bind fun r => handle h (match r with
      | .ok a => ret a
      | .error e => raise e : Prog Res E (Res op))) = p := by
    intro p
    induction p with
    | ret a => rfl
    | raise e => rfl
    | act op' k ih => exact congrArg (act op') (funext ih)
  exact hreturn (h op)

@[simp] theorem handle_pure (a : α) : (pure a : Prog Res E α).handle h = pure a := rfl

@[simp] theorem handle_raise (e : E) : (raise e : Prog Res E α).handle h = raise e := rfl

theorem handle_discard (p : Prog Res E α) : (discard p).handle h = discard (p.handle h) :=
  handle_bind h p fun _ => pure ()

theorem handle_forEach (xs : List β) (f : β → Prog Res E Unit) :
    (forEach xs f).handle h = forEach xs fun x => (f x).handle h := by
  induction xs with
  | nil => rfl
  | cons x xs ih =>
    change (f x >>= fun _ => forEach xs f).handle h = (f x).handle h >>= fun _ => forEach xs fun x => (f x).handle h
    rw [handle_bind, ih]

end handle

/-! ## What a program keeps -/

/-- The program keeps an invariant, and raises only what `X` says. -/
def Keeps (T : Env Res E σ) (G : σ → Op → Prop) (I : σ → Prop) (X : E → σ → Prop) (p : Prog Res E α) : Prop :=
  ∀ s, I s → p.wp T G (fun _ => I) X s

section Keeps
variable {T : Env Res E σ} {G : σ → Op → Prop} {I : σ → Prop} {X X' : E → σ → Prop}

theorem keeps_pure (a : α) : Keeps T G I X (pure a : Prog Res E α) := fun _ hI => hI

theorem keeps_raise {e : E} (h : ∀ s, I s → X e s) : Keeps T G I X (raise e : Prog Res E α) := h

theorem keeps_call {op : Op} (hG : ∀ s, I s → G s op) (hok : ∀ s a s', I s → T s op (.ok a) s' → I s')
    (herr : ∀ s e s', I s → T s op (.error e) s' → X e s') : Keeps T G I X (call op : Prog Res E (Res op)) :=
  fun s hI => (wp_call op).2 ⟨hG s hI, fun a s' => hok s a s' hI, fun e s' => herr s e s' hI⟩

theorem keeps_bind {p : Prog Res E α} {f : α → Prog Res E β} (hp : Keeps T G I X p) (hf : ∀ a, Keeps T G I X (f a)) :
    Keeps T G I X (p >>= f) := by
  intro s hI
  rw [wp_bind]
  exact wp_mono (hp s hI) (fun a s' hI' => hf a s' hI') fun _ _ h => h

theorem keeps_discard {p : Prog Res E α} (hp : Keeps T G I X p) : Keeps T G I X (discard p) := by
  intro s hI
  rw [wp_discard]
  exact hp s hI

theorem keeps_mono {p : Prog Res E α} (hp : Keeps T G I X p) (h : ∀ e s, X e s → X' e s) : Keeps T G I X' p :=
  fun s hI => wp_mono (hp s hI) (fun _ _ h => h) h

theorem keeps_attempt {p : Prog Res E α} (hp : Keeps T G I X' p) (h : ∀ e s, X' e s → I s) :
    Keeps T G I X p.attempt := by
  intro s hI
  rw [wp_attempt]
  refine wp_mono (hp s hI) (fun _ _ h => h) h

/-- `try` with what is done about either end. -/
theorem keeps_attempt_bind {p : Prog Res E α} {f : Except E α → Prog Res E β} (hp : Keeps T G I X' p)
    (hok : ∀ a, Keeps T G I X (f (.ok a))) (herr : ∀ e s, X' e s → (f (.error e)).wp T G (fun _ => I) X s) :
    Keeps T G I X (p.attempt >>= f) := by
  intro s hI
  rw [wp_bind, wp_attempt]
  exact wp_mono (hp s hI) (fun a s' hI' => hok a s' hI') herr

theorem keeps_foldEach {f : γ → β → Prog Res E γ} {xs : List β} (hf : ∀ x ∈ xs, ∀ acc, Keeps T G I X (f acc x)) (acc : γ) :
    Keeps T G I X (foldEach xs acc f) := by
  intro s hI
  refine wp_foldEach (fun ys _ s => ys ⊆ xs ∧ I s) ?_ (fun _ _ h => h.2) ⟨fun _ h => h, hI⟩
  intro x ys acc s ⟨hs, hI⟩
  exact wp_mono (hf x (hs (by simp)) acc s hI) (fun _ _ h => ⟨fun y hy => hs (by simp [hy]), h⟩) (fun _ _ h => h)

theorem keeps_forEach {f : β → Prog Res E Unit} {xs : List β} (hf : ∀ x ∈ xs, Keeps T G I X (f x)) :
    Keeps T G I X (forEach xs f) :=
  keeps_foldEach (fun x hx _ => hf x hx) ()

end Keeps

/-! ## Programs that ask for some actions only -/

/-- On every path the program asks only for actions in `C`. -/
def Uses (C : Op → Prop) : Prog Res E α → Prop
  | ret _ => True
  | raise _ => True
  | act op k => C op ∧ ∀ r, (k r).Uses C

section Uses
variable {C : Op → Prop}

@[simp] theorem uses_ret (a : α) : Uses C (ret a : Prog Res E α) := trivial

@[simp] theorem uses_pure (a : α) : Uses C (pure a : Prog Res E α) := trivial

@[simp] theorem uses_raise (e : E) : Uses C (raise e : Prog Res E α) := trivial

@[simp] theorem uses_call (op : Op) : Uses C (call op : Prog Res E (Res op)) ↔ C op := by
  constructor
  · exact fun h => h.1
  · intro h
    refine ⟨h, fun r => ?_⟩
    cases r <;> trivial

theorem uses_bind {p : Prog Res E α} {f : α → Prog Res E β} (hp : Uses C p) (hf : ∀ a, Uses C (f a)) :
    Uses C (p >>= f) := by
  change Uses C (p.bind f)
  induction p with
  | ret a => exact hf a
  | raise e => trivial
  | act op k ih => exact ⟨hp.1, fun r => ih r (hp.2 r)⟩

theorem uses_ite {c : Prop} [Decidable c] {p q : Prog Res E α} (hp : Uses C p) (hq : Uses C q) :
    Uses C (if c then p else q) := by
  by_cases h : c
  · rw [if_pos h]
    exact hp
  · rw [if_neg h]
    exact hq

theorem uses_discard {p : Prog Res E α} (hp : Uses C p) : Uses C (discard p) :=
  uses_bind (f := fun _ => ret ()) hp fun _ => trivial

theorem uses_attempt {p : Prog Res E α} (hp : Uses C p) : Uses C p.attempt := by
  induction p with
  | ret a => trivial
  | raise e => trivial
  | act op k ih => exact ⟨hp.1, fun r => ih r (hp.2 r)⟩

theorem uses_foldEach {f : γ → β → Prog Res E γ} {xs : List β} (hf : ∀ acc, ∀ x ∈ xs, Uses C (f acc x)) (acc : γ) :
    Uses C (foldEach xs acc f) := by
  induction xs generalizing acc with
  | nil => trivial
  | cons x xs ih =>
    exact uses_bind (hf acc x (by simp)) fun acc => ih (fun acc y hy => hf acc y (by simp [hy])) acc

theorem uses_forEach {f : β → Prog Res E Unit} {xs : List β} (hf : ∀ x ∈ xs, Uses C (f x)) :
    Uses C (forEach xs f) :=
  uses_foldEach (fun _ => hf) ()

theorem uses_mono {C' : Op → Prop} {p : Prog Res E α} (hp : Uses C p) (h : ∀ op, C op → C' op) : Uses C' p := by
  induction p with
  | ret a => trivial
  | raise e => trivial
  | act op k ih => exact ⟨h _ hp.1, fun r => ih r (hp.2 r)⟩

theorem uses_any (p : Prog Res E α) : Uses (fun _ => True) p := by
  induction p with
  | ret a => trivial
  | raise e => trivial
  | act op k ih => exact ⟨trivial, ih⟩

/-- Every action carried out by a program that asks for actions in `C'` only. -/
theorem uses_handle {Op' : Type} {Res' : Op' → Type} {C' : Op' → Prop} {h : (op : Op) → Prog Res' E (Res op)}
    (hh : ∀ op, Uses C' (h op)) (p : Prog Res E α) : Uses C' (p.handle h) := by
  induction p with
  | ret a => trivial
  | raise e => trivial
  | act op k ih => exact uses_bind (f := fun r => (k r).handle h) (uses_attempt (hh op)) ih

/-- The frame rule: what every action in `C` leaves true stays true over a
program that uses no other. -/
theorem keeps_of_uses {T : Env Res E σ} {G : σ → Op → Prop} {p : Prog Res E α} {I : σ → Prop}
    (hp : Uses C p) (hG : ∀ s op, C op → I s → G s op)
    (hT : ∀ s op r s', C op → I s → T s op r s' → I s') : Keeps T G I (fun _ => I) p := by
  intro s hI
  induction p generalizing s with
  | ret a => exact hI
  | raise e => exact hI
  | act op k ih => exact ⟨hG s op hp.1 hI, fun r s' ht => ih r (hp.2 r) s' (hT s op r s' hp.1 hI ht)⟩

end Uses

/-! ## Runs -/

/-- A run of the program to its end, alone in its environment. -/
inductive Runs (T : Env Res E σ) : σ → Prog Res E α → Except E α → σ → Prop
  | ret (a : α) (s : σ) : Runs T s (ret a) (.ok a) s
  | raise (e : E) (s : σ) : Runs T s (raise e) (.error e) s
  | act {op k r s s' out s''} : T s op r s' → Runs T s' (k r) out s'' → Runs T s (act op k) out s''

section Runs
variable {T : Env Res E σ} {G : σ → Op → Prop} {Q : α → σ → Prop} {X : E → σ → Prop} {s s' : σ}

theorem wp_runs {p : Prog Res E α} {out : Except E α} (h : wp T G p Q X s) (hr : Runs T s p out s') :
    (∀ a, out = .ok a → Q a s') ∧ ∀ e, out = .error e → X e s' := by
  induction hr with
  | ret a s => exact ⟨by rintro _ ⟨⟩; exact h, by simp⟩
  | raise e s => exact ⟨by simp, by rintro _ ⟨⟩; exact h⟩
  | act ht _ ih => exact ih (h.2 _ _ ht)

theorem wp_runs_ok {p : Prog Res E α} {a : α} (h : wp T G p Q X s) (hr : Runs T s p (.ok a) s') : Q a s' :=
  (wp_runs h hr).1 a rfl

theorem wp_runs_error {p : Prog Res E α} {e : E} (h : wp T G p Q X s) (hr : Runs T s p (.error e) s') : X e s' :=
  (wp_runs h hr).2 e rfl

/-- A run in a smaller environment. -/
theorem Runs.mono {T' : Env Res E σ} {p : Prog Res E α} {out : Except E α} (h : Runs T s p out s')
    (hT : ∀ s op r s', T s op r s' → T' s op r s') : Runs T' s p out s' := by
  induction h with
  | ret a s => exact .ret a s
  | raise e s => exact .raise e s
  | act ht _ ih => exact .act (hT _ _ _ _ ht) ih

/-- A sequence that returns ran its first part to the end, and then its second. -/
theorem runs_bind {p : Prog Res E α} {f : α → Prog Res E β} {b : β} (h : Runs T s (p >>= f) (.ok b) s') :
    ∃ a s₁, Runs T s p (.ok a) s₁ ∧ Runs T s₁ (f a) (.ok b) s' := by
  change Runs T s (p.bind f) (.ok b) s' at h
  induction p generalizing s with
  | ret a => exact ⟨a, s, .ret a s, h⟩
  | raise e => cases h
  | act op k ih =>
    cases h with
    | act ht hk =>
      obtain ⟨a, s₁, hp, hf⟩ := ih _ hk
      exact ⟨a, s₁, .act ht hp, hf⟩

/-- A loop that returns ran each of its rounds to the end, and then the rounds that were left. -/
theorem runs_foldEach {f : γ → β → Prog Res E γ} {xs : List β} {acc c : γ} (h : Runs T s (foldEach xs acc f) (.ok c) s')
    {x : β} (hx : x ∈ xs) :
    ∃ acc₁ acc₂ s₁ s₂ ys, Runs T s₁ (f acc₁ x) (.ok acc₂) s₂ ∧ Runs T s₂ (foldEach ys acc₂ f) (.ok c) s' := by
  induction xs generalizing acc s with
  | nil => cases hx
  | cons y xs ih =>
    obtain ⟨acc₁, s₁, hy, hrest⟩ := runs_bind (p := f acc y) h
    rcases List.mem_cons.1 hx with rfl | hx
    · exact ⟨acc, acc₁, s, s₁, xs, hy, hrest⟩
    · exact ih hrest hx

/-- Where every action is answered, every program runs to its end. -/
theorem exists_runs (hT : ∀ s op, ∃ r s', T s op r s') (p : Prog Res E α) (s : σ) : ∃ out s', Runs T s p out s' := by
  induction p generalizing s with
  | ret a => exact ⟨_, _, .ret a s⟩
  | raise e => exact ⟨_, _, .raise e s⟩
  | act op k ih =>
    obtain ⟨r, s', ht⟩ := hT s op
    obtain ⟨out, s'', h⟩ := ih r s'
    exact ⟨out, s'', .act ht h⟩

/-- What holds after every run is what `wp` says. -/
theorem runs_wp {p : Prog Res E α} (hQ : ∀ a s', Runs T s p (.ok a) s' → Q a s')
    (hX : ∀ e s', Runs T s p (.error e) s' → X e s') : wp T (fun _ _ => True) p Q X s := by
  induction p generalizing s with
  | ret a => exact hQ a s (.ret a s)
  | raise e => exact hX e s (.raise e s)
  | act op k ih =>
    exact ⟨trivial, fun r s' ht => ih r (fun a s'' h => hQ a s'' (.act ht h)) (fun e s'' h => hX e s'' (.act ht h))⟩

end Runs

/-- A run of the program that may stop after any action. -/
inductive Stops (T : Env Res E σ) : σ → Prog Res E α → σ → Prop
  | here (s : σ) (p : Prog Res E α) : Stops T s p s
  | act {op k r s s' s''} : T s op r s' → Stops T s' (k r) s'' → Stops T s (act op k) s''

theorem Runs.stops {T : Env Res E σ} {s s' : σ} {p : Prog Res E α} {out : Except E α} (h : Runs T s p out s') :
    Stops T s p s' := by
  induction h with
  | ret a s => exact .here s _
  | raise e s => exact .here s _
  | act ht _ ih => exact .act ht ih

/-- What every guarded action keeps holds wherever the program stops. -/
theorem wp_stops {T : Env Res E σ} {G : σ → Op → Prop} {I : σ → Prop} {p : Prog Res E α} {Q : α → σ → Prop}
    {X : E → σ → Prop} {s s' : σ} (hstep : ∀ s op r s', I s → G s op → T s op r s' → I s') (h : wp T G p Q X s) (hI : I s)
    (hr : Stops T s p s') : I s' := by
  induction hr with
  | here s p => exact hI
  | act ht _ ih => exact ih (h.2 _ _ ht) (hstep _ _ _ _ hI h.1 ht)

/-! ## Runs in a world that answers by a function -/

/-- The run in a world whose answers are computed. -/
def exec (f : σ → (op : Op) → Except E (Res op) × σ) : σ → Prog Res E α → Except E α × σ
  | s, ret a => (.ok a, s)
  | s, raise e => (.error e, s)
  | s, act op k => exec f (f s op).2 (k (f s op).1)

theorem exec_runs {T : Env Res E σ} {f : σ → (op : Op) → Except E (Res op) × σ}
    (hf : ∀ s op, T s op (f s op).1 (f s op).2) (s : σ) (p : Prog Res E α) :
    Runs T s p (exec f s p).1 (exec f s p).2 := by
  induction p generalizing s with
  | ret a => exact .ret a s
  | raise e => exact .raise e s
  | act op k ih => exact .act (hf s op) (ih _ _)

/-- The actions of that run. -/
def calls (f : σ → (op : Op) → Except E (Res op) × σ) : σ → Prog Res E α → List Op
  | _, ret _ => []
  | _, raise _ => []
  | s, act op k => op :: calls f (f s op).2 (k (f s op).1)

theorem exec_runs_of_calls {T : Env Res E σ} {f : σ → (op : Op) → Except E (Res op) × σ} {s : σ} {p : Prog Res E α}
    (hf : ∀ op ∈ calls f s p, ∀ s, T s op (f s op).1 (f s op).2) : Runs T s p (exec f s p).1 (exec f s p).2 := by
  induction p generalizing s with
  | ret a => exact .ret a s
  | raise e => exact .raise e s
  | act op k ih =>
    exact .act (hf op List.mem_cons_self s) (ih _ fun op' hop' => hf op' (List.mem_cons_of_mem _ hop'))

/-- Whether every action of that run passes a check made where it is asked. -/
def checked (f : σ → (op : Op) → Except E (Res op) × σ) (c : σ → Op → Bool) : σ → Prog Res E α → Bool
  | _, ret _ => true
  | _, raise _ => true
  | s, act op k => c s op && checked f c (f s op).2 (k (f s op).1)

theorem exec_runs_of_checked {T : Env Res E σ} {f : σ → (op : Op) → Except E (Res op) × σ} {c : σ → Op → Bool} {s : σ}
    {p : Prog Res E α} (hf : ∀ s op, c s op = true → T s op (f s op).1 (f s op).2) (h : checked f c s p = true) :
    Runs T s p (exec f s p).1 (exec f s p).2 := by
  induction p generalizing s with
  | ret a => exact .ret a s
  | raise e => exact .raise e s
  | act op k ih =>
    obtain ⟨hop, hrest⟩ := Bool.and_eq_true_iff.1 h
    exact .act (hf s op hop) (ih _ hrest)

/-! ## Histories -/

/-- One action and its answer. -/
structure Event (Res : Op → Type) (E : Type) where
  op : Op
  ans : Except E (Res op)

/-- The environment that remembers what was asked and answered, newest first,
and may answer whatever `A` allows. -/
def recorded (A : (op : Op) → Except E (Res op) → Prop) : Env Res E (List (Event Res E)) :=
  fun h op r h' => A op r ∧ h' = ⟨op, r⟩ :: h

section recorded
variable {A : (op : Op) → Except E (Res op) → Prop} {G : List (Event Res E) → Op → Prop} {X : E → List (Event Res E) → Prop}
  {h : List (Event Res E)}

@[simp] theorem wp_call_recorded (op : Op) {Q : Res op → List (Event Res E) → Prop} :
    wp (recorded A) G (call op) Q X h ↔
      G h op ∧ (∀ a, A op (.ok a) → Q a (⟨op, .ok a⟩ :: h)) ∧ ∀ e, A op (.error e) → X e (⟨op, .error e⟩ :: h) := by
  rw [wp_call]
  refine and_congr .rfl (and_congr ?_ ?_)
  · exact ⟨fun H a ha => H a _ ⟨ha, rfl⟩, fun H a h' ⟨ha, hh⟩ => hh ▸ H a ha⟩
  · exact ⟨fun H a ha => H a _ ⟨ha, rfl⟩, fun H a h' ⟨ha, hh⟩ => hh ▸ H a ha⟩

/-- A run only adds to the history. -/
theorem runs_suffix {p : Prog Res E α} {out : Except E α} {h' : List (Event Res E)} (hr : Runs (recorded A) h p out h') :
    h <:+ h' := by
  induction hr with
  | ret a h => exact List.suffix_refl h
  | raise e h => exact List.suffix_refl h
  | act ht _ ih =>
    obtain ⟨-, rfl⟩ := ht
    exact (List.suffix_cons _ _).trans ih

theorem runs_call {op : Op} {a : Res op} {h' : List (Event Res E)} (hr : Runs (recorded A) h (call op) (.ok a) h') :
    h' = ⟨op, .ok a⟩ :: h :=
  wp_runs_ok (Q := fun a h' => h' = ⟨op, .ok a⟩ :: h) (G := fun _ _ => True) (X := fun _ _ => True)
    ((wp_call_recorded op).2 ⟨trivial, fun _ _ => rfl, fun _ _ => trivial⟩) hr

end recorded

/-- Within this history the program ran from its start to its end. -/
def Ran (A : (op : Op) → Except E (Res op) → Prop) (p : Prog Res E α) (h : List (Event Res E)) : Prop :=
  ∃ a h₁ h₂, Runs (recorded A) h₁ p (.ok a) h₂ ∧ h₂ <:+ h

end Prog

end Atom
