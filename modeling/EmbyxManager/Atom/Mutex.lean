import EmbyxManager.Atom.Pool
/-!
# A lock between threads

Threads share a state that is only written under a lock. A thread that stops
while it holds the lock loses it to the next one, and is never scheduled again.

`Locking.reach` reduces a property of every interleaving to the programs run
under the lock, one at a time and each from any state the invariant allows:
inside the lock a thread sees the state as it leaves it, outside it only looks.
-/

namespace Atom

variable {Op : Type} {Res : Op → Type} {E α β σ ι : Type}

/-- The actions of a thread that may take the lock. -/
inductive Locking (Op : Type) where
  | acquire
  | release
  | act (op : Op)

namespace Locking

def Ans (Res : Op → Type) : Locking Op → Type
  | acquire => Unit
  | release => Unit
  | act op => Res op

/-- A program, as part of one that locks. -/
def lift : Prog Res E α → Prog (Ans Res) E α
  | .ret a => .ret a
  | .raise e => .raise e
  | .act op k => .act (.act op) fun r => lift (k r)

/-- `async with lock`: released however the body ends. -/
def within (p : Prog Res E α) : Prog (Ans Res) E α :=
  Prog.bind (Prog.call .acquire) fun _ =>
    Prog.bind (lift p).attempt fun r =>
      Prog.bind (Prog.call .release) fun _ =>
        match r with
        | .ok a => .ret a
        | .error e => .raise e

/-- The state, who holds the lock, and who has stopped for good. -/
structure Guarded (σ ι : Type) where
  state : σ
  holder : Option ι
  stopped : ι → Prop

/-- The lock is taken when it is free, or when its holder has stopped. -/
def env [DecidableEq ι] (T : Env Res E σ) (i : ι) : Env (Ans Res) E (Guarded σ ι)
  | w, .acquire, r, w' =>
    ¬w.stopped i ∧ w'.state = w.state ∧
      ((r = .ok () ∧ w.holder ≠ some i ∧ w'.holder = some i ∧ w'.stopped = fun j => w.stopped j ∨ w.holder = some j) ∨
        ((∃ e, r = .error e) ∧ w'.holder = w.holder ∧ w'.stopped = w.stopped))
  | w, .release, _, w' =>
    ¬w.stopped i ∧ w'.state = w.state ∧ w'.stopped = w.stopped ∧
      w'.holder = if w.holder = some i then none else w.holder
  | w, .act op, r, w' => ¬w.stopped i ∧ T w.state op r w'.state ∧ w'.holder = w.holder ∧ w'.stopped = w.stopped

/-- What one thread sees: under the lock, the state; outside it, some state or other. -/
def view (T : Env Res E σ) (I : σ → Prop) : Env (Ans Res) E (Option σ)
  | q, .acquire, r, q' => (r = .ok () → ∃ s, I s ∧ q' = some s) ∧ ∀ e, r = .error e → q' = q
  | _, .release, _, q' => q' = none
  | some s, .act op, r, q' => ∃ s', T s op r s' ∧ q' = some s'
  | none, .act op, r, q' => q' = none ∧ ∃ s s', I s ∧ T s op r s'

/-- Outside the lock only free actions; the lock is not taken twice. -/
def guard (G : σ → Op → Prop) (Free : Op → Prop) : Option σ → Locking Op → Prop
  | none, .acquire => True
  | some _, .acquire => False
  | _, .release => True
  | some s, .act op => G s op
  | none, .act op => Free op

section rules
variable {T : Env Res E σ} {I : σ → Prop} {G : σ → Op → Prop} {Free : Op → Prop}

theorem wp_lift {p : Prog Res E α} {Q : α → σ → Prop} {X : E → σ → Prop} {s : σ} (h : p.wp T G Q X s) :
    (lift p).wp (view T I) (guard G Free) (fun a q => ∃ s, q = some s ∧ Q a s) (fun e q => ∃ s, q = some s ∧ X e s)
      (some s) := by
  induction p generalizing s with
  | ret a => exact ⟨s, rfl, h⟩
  | raise e => exact ⟨s, rfl, h⟩
  | act op k ih =>
    refine ⟨h.1, ?_⟩
    rintro r _ ⟨s', ht, rfl⟩
    exact ih r (h.2 r s' ht)

/-- The rule of the lock: the body is run from any state the invariant allows. -/
theorem wp_within {p : Prog Res E α} {Q : α → Option σ → Prop} {X : E → Option σ → Prop} (hX : ∀ e, X e none)
    (h : ∀ s, I s → p.wp T G (fun a _ => Q a none) (fun e _ => X e none) s) :
    (within p).wp (view T I) (guard G Free) Q X none := by
  unfold within
  refine (Prog.wp_bind _ _).2 ((Prog.wp_call _).2 ⟨trivial, ?_, ?_⟩)
  · rintro ⟨⟩ q ⟨hok, -⟩
    obtain ⟨s, hI, rfl⟩ := hok rfl
    refine (Prog.wp_bind _ _).2 ((Prog.wp_attempt _).2 (Prog.wp_mono (wp_lift (h s hI)) ?_ ?_))
    · rintro a _ ⟨s', rfl, hQ⟩
      refine (Prog.wp_bind _ _).2 ((Prog.wp_call _).2 ⟨trivial, ?_, ?_⟩)
      · rintro u q' rfl
        exact hQ
      · rintro e q' rfl
        exact hX e
    · rintro e _ ⟨s', rfl, hXe⟩
      refine (Prog.wp_bind _ _).2 ((Prog.wp_call _).2 ⟨trivial, ?_, ?_⟩)
      · rintro u q' rfl
        exact hXe
      · rintro e' q' rfl
        exact hX e'
  · rintro e q ⟨-, herr⟩
    rw [herr e rfl]
    exact hX e

/-- A look outside the lock. -/
theorem wp_look {op : Op} {Q : Res op → Option σ → Prop} {X : E → Option σ → Prop} (hf : Free op)
    (hok : ∀ a s s', I s → T s op (.ok a) s' → Q a none) (hX : ∀ e, X e none) :
    (lift (Prog.call op : Prog Res E (Res op))).wp (view T I) (guard G Free) Q X none := by
  refine ⟨hf, ?_⟩
  rintro r _ ⟨rfl, s, s', hI, ht⟩
  cases r with
  | ok a => exact hok a s s' hI ht
  | error e => exact hX e

end rules

/-! ## Every interleaving -/

section reach
variable [DecidableEq ι] {T : Env Res E σ} {I : σ → Prop} {G : σ → Op → Prop} {Free : Op → Prop}

/-- Whoever has not stopped and is inside the lock holds it, and sees the state. -/
def Consistent (I : σ → Prop) (w : Guarded σ ι) (q : ι → Option σ) : Prop :=
  I w.state ∧ ∀ i s, q i = some s → w.stopped i ∨ (w.holder = some i ∧ s = w.state)

/-- `J` may say more than the views do. -/
theorem consistent_step {J : σ → Prop} (hJ : ∀ s, J s → I s) (hstep : ∀ s op r s', J s → G s op → T s op r s' → J s')
    (hfree : ∀ s op r s', Free op → T s op r s' → s' = s) (w : Guarded σ ι) (q : ι → Option σ) (i : ι) (op : Locking Op)
    (r : Except E (Ans Res op)) (w' : Guarded σ ι) (hc : Consistent J w q) (hg : guard G Free (q i) op)
    (ht : env T i w op r w') : ∃ q', view T I (q i) op r q' ∧ Consistent J w' (Function.update q i q') := by
  obtain ⟨hI, hq⟩ := hc
  cases op with
  | acquire =>
    obtain ⟨hrun, hstate, ⟨rfl, hne, hholder, hstopped⟩ | ⟨⟨e, rfl⟩, hholder, hstopped⟩⟩ := ht
    · -- the lock was free: the new holder knows the state as it stands
      refine ⟨some w.state, ⟨fun _ => ⟨w.state, hJ _ hI, rfl⟩, fun e he => (nomatch he)⟩, by rwa [hstate], fun j s hj => ?_⟩
      by_cases hji : j = i
      · subst hji
        rw [Function.update_self] at hj
        exact .inr ⟨hholder, by rw [hstate]; exact (Option.some.inj hj).symm⟩
      · rw [Function.update_of_ne hji] at hj
        left
        rw [hstopped]
        exact (hq j s hj).imp id fun h => h.1
    · refine ⟨q i, ⟨fun he => (nomatch he), fun _ _ => rfl⟩, by rwa [hstate], fun j s hj => ?_⟩
      rw [Function.update_eq_self] at hj
      rw [hstopped, hholder, hstate]
      exact hq j s hj
  | release =>
    obtain ⟨hrun, hstate, hstopped, hholder⟩ := ht
    refine ⟨none, by cases q i <;> rfl, by rwa [hstate], fun j s hj => ?_⟩
    by_cases hji : j = i
    · subst hji
      rw [Function.update_self] at hj
      cases hj
    · rw [Function.update_of_ne hji] at hj
      rw [hstopped, hholder, hstate]
      refine (hq j s hj).imp id fun h => ⟨?_, h.2⟩
      rw [if_neg]
      · exact h.1
      · rw [h.1]
        exact fun he => hji (Option.some.inj he)
  | act op =>
    obtain ⟨hrun, ht, hholder, hstopped⟩ := ht
    cases hqi : q i with
    | none =>
      rw [hqi] at hg
      -- without the lock an action leaves the state alone, so nobody's view is touched
      have hsame := hfree _ _ _ _ hg ht
      refine ⟨none, ⟨rfl, w.state, w'.state, hJ _ hI, ht⟩, by rwa [hsame], fun j s hj => ?_⟩
      rw [← hqi, Function.update_eq_self] at hj
      rw [hstopped, hholder, hsame]
      exact hq j s hj
    | some s =>
      rw [hqi] at hg
      -- a holder that still runs is the only one, and its view is the state
      obtain ⟨hmine, rfl⟩ := (hq i s hqi).resolve_left hrun
      refine ⟨some w'.state, ⟨w'.state, ht, rfl⟩, hstep _ _ _ _ hI hg ht, fun j s hj => ?_⟩
      rw [hstopped, hholder]
      by_cases hji : j = i
      · subst hji
        rw [Function.update_self] at hj
        exact .inr ⟨hmine, (Option.some.inj hj).symm⟩
      · rw [Function.update_of_ne hji] at hj
        refine (hq j s hj).imp id fun h => absurd (h.1.symm.trans hmine) ?_
        exact fun he => hji (Option.some.inj he)

/-- What every guarded action keeps, and the programs are checked for one at a time, holds of
the state in every interleaving. -/
theorem reach (hstep : ∀ s op r s', I s → G s op → T s op r s' → I s')
    (hfree : ∀ s op r s', Free op → T s op r s' → s' = s) {p : ι → Prog (Ans Res) E α} {s : σ}
    {c : Pool (Ans Res) E α (Guarded σ ι) ι} (hI : I s)
    (hp : ∀ i, (p i).wp (view T I) (guard G Free) (fun _ _ => True) (fun _ _ => True) none)
    (h : Pool.Reach (env T) ⟨⟨s, none, fun _ => False⟩, p⟩ c) : I c.world.state := by
  have hstart : Consistent I (⟨s, none, fun _ => False⟩ : Guarded σ ι) fun _ => none := ⟨hI, fun _ _ hs => (nomatch hs)⟩
  obtain ⟨q, hc, -⟩ := Pool.reach_inv (fun _ => view T I) (fun _ => guard G Free) (Consistent I)
    (consistent_step (fun _ h => h) hstep hfree) hstart hp h
  exact hc.1

/-- What every guarded action keeps between two states holds between any two of an interleaving. -/
theorem reach_between {R : σ → σ → Prop} (hrefl : ∀ s, R s s) (htrans : ∀ s s' s'', R s s' → R s' s'' → R s s'')
    (hstep : ∀ s op r s', I s → G s op → T s op r s' → I s' ∧ R s s') (hfree : ∀ s op r s', Free op → T s op r s' → s' = s)
    {p : ι → Prog (Ans Res) E α} {s : σ} {c c' : Pool (Ans Res) E α (Guarded σ ι) ι} (hI : I s)
    (hp : ∀ i, (p i).wp (view T I) (guard G Free) (fun _ _ => True) (fun _ _ => True) none)
    (h : Pool.Reach (env T) ⟨⟨s, none, fun _ => False⟩, p⟩ c) (h' : Pool.Reach (env T) c c') :
    R c.world.state c'.world.state := by
  have keeps : ∀ s op r s', I s → G s op → T s op r s' → I s' := fun s op r s' hI hG hT => (hstep s op r s' hI hG hT).1
  have hstart : Consistent I (⟨s, none, fun _ => False⟩ : Guarded σ ι) fun _ => none := ⟨hI, fun _ _ hs => (nomatch hs)⟩
  obtain ⟨q, hc, hq⟩ := Pool.reach_inv (fun _ => view T I) (fun _ => guard G Free) (Consistent I)
    (consistent_step (fun _ h => h) keeps hfree) hstart hp h
  have related : ∀ s op r s', I s ∧ R c.world.state s → G s op → T s op r s' → I s' ∧ R c.world.state s' := by
    rintro s op r s' ⟨hI, hR⟩ hG hT
    obtain ⟨hI', hR'⟩ := hstep s op r s' hI hG hT
    exact ⟨hI', htrans _ _ _ hR hR'⟩
  obtain ⟨q', hc', -⟩ := Pool.reach_inv (fun _ => view T I) (fun _ => guard G Free)
    (Consistent fun s => I s ∧ R c.world.state s) (consistent_step (fun _ h => h.1) related hfree)
    ⟨⟨hc.1, hrefl _⟩, hc.2⟩ hq h'
  exact hc'.1.2

end reach

end Locking

end Atom
