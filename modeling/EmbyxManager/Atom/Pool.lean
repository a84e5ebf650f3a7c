import Mathlib.Logic.Function.Basic
import EmbyxManager.Atom.Prog
/-!
# Interleavings

Threads share one world and take their atomic actions in any order. A thread
may stop for good at any point: it is then never scheduled again.

`Pool.reach_inv` is the rule for safety. Each thread's program is checked once,
on its own, against a ghost state of its own (`wp` with the local environment
`L`); what is left to show is that an action the guard allows, taken in any
world that satisfies the invariant, keeps the invariant.
-/

namespace Atom

variable {Op : Type} {Res : Op → Type} {E α σ ι τ : Type} [DecidableEq ι]

/-- The world and what each thread has left to do. -/
structure Pool (Res : Op → Type) (E α σ ι : Type) where
  world : σ
  prog : ι → Prog Res E α

/-- Two threads are numbered 0 and 1. -/
instance neZero_two : @NeZero Nat Zero.ofOfNat0 2 := inferInstance

namespace Pool

/-- One action of one thread. -/
inductive Step (T : ι → Env Res E σ) : Pool Res E α σ ι → Pool Res E α σ ι → Prop
  | act {c : Pool Res E α σ ι} (i : ι) {op k r s'} : c.prog i = .act op k → T i c.world op r s' →
      Step T c ⟨s', Function.update c.prog i (k r)⟩

/-- The pools that some interleaving reaches. -/
def Reach (T : ι → Env Res E σ) : Pool Res E α σ ι → Pool Res E α σ ι → Prop := Relation.ReflTransGen (Step T)

/-- An invariant over the world and every thread's ghost state, with what each thread has
reached when it ends. -/
theorem reach_inv_ends {Q : Type} {T : ι → Env Res E σ} (L : ι → Env Res E Q) (G : ι → Q → Op → Prop)
    (I : σ → (ι → Q) → Prop) (R : ι → α → Q → Prop) (X : ι → E → Q → Prop)
    (hstep : ∀ s q i op r s', I s q → G i (q i) op → T i s op r s' →
      ∃ q', L i (q i) op r q' ∧ I s' (Function.update q i q'))
    {c₀ c : Pool Res E α σ ι} {q₀ : ι → Q} (hI : I c₀.world q₀)
    (hP : ∀ i, (c₀.prog i).wp (L i) (G i) (R i) (X i) (q₀ i)) (h : Reach T c₀ c) :
    ∃ q, I c.world q ∧ ∀ i, (c.prog i).wp (L i) (G i) (R i) (X i) (q i) := by
  induction h with
  | refl => exact ⟨q₀, hI, hP⟩
  | @tail c c' _ hs ih =>
    obtain ⟨q, hq, hp⟩ := ih
    obtain ⟨i, hk, ht⟩ := hs
    have hw := hp i
    rw [hk] at hw
    obtain ⟨q', hl, hq'⟩ := hstep _ _ _ _ _ _ hq hw.1 ht
    refine ⟨_, hq', fun j => ?_⟩
    by_cases hj : j = i
    · subst hj
      simp only [Function.update_self]
      exact hw.2 _ _ hl
    · simp only [Function.update_of_ne hj]
      exact hp j

/-- An invariant over the world and every thread's ghost state. -/
theorem reach_inv {Q : Type} {T : ι → Env Res E σ} (L : ι → Env Res E Q) (G : ι → Q → Op → Prop)
    (I : σ → (ι → Q) → Prop)
    (hstep : ∀ s q i op r s', I s q → G i (q i) op → T i s op r s' →
      ∃ q', L i (q i) op r q' ∧ I s' (Function.update q i q'))
    {c₀ c : Pool Res E α σ ι} {q₀ : ι → Q} (hI : I c₀.world q₀)
    (hP : ∀ i, (c₀.prog i).wp (L i) (G i) (fun _ _ => True) (fun _ _ => True) (q₀ i)) (h : Reach T c₀ c) :
    ∃ q, I c.world q ∧ ∀ i, (c.prog i).wp (L i) (G i) (fun _ _ => True) (fun _ _ => True) (q i) :=
  reach_inv_ends L G I _ _ hstep hI hP h

/-! ## One thread among the others -/

/-- What the other threads do, whatever it is. -/
def Others (T : ι → Env Res E σ) (i : ι) : σ → σ → Prop :=
  Relation.ReflTransGen fun s s' => ∃ j op r, j ≠ i ∧ T j s op r s'

/-- The others before each action. -/
def Among (T : ι → Env Res E σ) (i : ι) : Env Res E σ := fun s op r s' => ∃ s₁, Others T i s s₁ ∧ T i s₁ op r s'

/-- What an interleaving leaves is what one thread made of it, and what the others did since. -/
theorem reach_among {T : ι → Env Res E σ} {c₀ c : Pool Res E α σ ι} (h : Reach T c₀ c) (i : ι) :
    ∃ s, Prog.Stops (Among T i) c₀.world (c₀.prog i) s ∧ Others T i s c.world := by
  induction h using Relation.ReflTransGen.head_induction_on with
  | refl => exact ⟨_, .here _ _, .refl⟩
  | @head c₀ c₁ hs _ ih =>
    obtain ⟨j, hk, ht⟩ := hs
    obtain ⟨s, hstops, hothers⟩ := ih
    dsimp only at hstops
    by_cases hj : j = i
    · subst hj
      rw [Function.update_self] at hstops
      exact ⟨s, hk ▸ .act ⟨_, .refl, ht⟩ hstops, hothers⟩
    · have hother : ∃ j op r, j ≠ i ∧ T j c₀.world op r _ := ⟨j, _, _, hj, ht⟩
      rw [Function.update_of_ne (Ne.symm hj)] at hstops
      -- the other's action comes before the thread's next one, if it takes one
      generalize c₀.prog i = p at hstops
      cases hstops with
      | here => exact ⟨_, .here _ _, .head hother hothers⟩
      | act hact hrest =>
        obtain ⟨s₁, hbefore, hown⟩ := hact
        exact ⟨s, .act ⟨s₁, .head hother hbefore, hown⟩ hrest, hothers⟩

/-- One turn of a fixed schedule: the thread takes its next action, if it has
one, and `pick` says what the world answers. -/
def turn (pick : ι → τ → σ → (op : Op) → Except E (Res op) × σ) (c : Pool Res E α σ ι) (x : ι × τ) :
    Pool Res E α σ ι :=
  match c.prog x.1 with
  | .act op k =>
    let a := pick x.1 x.2 c.world op
    ⟨a.2, Function.update c.prog x.1 (k a.1)⟩
  | _ => c

/-- Every turn of the schedule passes a check. -/
def turnsOk (pick : ι → τ → σ → (op : Op) → Except E (Res op) × σ) (ok : ι → σ → (op : Op) → Except E (Res op) → σ → Bool) :
    List (ι × τ) → Pool Res E α σ ι → Bool
  | [], _ => true
  | x :: sched, c =>
    (match c.prog x.1 with
      | .act op _ => ok x.1 c.world op (pick x.1 x.2 c.world op).1 (pick x.1 x.2 c.world op).2
      | _ => true) && turnsOk pick ok sched (turn pick c x)

theorem reach_turnsOk {T : ι → Env Res E σ} {pick : ι → τ → σ → (op : Op) → Except E (Res op) × σ}
    (ok : ι → σ → (op : Op) → Except E (Res op) → σ → Bool)
    (hok : ∀ i t s op, ok i s op (pick i t s op).1 (pick i t s op).2 = true → T i s op (pick i t s op).1 (pick i t s op).2)
    {sched : List (ι × τ)} {c : Pool Res E α σ ι} (h : turnsOk pick ok sched c = true) :
    Reach T c (sched.foldl (turn pick) c) := by
  induction sched generalizing c with
  | nil => exact .refl
  | cons x sched ih =>
    simp only [turnsOk, Bool.and_eq_true] at h
    refine .trans ?_ (ih h.2)
    have hx := h.1
    simp only [turn]
    cases hk : c.prog x.1 with
    | act op k =>
      rw [hk] at hx
      exact .single (.act x.1 hk (hok _ _ _ _ hx))
    | ret a => exact .refl
    | raise e => exact .refl

/-- A schedule whose answers are the world's wherever `J` holds, and keep `J`. -/
theorem reach_turns_of {T : ι → Env Res E σ} {pick : ι → τ → σ → (op : Op) → Except E (Res op) × σ} {J : σ → Prop}
    (hpick : ∀ i t s op, J s → T i s op (pick i t s op).1 (pick i t s op).2 ∧ J (pick i t s op).2) (sched : List (ι × τ))
    {c : Pool Res E α σ ι} (hJ : J c.world) : Reach T c (sched.foldl (turn pick) c) := by
  induction sched generalizing c with
  | nil => exact .refl
  | cons x sched ih =>
    rw [List.foldl_cons]
    unfold turn
    split
    · rename_i op k hk
      obtain ⟨ht, hJ'⟩ := hpick x.1 x.2 c.world op hJ
      exact .trans (.single (.act x.1 hk ht)) (ih hJ')
    · exact ih hJ

theorem reach_turns {T : ι → Env Res E σ} {pick : ι → τ → σ → (op : Op) → Except E (Res op) × σ}
    (hpick : ∀ i t s op, T i s op (pick i t s op).1 (pick i t s op).2) (sched : List (ι × τ))
    (c : Pool Res E α σ ι) : Reach T c (sched.foldl (turn pick) c) :=
  reach_turns_of (J := fun _ => True) (fun i t s op _ => ⟨hpick i t s op, trivial⟩) sched trivial

end Pool

end Atom
