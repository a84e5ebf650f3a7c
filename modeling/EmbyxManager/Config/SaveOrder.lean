import Mathlib.Data.List.Pairwise
import EmbyxManager.Config.Store
/-!
# The order of the saves

Under a row lock a save writes the version after the stored one, and a snapshot that is
installed as it was read or committed never falls behind. Both fail where the lock is not
there to be held: before the first save, and between a read and its installation.
-/

namespace EmbyxManager.Config

open Atom

variable {V U P ι : Type} [DecidableEq ι]

/-! ## The condition -/

/-- A call that has found no row still finds none when it writes, and nothing is installed in
its process between what it reads or commits and what it installs. -/
def Unhindered (i : ι) (w : World V P ι) : ConfigOp V → Prop
  | .upsert name .. => w.missed i = true → w.rows name = none
  | .install .. | .installAll _ => w.overtaken i = false
  | _ => True

def unhindered [DecidableEq P] (proc : ι → P) (i : ι) : Env (ConfigOp.Res (V := V)) ConfigExn (World V P ι) :=
  fun w op r w' => Act proc i w op r w' ∧ Unhindered i w op

/-! ## What a call knows -/

inductive Phase where
  | idle
  /-- What the `SELECT … FOR UPDATE` found. -/
  | selected (name : String) (found : Option Nat)
  | written (name : String) (version : Nat)
  | committed (name : String) (expected : Option Nat) (version : Nat)
  | fetched (versions : String → Nat)

def Phase.next (q : Phase) : (op : ConfigOp V) → Except ConfigExn op.Res → Phase
  | .selectForUpdate name, .ok (row : Option (String × Nat)) => .selected name (row.map (·.2))
  | .upsert name _ version, .ok _ => .written name version
  | .commit expected, .ok _ =>
    match q with
    | .written name version => .committed name expected version
    | q => q
  | .commit _, .error _ => .idle
  | .rollback, _ => .idle
  | .fetch, .ok (rows : String → Option (String × Nat)) => .fetched fun name => (rows name).elim 0 (·.2)
  | _, _ => q

def follow : Env (ConfigOp.Res (V := V)) ConfigExn Phase := fun q op r q' => q' = q.next op r

/-- What a call asks for. -/
def Asks (q : Phase) : ConfigOp V → Prop
  | .selectForUpdate _ | .fetch => q = .idle
  | .upsert name _ version => ∃ found, q = .selected name found ∧ version = found.getD 0 + 1
  | .commit expected => ∃ name version, q = .written name version ∧ ∀ e, expected = some e → version = e + 1
  | .install name _ version => ∃ expected, q = .committed name expected version
  | .installAll sections => ∃ versions, q = .fetched versions ∧ ∀ x ∈ sections, x.2.2 = versions x.1
  | _ => True

/-! ## The programs -/

section programs
variable (models : Registry V U)

theorem write_asks (model : SectionModel V U) (name : String) (values : U) (expected : Option Nat) :
    (write model name values expected).wp follow Asks
      (fun a q => q = .written name a.2 ∧ ∀ e, expected = some e → a.2 = e + 1) (fun _ _ => True) .idle := by
  unfold write
  rw [Prog.wp_bind]
  refine (Prog.wp_call _).2 ⟨rfl, fun (row : Option (String × Nat)) q hq => ?_, fun _ _ _ => trivial⟩
  obtain rfl : q = .selected name (row.map (·.2)) := hq
  have hversion : row.elim 0 (·.2) = (row.map (·.2)).getD 0 := by cases row <;> rfl
  dsimp only
  split
  · trivial
  · rename_i current hcurrent
    refine Prog.wp_ite (fun _ => trivial) fun hexpected => ?_
    split
    · trivial
    · rename_i updated hupdated
      rw [Prog.wp_bind]
      refine (Prog.wp_call _).2 ⟨⟨_, rfl, congrArg (· + 1) hversion⟩, fun _ q hq => ⟨hq, ?_⟩, fun _ _ _ => trivial⟩
      rintro e rfl
      have heq : e = row.elim 0 (·.2) := by simpa only [Option.any_some, decide_eq_true_eq, Decidable.not_not] using hexpected
      exact congrArg (· + 1) heq.symm

theorem transaction_asks {α : Type} {p : Store V α} {expected : Option Nat} {Q : α → Phase → Prop}
    (h : p.wp follow Asks (fun a q => Asks q (.commit expected : ConfigOp V) ∧ Q a (q.next (.commit expected : ConfigOp V) (.ok ())))
      (fun _ _ => True) .idle) : (transaction expected p).wp follow Asks Q (fun _ _ => True) .idle := by
  unfold transaction
  rw [Prog.wp_bind]
  refine (Prog.wp_call _).2 ⟨trivial, fun _ q hq => ?_, fun _ _ _ => trivial⟩
  obtain rfl : q = .idle := hq
  rw [Prog.wp_bind, Prog.wp_attempt]
  refine Prog.wp_mono h (fun a q h => ?_) fun e q _ => ?_
  · change Prog.wp follow Asks (commit expected >>= fun _ => pure a) _ _ q
    rw [Prog.wp_bind]
    refine (Prog.wp_call _).2 ⟨h.1, ?_, fun _ _ _ => trivial⟩
    rintro ⟨⟩ q' rfl
    exact h.2
  · change Prog.wp follow Asks (rollback >>= fun _ => .raise e) _ _ q
    rw [Prog.wp_bind]
    exact (Prog.wp_call _).2 ⟨trivial, fun _ _ _ => trivial, fun _ _ _ => trivial⟩

theorem save_asks (model : SectionModel V U) (name : String) (values : U) (expected : Option Nat) :
    (save model name values expected).wp follow Asks (fun a q => q = .committed name expected a.2) (fun _ _ => True)
      .idle := by
  unfold save
  rw [Prog.wp_bind]
  refine transaction_asks (Prog.wp_mono (write_asks model name values expected) (fun a q h => ?_) fun _ _ h => h)
  obtain ⟨rfl, hversion⟩ := h
  refine ⟨⟨name, a.2, rfl, hversion⟩, ?_⟩
  change Prog.wp follow Asks (install name a.1 a.2 >>= fun _ => pure (a.1, a.2)) _ _ (.committed name expected a.2)
  rw [Prog.wp_bind]
  exact (Prog.wp_call _).2 ⟨⟨expected, rfl⟩, fun _ q hq => hq, fun _ _ _ => trivial⟩

/-- An update that returns has committed the version it returns. -/
theorem update_asks (name : String) (values : U) (expected : Option Nat) :
    (update models name values expected).wp follow Asks (fun a q => q = .committed name expected a.2) (fun _ _ => True)
      .idle := by
  unfold update
  split
  · trivial
  · rename_i model _
    rw [Prog.wp_bind]
    refine (Prog.wp_call _).2 ⟨trivial, fun _ q hq => ?_, fun _ _ _ => trivial⟩
    obtain rfl : q = .idle := hq
    rw [Prog.wp_bind, Prog.wp_attempt]
    refine Prog.wp_mono (save_asks model name values expected) (fun a q h => ?_) fun e q _ => ?_
    all_goals
      rw [Prog.wp_bind]
      refine (Prog.wp_call _).2 ⟨trivial, fun _ q' hq => ?_, fun _ _ _ => trivial⟩
    · exact Eq.trans hq h
    · trivial

theorem refresh_asks : (refresh models).wp follow Asks (fun _ _ => True) (fun _ _ => True) .idle := by
  unfold refresh
  rw [Prog.wp_bind]
  refine (Prog.wp_call _).2 ⟨rfl, fun (rows : String → Option (String × Nat)) q hq => ?_, fun _ _ _ => trivial⟩
  refine (Prog.wp_call _).2 ⟨⟨_, hq, fun x hx => ?_⟩, fun _ _ _ => trivial, fun _ _ _ => trivial⟩
  obtain ⟨⟨name, model⟩, -, h⟩ := List.mem_filterMap.1 hx
  dsimp only at h
  split at h
  · rename_i hrow
    cases h
    simp [hrow]
  · rename_i json version hrow
    obtain ⟨value, -, rfl⟩ := Option.map_eq_some_iff.1 h
    simp [hrow]

end programs

/-! ## The invariant -/

variable {proc : ι → P}

/-- What the calls know of the world. -/
structure Inv (proc : ι → P) (w : World V P ι) (q : ι → Phase) : Prop where
  locked : ∀ {i name version}, q i = .selected name (some version) → w.holder name = some i ∧ w.stored name = version
  missed : ∀ {i name}, q i = .selected name none → w.missed i = true
  written : ∀ {i name version}, q i = .written name version →
    w.holder name = some i ∧ (∃ json, w.pending i = some (name, json, version)) ∧ version = w.stored name + 1
  held : ∀ {i name}, w.holder name = some i →
    (∃ version, q i = .selected name (some version)) ∨ ∃ version, q i = .written name version
  committed : ∀ {i name expected version}, q i = .committed name expected version →
    ⟨i, name, expected, version⟩ ∈ w.log ∧ (w.overtaken i = false → w.installed (proc i) name ≤ version)
  fetched : ∀ {i versions}, q i = .fetched versions → ∀ name,
    versions name ≤ w.stored name ∧ (w.overtaken i = false → w.installed (proc i) name ≤ versions name)
  installed : ∀ p name, w.installed p name ≤ w.stored name
  ordered : w.log.Pairwise fun newer older => newer.name = older.name → older.version < newer.version
  logged : ∀ l ∈ w.log, l.version ≤ w.stored l.name ∧ ∀ e, l.expected = some e → l.version = e + 1

omit [DecidableEq ι] in
/-- Neither the table nor its locks nor a snapshot differ, and the call knows what it knew. -/
theorem Inv.idle {w : World V P ι} {q : ι → Phase} (h : Inv proc w q) (writer : P → Option ι) :
    Inv proc { w with writer := writer } q :=
  ⟨h.locked, h.missed, h.written, h.held, h.committed, h.fetched, h.installed, h.ordered, h.logged⟩

omit [DecidableEq ι] in
/-- A call that knows nothing holds nothing. -/
theorem Inv.none_held {w : World V P ι} {q : ι → Phase} (h : Inv proc w q) {i : ι}
    (hq : (∀ name version, q i ≠ .selected name (some version)) ∧ ∀ name version, q i ≠ .written name version) (name : String) :
    w.holder name ≠ some i := by
  intro hh
  rcases h.held hh with ⟨version, hv⟩ | ⟨version, hv⟩
  · exact hq.1 name version hv
  · exact hq.2 name version hv

/-- The locks a transaction gives back. -/
theorem released_eq {w : World V P ι} {i j : ι} {name : String} : w.released i name = some j ↔ w.holder name = some j ∧ j ≠ i := by
  unfold World.released
  by_cases h : w.holder name = some i
  · rw [if_pos h, h]
    simp only [reduceCtorEq, Option.some.injEq, false_iff, not_and, Decidable.not_not]
    exact fun h => h.symm
  · rw [if_neg h]
    refine ⟨fun hj => ⟨hj, ?_⟩, fun hj => hj.1⟩
    rintro rfl
    exact h hj

theorem Inv.rollback {w : World V P ι} {q : ι → Phase} (h : Inv proc w q) (i : ι) :
    Inv proc (w.rollback i) (Function.update q i .idle) := by
  have hother : ∀ {j ph}, Function.update q i .idle j = ph → ph ≠ .idle → j ≠ i ∧ q j = ph := by
    intro j ph hj hne
    by_cases hji : j = i
    · subst hji
      rw [Function.update_self] at hj
      exact absurd hj.symm hne
    · rw [Function.update_of_ne hji] at hj
      exact ⟨hji, hj⟩
  refine ⟨?_, ?_, ?_, ?_, ?_, ?_, h.installed, h.ordered, h.logged⟩
  · intro j name version hj
    obtain ⟨hne, hj⟩ := hother hj (by simp)
    exact ⟨released_eq.2 ⟨(h.locked hj).1, hne⟩, (h.locked hj).2⟩
  · intro j name hj
    exact h.missed (hother hj (by simp)).2
  · intro j name version hj
    obtain ⟨hne, hj⟩ := hother hj (by simp)
    obtain ⟨hh, ⟨json, hp⟩, hv⟩ := h.written hj
    refine ⟨released_eq.2 ⟨hh, hne⟩, ⟨json, ?_⟩, hv⟩
    simpa [World.rollback, Function.update_of_ne hne] using hp
  · intro j name hj
    obtain ⟨hh, hne⟩ := released_eq.1 hj
    rw [Function.update_of_ne hne]
    exact h.held hh
  · intro j name expected version hj
    exact h.committed (hother hj (by simp)).2
  · intro j versions hj
    exact h.fetched (hother hj (by simp)).2

section Commit
variable {w : World V P ι} {i : ι} {name json : String} {version : Nat} (hp : w.pending i = some (name, json, version))
include hp

/-- What a commit does to the table: the row under the lock moves to the next version. -/
theorem commit_stored (expected : Option Nat) (n : String) :
    (w.commit i expected).stored n = if n = name then version else w.stored n := by
  by_cases hn : n = name <;> simp [World.commit, hp, World.stored, hn]

theorem commit_log (expected : Option Nat) : (w.commit i expected).log = ⟨i, name, expected, version⟩ :: w.log := by
  simp [World.commit, hp]

theorem commit_holder (expected : Option Nat) : (w.commit i expected).holder = w.released i := by
  simp [World.commit, hp, World.rollback]

theorem commit_pending (expected : Option Nat) : (w.commit i expected).pending = Function.update w.pending i none := by
  simp [World.commit, hp, World.rollback]

theorem commit_missed (expected : Option Nat) : (w.commit i expected).missed = w.missed := by
  simp [World.commit, hp, World.rollback]

theorem commit_overtaken (expected : Option Nat) : (w.commit i expected).overtaken = Function.update w.overtaken i false := by
  simp [World.commit, hp, World.rollback]

theorem commit_installed (expected : Option Nat) (p : P) (n : String) : (w.commit i expected).installed p n = w.installed p n := by
  simp [World.installed, World.commit, hp, World.rollback]

theorem le_commit_stored (hv : version = w.stored name + 1) (expected : Option Nat) (n : String) :
    w.stored n ≤ (w.commit i expected).stored n := by
  rw [commit_stored hp]
  split
  · rename_i hn
    rw [hn]
    omega
  · exact Nat.le_refl _

end Commit

theorem Inv.commit {w : World V P ι} {q : ι → Phase} (h : Inv proc w q) {i : ι} {name : String} {version : Nat}
    (hq : q i = .written name version) {expected : Option Nat} (hexpected : ∀ e, expected = some e → version = e + 1)
    {ph : Phase} (hph : ph = .committed name expected version ∨ ph = .idle) :
    Inv proc (w.commit i expected) (Function.update q i ph) := by
  obtain ⟨hh, ⟨json, hp⟩, hv⟩ := h.written hq
  have hstored := commit_stored hp expected
  have hmono := le_commit_stored hp hv expected
  have hlog := commit_log hp expected
  have hholder := commit_holder hp expected
  have hover := commit_overtaken hp expected
  have hinstalled := commit_installed hp expected
  have hfree : ∀ {n j}, w.holder n = some j → j ≠ i → n ≠ name := by
    rintro n j hj hne rfl
    exact hne (Option.some.inj (hj.symm.trans hh))
  -- nobody else's phase changes, and the call's own is that of a transaction that is over
  have hother : ∀ {j ph'}, Function.update q i ph j = ph' → (∀ n e v, ph' ≠ .committed n e v) → ph' ≠ .idle → j ≠ i ∧ q j = ph' := by
    intro j ph' hj hc hidle
    by_cases hji : j = i
    · subst hji
      rw [Function.update_self] at hj
      rcases hph with hph | hph
      · exact absurd (hj.symm.trans hph) (hc _ _ _)
      · exact absurd (hj.symm.trans hph) hidle
    · rw [Function.update_of_ne hji] at hj
      exact ⟨hji, hj⟩
  refine ⟨?_, ?_, ?_, ?_, ?_, ?_, ?_, ?_, ?_⟩
  · intro j n v hj
    obtain ⟨hne, hj⟩ := hother hj (by simp) (by simp)
    obtain ⟨hl, hs⟩ := h.locked hj
    rw [hholder, hstored, if_neg (hfree hl hne)]
    exact ⟨released_eq.2 ⟨hl, hne⟩, hs⟩
  · intro j n hj
    rw [commit_missed hp]
    exact h.missed (hother hj (by simp) (by simp)).2
  · intro j n v hj
    obtain ⟨hne, hj⟩ := hother hj (by simp) (by simp)
    obtain ⟨hl, ⟨json', hp'⟩, hs⟩ := h.written hj
    rw [hholder, hstored, if_neg (hfree hl hne), commit_pending hp, Function.update_of_ne hne]
    exact ⟨released_eq.2 ⟨hl, hne⟩, ⟨json', hp'⟩, hs⟩
  · intro j n hj
    rw [hholder] at hj
    obtain ⟨hl, hne⟩ := released_eq.1 hj
    rw [Function.update_of_ne hne]
    exact h.held hl
  · intro j n e v hj
    rw [hlog, hover, hinstalled]
    by_cases hji : j = i
    · subst hji
      rw [Function.update_self] at hj
      rcases hph with hph | hph
      · rw [hph] at hj
        cases hj
        refine ⟨List.mem_cons_self, fun _ => ?_⟩
        have := h.installed (proc j) name
        omega
      · rw [hph] at hj
        cases hj
    · rw [Function.update_of_ne hji] at hj ⊢
      exact ⟨List.mem_cons_of_mem _ (h.committed hj).1, (h.committed hj).2⟩
  · intro j versions hj n
    obtain ⟨hne, hj⟩ := hother hj (by simp) (by simp)
    rw [hover, hinstalled, Function.update_of_ne hne]
    exact ⟨Nat.le_trans (h.fetched hj n).1 (hmono n), (h.fetched hj n).2⟩
  · intro p n
    rw [hinstalled]
    exact Nat.le_trans (h.installed p n) (hmono n)
  · rw [hlog, List.pairwise_cons]
    refine ⟨fun l hl hn => ?_, h.ordered⟩
    have hle := (h.logged l hl).1
    change name = l.name at hn
    rw [← hn] at hle
    change l.version < version
    omega
  · intro l hl
    rw [hlog] at hl
    rcases List.mem_cons.1 hl with rfl | hl
    · exact ⟨by rw [hstored]; simp, hexpected⟩
    · exact ⟨Nat.le_trans (h.logged l hl).1 (hmono _), (h.logged l hl).2⟩

theorem Inv.selectRow {w : World V P ι} {q : ι → Phase} (h : Inv proc w q) {i : ι} (hq : q i = .idle) {name : String}
    {row : String × Nat} (hrow : w.rows name = some row) (hfree : w.holder name = none) :
    Inv proc { w with holder := Function.update w.holder name (some i), missed := Function.update w.missed i false }
      (Function.update q i (.selected name (some row.2))) := by
  have hstored : w.stored name = row.2 := by rw [World.stored, hrow]; rfl
  -- whoever holds a lock is someone else and holds another row's
  have hother : ∀ {j n}, w.holder n = some j → j ≠ i ∧ n ≠ name := by
    intro j n hj
    constructor
    · rintro rfl
      exact h.none_held ⟨by simp [hq], by simp [hq]⟩ n hj
    · rintro rfl
      rw [hfree] at hj
      cases hj
  refine ⟨?_, ?_, ?_, ?_, ?_, ?_, h.installed, h.ordered, h.logged⟩
  · intro j n v hj
    by_cases hji : j = i
    · subst hji
      rw [Function.update_self] at hj
      cases hj
      exact ⟨Function.update_self .., hstored⟩
    · rw [Function.update_of_ne hji] at hj
      obtain ⟨hl, hs⟩ := h.locked hj
      exact ⟨(Function.update_of_ne (hother hl).2 _ _).trans hl, hs⟩
  · intro j n hj
    have hji : j ≠ i := by
      rintro rfl
      simp at hj
    rw [Function.update_of_ne hji] at hj
    exact (Function.update_of_ne hji _ _).trans (h.missed hj)
  · intro j n v hj
    have hji : j ≠ i := by
      rintro rfl
      simp at hj
    rw [Function.update_of_ne hji] at hj
    obtain ⟨hl, hp⟩ := h.written hj
    exact ⟨(Function.update_of_ne (hother hl).2 _ _).trans hl, hp⟩
  · intro j n hj
    by_cases hn : n = name
    · subst hn
      have hj' : Function.update w.holder n (some i) n = some j := hj
      rw [Function.update_self] at hj'
      obtain rfl := Option.some.inj hj'
      exact .inl ⟨row.2, Function.update_self ..⟩
    · have hj' : w.holder n = some j := (Function.update_of_ne hn _ _).symm.trans hj
      rw [Function.update_of_ne (hother hj').1]
      exact h.held hj'
  · intro j n e v hj
    have hji : j ≠ i := by
      rintro rfl
      simp at hj
    rw [Function.update_of_ne hji] at hj
    exact h.committed hj
  · intro j versions hj
    have hji : j ≠ i := by
      rintro rfl
      simp at hj
    rw [Function.update_of_ne hji] at hj
    exact h.fetched hj

/-- What a call knows is replaced by what says nothing about the table's locks. -/
theorem Inv.selectNone {w : World V P ι} {q : ι → Phase} (h : Inv proc w q) {i : ι} (hq : q i = .idle) (name : String) :
    Inv proc { w with missed := Function.update w.missed i true } (Function.update q i (.selected name none)) := by
  have hne : ∀ {j ph}, Function.update q i (.selected name none) j = ph → ph ≠ .selected name none → j ≠ i ∧ q j = ph := by
    intro j ph hj hph
    by_cases hji : j = i
    · subst hji
      rw [Function.update_self] at hj
      exact absurd hj.symm hph
    · rw [Function.update_of_ne hji] at hj
      exact ⟨hji, hj⟩
  refine ⟨fun hj => h.locked (hne hj (by simp)).2, ?_, fun hj => h.written (hne hj (by simp)).2, ?_,
    fun hj => h.committed (hne hj (by simp)).2, fun hj => h.fetched (hne hj (by simp)).2, h.installed, h.ordered, h.logged⟩
  · intro j n hj
    by_cases hji : j = i
    · exact hji ▸ Function.update_self ..
    · rw [Function.update_of_ne hji] at hj
      exact (Function.update_of_ne hji _ _).trans (h.missed hj)
  · intro j n hj
    have hji : j ≠ i := by
      rintro rfl
      exact h.none_held ⟨by simp [hq], by simp [hq]⟩ n hj
    rw [Function.update_of_ne hji]
    exact h.held hj

/-- A write: the row was locked, or there is none and there was none. -/
theorem Inv.upsert {w : World V P ι} {q : ι → Phase} (h : Inv proc w q) {i : ι} {name json : String} {found : Option Nat}
    (hq : q i = .selected name found) (hfree : ∀ j, w.holder name = some j → j = i)
    (hmissed : w.missed i = true → w.rows name = none) :
    Inv proc
      { w with
        holder := Function.update w.holder name (some i)
        pending := Function.update w.pending i (some (name, json, found.getD 0 + 1)) }
      (Function.update q i (.written name (found.getD 0 + 1))) := by
  -- a row that was missed is still missing, else the insertion would have been told so
  have hstored : found.getD 0 = w.stored name := by
    cases found with
    | none => rw [World.stored, hmissed (h.missed hq)]; rfl
    | some v => exact (h.locked hq).2.symm
  have hmine : ∀ {n}, w.holder n = some i → n = name := by
    intro n hn
    rcases h.held hn with ⟨v, hv⟩ | ⟨v, hv⟩
    · exact (Phase.selected.inj (hv.symm.trans hq)).1
    · rw [hq] at hv
      cases hv
  have hne : ∀ {j n}, w.holder n = some j → j ≠ i → n ≠ name := by
    rintro j n hj hji rfl
    exact hji (hfree j hj)
  -- nobody else's phase changes
  have hother : ∀ {j ph}, Function.update q i (.written name (found.getD 0 + 1)) j = ph →
      (∀ n v, ph ≠ .written n v) → j ≠ i ∧ q j = ph := by
    intro j ph hj hph
    by_cases hji : j = i
    · subst hji
      rw [Function.update_self] at hj
      exact absurd hj.symm (hph _ _)
    · rw [Function.update_of_ne hji] at hj
      exact ⟨hji, hj⟩
  refine ⟨?_, fun hj => h.missed (hother hj (by simp)).2, ?_, ?_, fun hj => h.committed (hother hj (by simp)).2,
    fun hj => h.fetched (hother hj (by simp)).2, h.installed, h.ordered, h.logged⟩
  · intro j n v hj
    obtain ⟨hji, hj⟩ := hother hj (by simp)
    obtain ⟨hl, hs⟩ := h.locked hj
    exact ⟨(Function.update_of_ne (hne hl hji) _ _).trans hl, hs⟩
  · intro j n v hj
    by_cases hji : j = i
    · subst hji
      rw [Function.update_self] at hj
      cases hj
      exact ⟨Function.update_self .., ⟨json, Function.update_self ..⟩, congrArg (· + 1) hstored⟩
    · rw [Function.update_of_ne hji] at hj
      obtain ⟨hl, ⟨json', hp⟩, hs⟩ := h.written hj
      exact ⟨(Function.update_of_ne (hne hl hji) _ _).trans hl, ⟨json', (Function.update_of_ne hji _ _).trans hp⟩, hs⟩
  · intro j n hj
    by_cases hn : n = name
    · subst hn
      have hj' : Function.update w.holder n (some i) n = some j := hj
      rw [Function.update_self] at hj'
      obtain rfl := Option.some.inj hj'
      exact .inr ⟨_, Function.update_self ..⟩
    · have hj' : w.holder n = some j := (Function.update_of_ne hn _ _).symm.trans hj
      have hji : j ≠ i := by
        rintro rfl
        exact hn (hmine hj')
      rw [Function.update_of_ne hji]
      exact h.held hj'

theorem Inv.fetch {w : World V P ι} {q : ι → Phase} (h : Inv proc w q) {i : ι} (hq : q i = .idle) :
    Inv proc { w with overtaken := Function.update w.overtaken i false } (Function.update q i (.fetched w.stored)) := by
  have hother : ∀ {j ph}, Function.update q i (.fetched w.stored) j = ph → (∀ f, ph ≠ .fetched f) → j ≠ i ∧ q j = ph := by
    intro j ph hj hph
    by_cases hji : j = i
    · subst hji
      rw [Function.update_self] at hj
      exact absurd hj.symm (hph _)
    · rw [Function.update_of_ne hji] at hj
      exact ⟨hji, hj⟩
  refine ⟨fun hj => h.locked (hother hj (by simp)).2, fun hj => h.missed (hother hj (by simp)).2,
    fun hj => h.written (hother hj (by simp)).2, ?_, ?_, ?_, h.installed, h.ordered, h.logged⟩
  · intro j n hj
    have hji : j ≠ i := by
      rintro rfl
      exact h.none_held ⟨by simp [hq], by simp [hq]⟩ n hj
    rw [Function.update_of_ne hji]
    exact h.held hj
  · intro j n e v hj
    obtain ⟨hji, hj⟩ := hother hj (by simp)
    refine ⟨(h.committed hj).1, fun ho => (h.committed hj).2 ?_⟩
    exact (Function.update_of_ne hji _ _).symm.trans ho
  · intro j versions hj n
    by_cases hji : j = i
    · subst hji
      rw [Function.update_self] at hj
      cases hj
      exact ⟨Nat.le_refl _, fun _ => h.installed _ n⟩
    · rw [Function.update_of_ne hji] at hj
      refine ⟨(h.fetched hj n).1, fun ho => (h.fetched hj n).2 ?_⟩
      exact (Function.update_of_ne hji _ _).symm.trans ho

omit [DecidableEq ι] in
/-- The sections of one installation, the last of a name over the others. -/
theorem overlay_eq (sections : List (String × V × Nat)) (s : String → Option (V × Nat)) (name : String) :
    World.overlay s sections name = s name ∨ ∃ x ∈ sections, x.1 = name ∧ World.overlay s sections name = some x.2 := by
  induction sections generalizing s with
  | nil => exact .inl rfl
  | cons x sections ih =>
    rcases ih (Function.update s x.1 (some x.2)) with h | ⟨y, hy, hname, h⟩
    · by_cases hx : name = x.1
      · refine .inr ⟨x, by simp, hx.symm, h.trans ?_⟩
        rw [hx, Function.update_self]
      · exact .inl (h.trans (Function.update_of_ne hx _ _))
    · exact .inr ⟨y, by simp [hy], hname, h⟩

variable [DecidableEq P]

/-- What an installation leaves of a snapshot: the version that was there, or one of its own. -/
theorem installed_install (proc : ι → P) (w : World V P ι) (i : ι) (sections : List (String × V × Nat)) (p : P) (name : String) :
    (w.install proc i sections).installed p name = w.installed p name ∨
      (p = proc i ∧ ∃ x ∈ sections, x.1 = name ∧ (w.install proc i sections).installed p name = x.2.2) := by
  unfold World.install World.installed
  dsimp only
  by_cases hp : p = proc i
  · subst hp
    rw [Function.update_self]
    rcases overlay_eq sections (w.snapshot (proc i)) name with h | ⟨x, hx, hname, h⟩
    · exact .inl (by rw [h])
    · exact .inr ⟨rfl, x, hx, hname, by rw [h]; rfl⟩
  · rw [Function.update_of_ne hp]
    exact .inl rfl

/-- An installation of versions that are stored and no older than those installed. -/
theorem Inv.install {w : World V P ι} {q : ι → Phase} (h : Inv proc w q) {i : ι} {sections : List (String × V × Nat)}
    (hstored : ∀ x ∈ sections, x.2.2 ≤ w.stored x.1)
    (hcommitted : ∀ name expected version, q i = .committed name expected version → ∀ x ∈ sections, x.1 = name → x.2.2 = version)
    (hfetched : ∀ versions, q i = .fetched versions → ∀ x ∈ sections, x.2.2 = versions x.1) :
    Inv proc (w.install proc i sections) q := by
  have hover : ∀ {j}, (w.install proc i sections).overtaken j = false → w.overtaken j = false ∧ (j = i ∨ proc j ≠ proc i) := by
    intro j hj
    simp only [World.install, Bool.or_eq_false_iff, Bool.and_eq_false_iff, decide_eq_false_iff_not, Decidable.not_not] at hj
    exact hj
  refine ⟨h.locked, h.missed, h.written, h.held, ?_, ?_, ?_, h.ordered, h.logged⟩
  · intro j n e v hj
    refine ⟨(h.committed hj).1, fun ho => ?_⟩
    obtain ⟨ho, hji⟩ := hover ho
    rcases installed_install proc w i sections (proc j) n with hs | ⟨hp, x, hx, hname, hs⟩
    · rw [hs]
      exact (h.committed hj).2 ho
    · rcases hji with rfl | hji
      · exact Nat.le_of_eq (by rw [hs, hcommitted n e v hj x hx hname])
      · exact absurd hp hji
  · intro j versions hj n
    refine ⟨(h.fetched hj n).1, fun ho => ?_⟩
    obtain ⟨ho, hji⟩ := hover ho
    rcases installed_install proc w i sections (proc j) n with hs | ⟨hp, x, hx, hname, hs⟩
    · rw [hs]
      exact (h.fetched hj n).2 ho
    · rcases hji with rfl | hji
      · exact Nat.le_of_eq (by rw [hs, hfetched versions hj x hx, hname])
      · exact absurd hp hji
  · intro p n
    rcases installed_install proc w i sections p n with hs | ⟨-, x, hx, hname, hs⟩
    · rw [hs]
      exact h.installed p n
    · rw [hs, ← hname]
      exact hstored x hx

/-! ## Every step -/

omit [DecidableEq ι] [DecidableEq P] in
/-- The versions a call installs are those it knows. -/
theorem Inv.asks_install {w : World V P ι} {q : ι → Phase} (h : Inv proc w q) {i : ι} {op : ConfigOp V}
    {sections : List (String × V × Nat)} (hask : Asks (q i) op)
    (hop : op = .installAll sections ∨ ∃ name value version, op = .install name value version ∧ sections = [(name, value, version)]) :
    (∀ x ∈ sections, x.2.2 ≤ w.stored x.1 ∧ (w.overtaken i = false → w.installed (proc i) x.1 ≤ x.2.2)) ∧
      (∀ name expected version, q i = .committed name expected version → ∀ x ∈ sections, x.1 = name → x.2.2 = version) ∧
      ∀ versions, q i = .fetched versions → ∀ x ∈ sections, x.2.2 = versions x.1 := by
  rcases hop with rfl | ⟨name, value, version, rfl, rfl⟩
  · obtain ⟨versions, hq, hx⟩ := hask
    refine ⟨fun x hm => ?_, fun _ _ _ hc => ?_, fun versions' hf x hm => ?_⟩
    · rw [hx x hm]
      exact h.fetched hq x.1
    · rw [hq] at hc
      cases hc
    · rw [hq] at hf
      cases hf
      exact hx x hm
  · obtain ⟨expected, hq⟩ := hask
    obtain ⟨hlog, hle⟩ := h.committed hq
    refine ⟨fun x hm => ?_, fun n e v hc x hm _ => ?_, fun _ hf => ?_⟩
    · rw [List.mem_singleton.1 hm]
      exact ⟨(h.logged _ hlog).1, hle⟩
    · rw [hq] at hc
      cases hc
      rw [List.mem_singleton.1 hm]
    · rw [hq] at hf
      cases hf

/-- Every step keeps the invariant. -/
theorem Inv.step {w w' : World V P ι} {q : ι → Phase} (h : Inv proc w q) {i : ι} {op : ConfigOp V}
    {r : Except ConfigExn op.Res} (hask : Asks (q i) op) (ht : unhindered proc i w op r w') :
    Inv proc w' (Function.update q i ((q i).next op r)) := by
  obtain ⟨ha, hu⟩ := ht
  cases ha with
  | acquire | release =>
    rw [show (q i).next _ _ = q i from rfl, Function.update_eq_self]
    exact h.idle _
  | begin =>
    rw [show (q i).next _ _ = q i from rfl, Function.update_eq_self]
    exact h
  | failed e hf =>
    have hsame : (q i).next op (.error e) = q i := by cases op <;> first | rfl | cases hf
    rw [hsame, Function.update_eq_self]
    exact h
  | selectRow hrow hfree => exact h.selectRow hask hrow hfree
  | selectNone hrow => exact h.selectNone hask _
  | upsert hfree =>
    obtain ⟨found, hq, rfl⟩ := hask
    exact h.upsert hq hfree hu
  | commit expected =>
    obtain ⟨name, version, hq, hv⟩ := hask
    exact h.commit hq hv (.inl (by rw [hq]; rfl))
  | commitFailed e => exact h.rollback i
  | commitLost e =>
    obtain ⟨name, version, hq, hv⟩ := hask
    exact h.commit hq hv (.inr rfl)
  | rollback r => exact h.rollback i
  | install name value version =>
    rw [show (q i).next _ _ = q i from rfl, Function.update_eq_self]
    obtain ⟨hx, hc, hf⟩ := h.asks_install hask (.inr ⟨name, value, version, rfl, rfl⟩)
    exact h.install (fun x hm => (hx x hm).1) hc hf
  | fetch => exact h.fetch hask
  | installAll sections =>
    rw [show (q i).next _ _ = q i from rfl, Function.update_eq_self]
    obtain ⟨hx, hc, hf⟩ := h.asks_install hask (.inl rfl)
    exact h.install (fun x hm => (hx x hm).1) hc hf

/-! ## Every step goes forward -/

/-- The table and the snapshots never go back, and a save that is committed goes on. -/
structure Forward (w w' : World V P ι) : Prop where
  stored : ∀ name, w.stored name ≤ w'.stored name
  saved : w'.log = w.log ∨ ∃ saved, w'.log = saved :: w.log ∧ w.stored saved.name < w'.stored saved.name
  installed : ∀ p name, w.installed p name ≤ w'.installed p name

omit [DecidableEq ι] [DecidableEq P] in
theorem Forward.of_eq {w w' : World V P ι} (hrows : w'.rows = w.rows) (hlog : w'.log = w.log)
    (hsnapshot : w'.snapshot = w.snapshot) : Forward w w' := by
  refine ⟨fun name => ?_, .inl hlog, fun p name => ?_⟩
  · exact Nat.le_of_eq (by rw [World.stored, World.stored, hrows])
  · exact Nat.le_of_eq (by rw [World.installed, World.installed, hsnapshot])

omit [DecidableEq P] in
theorem Forward.commit {w : World V P ι} {q : ι → Phase} (h : Inv proc w q) {i : ι} {expected : Option Nat}
    (hask : Asks (q i) (.commit expected : ConfigOp V)) : Forward w (w.commit i expected) := by
  obtain ⟨name, version, hq, -⟩ := hask
  obtain ⟨-, ⟨json, hp⟩, hv⟩ := h.written hq
  have hstored : (w.commit i expected).stored name = version := by simp [World.commit, hp, World.stored]
  have hother : ∀ n ≠ name, (w.commit i expected).stored n = w.stored n := by
    intro n hn
    simp [World.commit, hp, World.stored, World.rollback, hn]
  refine ⟨fun n => ?_, .inr ⟨⟨i, name, expected, version⟩, by simp [World.commit, hp], ?_⟩, fun p n => ?_⟩
  · by_cases hn : n = name
    · rw [hn, hstored]
      omega
    · exact (hother n hn).symm ▸ Nat.le_refl _
  · change w.stored name < (w.commit i expected).stored name
    rw [hstored]
    omega
  · simp [World.installed, World.commit, hp, World.rollback]

theorem Forward.install {w : World V P ι} {i : ι} {sections : List (String × V × Nat)}
    (hx : ∀ x ∈ sections, w.installed (proc i) x.1 ≤ x.2.2) : Forward w (w.install proc i sections) := by
  refine ⟨fun _ => Nat.le_refl _, .inl rfl, fun p name => ?_⟩
  rcases installed_install proc w i sections p name with hs | ⟨rfl, x, hm, rfl, hs⟩
  · exact hs ▸ Nat.le_refl _
  · exact hs ▸ hx x hm

theorem forward_step {w w' : World V P ι} {q : ι → Phase} (h : Inv proc w q) {i : ι} {op : ConfigOp V}
    {r : Except ConfigExn op.Res} (hask : Asks (q i) op) (ht : unhindered proc i w op r w') : Forward w w' := by
  obtain ⟨ha, hu⟩ := ht
  cases ha with
  | commit expected => exact .commit h hask
  | commitLost e => exact .commit h hask
  | install name value version =>
    obtain ⟨hx, -⟩ := h.asks_install hask (.inr ⟨name, value, version, rfl, rfl⟩)
    exact .install fun x hm => (hx x hm).2 hu
  | installAll sections =>
    obtain ⟨hx, -⟩ := h.asks_install hask (.inl rfl)
    exact .install fun x hm => (hx x hm).2 hu
  | _ => exact .of_eq rfl rfl rfl

/-! ## Every run -/

omit [DecidableEq ι] [DecidableEq P] in
theorem inv_start (models : Registry V U) (proc : ι → P) (rows : String → Option (String × Nat)) :
    Inv proc (World.start models rows : World V P ι) fun _ => .idle := by
  refine ⟨?_, ?_, ?_, ?_, ?_, ?_, fun p name => ?_, List.Pairwise.nil, ?_⟩
  case refine_7 =>
    unfold World.installed World.start
    dsimp only
    cases models.model name <;> exact Nat.zero_le _
  all_goals
    intros
    contradiction

/-- What an update that has returned knows. -/
def Returned (calls : ι → Call U) (i : ι) (_ : Option (V × Nat)) (q : Phase) : Prop :=
  ∀ name values expected, calls i = .update name values expected → ∃ version, q = .committed name expected version

omit [DecidableEq ι] in
theorem call_asks (models : Registry V U) (calls : ι → Call U) (i : ι) :
    ((calls i).prog models).wp follow Asks (Returned calls i) (fun _ _ => True) .idle := by
  unfold Returned
  cases calls i with
  | update name values expected =>
    refine (Prog.wp_map _ _).2 (Prog.wp_mono (update_asks models name values expected) ?_ fun _ _ h => h)
    rintro a _ rfl _ _ _ ⟨⟩
    exact ⟨a.2, rfl⟩
  | refresh =>
    refine (Prog.wp_map _ _).2 (Prog.wp_mono (refresh_asks models) (fun _ _ _ => ?_) fun _ _ h => h)
    rintro _ _ _ ⟨⟩

omit [DecidableEq ι] [DecidableEq P] in
/-- No two saves of a section have one version. -/
theorem Inv.saved_once {w : World V P ι} {q : ι → Phase} (h : Inv proc w q) {a b : Saved ι} (ha : a ∈ w.log) (hb : b ∈ w.log)
    (hname : a.name = b.name) (hversion : a.version = b.version) : a = b := by
  by_contra hne
  let R : Saved ι → Saved ι → Prop := fun a b => a.name = b.name → a.version ≠ b.version
  have : Std.Symm R := ⟨fun _ _ hab hn he => hab hn.symm he.symm⟩
  have hne' : w.log.Pairwise R := h.ordered.imp fun hlt hn => Nat.ne_of_gt (hlt hn)
  exact hne'.forall ha hb hne hname hversion

/-- Where no call that found no row is overtaken by a first save, and nothing is installed
between what a call reads or commits and what it installs: of the updates that expect one
version one returns at most, every save stores a later version, and no snapshot goes back. -/
theorem saves_in_order (models : Registry V U) (calls : ι → Call U) (rows : String → Option (String × Nat))
    {c : Pool (ConfigOp.Res (V := V)) ConfigExn (Option (V × Nat)) (World V P ι) ι}
    (h : Pool.Reach (unhindered proc) (begun models calls rows) c) :
    (∀ i j name values values' expected, calls i = .update name values (some expected) →
      calls j = .update name values' (some expected) → (c.prog i).result.isSome = true → (c.prog j).result.isSome = true →
      i = j) ∧
      ∀ c', Pool.Step (unhindered proc) c c' → Forward c.world c'.world := by
  obtain ⟨q, hI, hq⟩ := Pool.reach_inv_ends (fun _ => follow) (fun _ => Asks) (Inv proc) (Returned calls) (fun _ _ _ => True)
    (fun _ q _ _ _ _ hI hask ht => ⟨_, rfl, hI.step hask ht⟩) (inv_start models proc rows) (call_asks models calls) h
  have hsaved : ∀ i name values expected, calls i = .update name values (some expected) → (c.prog i).result.isSome = true →
      ⟨i, name, some expected, expected + 1⟩ ∈ c.world.log := by
    intro i name values expected hcall hret
    obtain ⟨a, ha⟩ := Option.isSome_iff_exists.1 hret
    have hw := hq i
    rw [Prog.result_eq_some.1 ha] at hw
    obtain ⟨version, hv⟩ := hw name values (some expected) hcall
    have hlog := (hI.committed hv).1
    have hnext : version = expected + 1 := (hI.logged _ hlog).2 expected rfl
    rwa [hnext] at hlog
  refine ⟨fun i j name values values' expected hi hj hri hrj => ?_, fun c' hs => ?_⟩
  · have := hI.saved_once (hsaved i name values expected hi hri) (hsaved j name values' expected hj hrj) rfl rfl
    exact congrArg Saved.call this
  · obtain ⟨i, hk, ht⟩ := hs
    have hw := hq i
    rw [hk] at hw
    exact forward_step hI hw.1 ht

/-! ## First saves, and reads that are overtaken -/

/-- One section; its values do not matter. -/
def oneSection : Registry Unit Unit := [("rss", ⟨(), fun _ => some (), fun _ => "", fun _ _ => some ()⟩)]

/-- What a call is answered, in its turn; a lock that is held makes it give up. -/
def answer (proc : Bool → Bool) (i : Bool) (_ : Unit) (w : World Unit Bool Bool) :
    (op : ConfigOp Unit) → Except ConfigExn op.Res × World Unit Bool Bool
  | .acquire =>
    if w.writer (proc i) = none then (.ok (), { w with writer := Function.update w.writer (proc i) (some i) })
    else (.error .cancelled, w)
  | .release => (.ok (), { w with writer := Function.update w.writer (proc i) none })
  | .begin => (.ok (), w)
  | .selectForUpdate name =>
    match w.rows name with
    | none => (.ok (none : Option (String × Nat)), { w with missed := Function.update w.missed i true })
    | some row =>
      if w.holder name = none then
        (.ok (some row : Option (String × Nat)),
          { w with holder := Function.update w.holder name (some i), missed := Function.update w.missed i false })
      else (.error .database, w)
  | .upsert name json version =>
    if w.holder name = none ∨ w.holder name = some i then
      (.ok (),
        { w with
          holder := Function.update w.holder name (some i)
          pending := Function.update w.pending i (some (name, json, version)) })
    else (.error .database, w)
  | .commit expected => (.ok (), w.commit i expected)
  | .rollback => (.ok (), w.rollback i)
  | .install name value version => (.ok (), w.install proc i [(name, value, version)])
  | .fetch => (.ok (w.rows : String → Option (String × Nat)), { w with overtaken := Function.update w.overtaken i false })
  | .installAll sections => (.ok (), w.install proc i sections)

theorem answer_act (proc : Bool → Bool) (i : Bool) (t : Unit) (w : World Unit Bool Bool) (op : ConfigOp Unit) :
    Act proc i w op (answer proc i t w op).1 (answer proc i t w op).2 := by
  cases op with
  | acquire =>
    unfold answer
    dsimp only
    split
    · rename_i hfree
      exact .acquire hfree
    · exact .failed _ rfl
  | release => exact .release
  | begin => exact .begin
  | selectForUpdate name =>
    unfold answer
    dsimp only
    split
    · rename_i hrow
      exact .selectNone hrow
    · rename_i row hrow
      split
      · rename_i hfree
        exact .selectRow hrow hfree
      · exact .failed _ rfl
  | upsert name json version =>
    unfold answer
    dsimp only
    split
    · rename_i hfree
      refine .upsert fun j hj => ?_
      rcases hfree with h | h
      · rw [h] at hj
        cases hj
      · exact Option.some.inj (hj.symm.trans h)
    · exact .failed _ rfl
  | commit expected => exact .commit expected
  | rollback => exact .rollback _
  | install name value version => exact .install name value version
  | fetch => exact .fetch
  | installAll sections => exact .installAll sections

/-- Every call by its turns. -/
def play (proc : Bool → Bool) (calls : Bool → Call Unit) (turns : List Bool) :
    Pool (ConfigOp.Res (V := Unit)) ConfigExn (Option (Unit × Nat)) (World Unit Bool Bool) Bool :=
  (turns.map fun i => (i, ())).foldl (Pool.turn (answer proc)) (begun oneSection calls fun _ => none)

theorem reach_play (proc : Bool → Bool) (calls : Bool → Call Unit) (turns : List Bool) :
    Pool.Reach (Act proc) (begun oneSection calls fun _ => none) (play proc calls turns) :=
  Pool.reach_turns (answer_act proc) _ _

/-- One update in each of two processes. -/
def bothFirst : Bool → Call Unit := fun _ => .update "rss" () (some 0)

/-- The condition, decided. -/
def unhinderedNow (i : Bool) (w : World Unit Bool Bool) : ConfigOp Unit → Bool
  | .upsert name .. => !w.missed i || (w.rows name).isNone
  | .install .. | .installAll _ => !w.overtaken i
  | _ => true

theorem reach_play_unhindered (proc : Bool → Bool) (calls : Bool → Call Unit) (turns : List Bool)
    (h : Pool.turnsOk (answer proc) (fun i w op _ _ => unhinderedNow i w op) (turns.map fun i => (i, ()))
      (begun oneSection calls fun _ => none) = true) :
    Pool.Reach (unhindered proc) (begun oneSection calls fun _ => none) (play proc calls turns) := by
  refine Pool.reach_turnsOk (fun i w op _ _ => unhinderedNow i w op) (fun i t w op hop => ⟨answer_act proc i t w op, ?_⟩) h
  cases op with
  | upsert name json version =>
    intro hm
    simpa [unhinderedNow, hm] using hop
  | install | installAll => simpa [unhinderedNow, Unhindered] using hop
  | _ => trivial

/-- The first update returns; the second finds its row and is refused. -/
def inTurn : Pool (ConfigOp.Res (V := Unit)) ConfigExn (Option (Unit × Nat)) (World Unit Bool Bool) Bool :=
  play id bothFirst [false, false, false, false, false, false, false, true, true, true, true, true]

theorem saves_in_turn :
    (inTurn.prog false).result.isSome = true ∧ inTurn.world.stored "rss" = 1 ∧
      (∀ i j name values values' expected, bothFirst i = .update name values (some expected) →
        bothFirst j = .update name values' (some expected) → (inTurn.prog i).result.isSome = true →
        (inTurn.prog j).result.isSome = true → i = j) ∧
        ∀ c', Pool.Step (unhindered id) inTurn c' → Forward inTurn.world c'.world :=
  ⟨by decide, by decide,
    saves_in_order oneSection bothFirst (fun _ => none) (reach_play_unhindered id bothFirst _ (by decide))⟩

/-- Two processes save for the first time: both find no row, and both updates return. -/
theorem first_saves_both_return :
    ¬ ∀ c, Pool.Reach (Act id) (begun oneSection bothFirst fun _ => none) c →
      ∀ i j : Bool, (c.prog i).result.isSome = true → (c.prog j).result.isSome = true → i = j := by
  intro h
  have hne := h _ (reach_play id bothFirst
    [false, false, false, true, true, true, false, false, false, false, true, true, true, true]) false true
  revert hne
  decide

/-- A refresh and the first save of one process. -/
def rereadAndSave (i : Bool) : Call Unit := if i then .update "rss" () (some 0) else .refresh

/-- The refresh has read before the save, and installs after it. -/
theorem refresh_goes_back :
    ¬ ∀ c c', Pool.Reach (Act fun _ => true) (begun oneSection rereadAndSave fun _ => none) c →
      Pool.Step (Act fun _ => true) c c' → c.world.installed true "rss" ≤ c'.world.installed true "rss" := by
  intro h
  have hreach := reach_play (fun _ => true) rereadAndSave [false, true, true, true, true, true, true, true]
  have hle := h _ _ hreach (.act false rfl (Act.installAll [("rss", (), 0)]))
  revert hle
  decide

end EmbyxManager.Config
