import EmbyxManager.Monitor.Alone
import EmbyxManager.Monitor.Cadence
import EmbyxManager.Monitor.Untried
/-!
# An AVID nobody else works on

A program on one AVID while every other writer stays away from its rows. Between any two
actions the rest of the ledger may have become anything: another AVID may have taken a hash,
or let go of one.
-/

namespace EmbyxManager
open Atom Prog AcquisitionRepository Ledger

structure Moment where
  ledger : Ledger
  clock : Time

/-- No connection to the database fails, and a release date that cannot be looked up is none: the
finder catches whatever its search raises. -/
def steady : Policy
  | .sql _, .error (.failure _) => False
  | .ask (.releaseDate _), .error _ => False
  | _, _ => True

/-- What a program finds of the AVID is what it left. -/
def leftAlone (avid : Avid) : Env Op.Res Exn Moment := fun m op r m' =>
  m.clock ≤ m'.clock ∧ steady op r ∧ ∃ l, SameOf avid m.ledger l ∧ Answers m'.clock l op r m'.ledger

/-- A run alone in the world is one. -/
theorem runs_leftAlone {ι α : Type} {who : ι} {avid : Avid} {p : M α} {out : Except Exn α} {w w' : World ι}
    (h : p.Runs (World.Step steady who) w out w') :
    p.Runs (leftAlone avid) ⟨w.ledger, w.clock⟩ out ⟨w'.ledger, w'.clock⟩ := by
  induction h with
  | ret a w => exact .ret a _
  | raise e w => exact .raise e _
  | @act op k r w w₁ out w' ht _ ih =>
    obtain ⟨t, l, hclock, hsteady, hans, rfl⟩ := ht
    exact .act ⟨hclock, hsteady, _, .refl _ _, hans⟩ ih

namespace Moment

/-- Time has passed, and the AVID is as it was. -/
structure Passes (avid : Avid) (m m' : Moment) : Prop where
  same : SameOf avid m.ledger m'.ledger
  clock : m.clock ≤ m'.clock

theorem Passes.refl (avid : Avid) (m : Moment) : Passes avid m m := ⟨.refl _ _, le_rfl⟩

theorem Passes.trans {avid : Avid} {m m' m'' : Moment} (h : Passes avid m m') (h' : Passes avid m' m'') : Passes avid m m'' :=
  ⟨h.same.trans h'.same, h.clock.trans h'.clock⟩

/-- One of the untried attempts has been claimed. -/
structure Claimed (avid : Avid) (row : MagnetAttemptRecord) (m m' : Moment) : Prop where
  acq : m'.ledger.acq avid = m.ledger.acq avid
  was : ∃ r, m.ledger.att (avid, row.attemptNo) = some r ∧ r.state = .pending ∧ m.ledger.ownFree avid r = true
  now : m'.ledger.att (avid, row.attemptNo) = some row
  state : row.state = .submitted
  rest : ∀ n, n ≠ row.attemptNo → m'.ledger.att (avid, n) = m.ledger.att (avid, n)
  clock : m.clock ≤ m'.clock

theorem Claimed.trans {avid : Avid} {row : MagnetAttemptRecord} {m m' m'' : Moment} (h : Claimed avid row m m')
    (h' : Passes avid m' m'') : Claimed avid row m m'' where
  acq := h'.same.acq.trans h.acq
  was := h.was
  now := (h'.same.att _).trans h.now
  state := h.state
  rest n hn := (h'.same.att n).trans (h.rest n hn)
  clock := h.clock.trans h'.clock

theorem Passes.claimed {avid : Avid} {row : MagnetAttemptRecord} {m m' m'' : Moment} (h : Passes avid m m')
    (h' : Claimed avid row m' m'') : Claimed avid row m m'' where
  acq := h'.acq.trans h.same.acq
  was := by
    obtain ⟨r, hr, hp, hfree⟩ := h'.was
    rw [h.same.att] at hr
    rw [ownFree_congr h.same.att] at hfree
    exact ⟨r, hr, hp, hfree⟩
  now := h'.now
  state := h'.state
  rest n hn := (h'.rest n hn).trans (h.same.att n)
  clock := h.clock.trans h'.clock

end Moment

open Moment

/-- What a claim on a ledger with these rows comes to. -/
theorem claimed_of_gives {avid : Avid} {m m' : Moment} {l : Ledger} {at_ : Time} {o : Option MagnetAttemptRecord}
    (hsame : SameOf avid m.ledger l) (hclock : m.clock ≤ m'.clock) (hg : l.claimNextPending avid at_ = .ok (o, m'.ledger)) :
    (o = none ∧ Passes avid m m' ∧ l.nextPending avid = none) ∨
      ∃ row, o = some row ∧ Moment.Claimed avid row m m' ∧ l.nextPending avid = some row.attemptNo := by
  rcases claimNextPending_spec hg with ⟨rfl, hl, hn⟩ | ⟨n, r, hn, hr, hp, rfl, hacq, hatt⟩
  · exact .inl ⟨rfl, ⟨by rw [hl]; exact hsame, hclock⟩, hn⟩
  · obtain ⟨r', hr', -, hfree⟩ := nextPending_spec hn
    obtain rfl : r = r' := Option.some.inj (hr.symm.trans hr')
    have hno : (r.submittedBy at_).attemptNo = n := congrArg Prod.snd (att_key hr)
    rw [hsame.att] at hr
    refine .inr ⟨_, rfl, ⟨(hacq avid).trans hsame.acq, ⟨r, by rw [hno]; exact hr, hp, ?_⟩, ?_, rfl, fun k hk => ?_, hclock⟩, ?_⟩
    · rw [← ownFree_congr hsame.att]
      exact ownFree_of_hashFree hfree
    · rw [hno, hatt, if_pos rfl]
    · rw [hno] at hk
      rw [hatt, if_neg fun he => hk (congrArg Prod.snd he), hsame.att]
    · rw [hno]
      exact hn

/-! ## What the statements find -/

abbrev Anything {σ Op : Type} : σ → Op → Prop := fun _ _ => True

section rules
variable {avid : Avid} {T : Env Op.Res Exn Moment} {X : Exn → Moment → Prop} {m : Moment}
  (hT : ∀ m op r m', T m op r m' → leftAlone avid m op r m')
include hT

theorem wp_now_at {Q : Time → Moment → Prop} (hQ : ∀ m', Passes avid m m' → Q m'.clock m') : now.wp T Anything Q X m := by
  refine (wp_call _).2 ⟨trivial, fun t m' ht => ?_, fun e m' ht => ?_⟩
  · obtain ⟨hclock, -, l, hsame, ha, hl⟩ := hT _ _ _ _ ht
    obtain rfl : t = m'.clock := Except.ok.inj ha
    exact hQ m' ⟨by rw [hl]; exact hsame, hclock⟩
  · obtain ⟨-, -, l, -, ha, -⟩ := hT _ _ _ _ ht
    cases ha

theorem wp_ask_any {q : Query} {Q : q.Res → Moment → Prop} (hQ : ∀ a m', Passes avid m m' → Q a m')
    (hX : ∀ e m', Passes avid m m' → steady (.ask q) (.error e) → X e m') : (ask q).wp T Anything Q X m := by
  refine (wp_call _).2 ⟨trivial, fun a m' ht => ?_, fun e m' ht => ?_⟩
  · obtain ⟨hclock, -, l, hsame, hl⟩ := hT _ _ _ _ ht
    exact hQ a m' ⟨by rw [show m'.ledger = l from hl]; exact hsame, hclock⟩
  · obtain ⟨hclock, hsteady, l, hsame, -, hl⟩ := hT _ _ _ _ ht
    exact hX e m' ⟨by rw [hl]; exact hsame, hclock⟩ hsteady

/-- A statement that breaks no constraint is executed on some ledger with these rows. -/
theorem wp_statement (s : Sql) (hok : ∀ l, SameOf avid m.ledger l → ∃ a l', s.run l = .ok (a, l')) {Q : s.Res → Moment → Prop}
    (hQ : ∀ l a m', SameOf avid m.ledger l → m.clock ≤ m'.clock → s.Gives l a m'.ledger → Q a m') :
    (sql s).wp T Anything Q X m := by
  refine (wp_call _).2 ⟨trivial, fun a m' ht => ?_, fun e m' ht => ?_⟩
  · obtain ⟨hclock, -, l, hsame, hg⟩ := hT _ _ _ _ ht
    exact hQ l a m' hsame hclock hg
  · obtain ⟨-, hsteady, l, hsame, hfail⟩ := hT _ _ _ _ ht
    rcases hfail with ⟨herr, -⟩ | ⟨⟨msg, rfl⟩, -⟩
    · obtain ⟨a, l', hrun⟩ := hok l hsame
      rw [hrun] at herr
      cases herr
    · exact hsteady.elim

theorem wp_row {Q : Option AcquisitionRecord → Moment → Prop} (hQ : ∀ m', Passes avid m m' → Q (m.ledger.acq avid) m') :
    (get avid).wp T Anything Q X m := by
  refine wp_statement hT _ (fun l _ => Sql.run_isOk rfl l) fun l a m' hsame hclock hg => ?_
  simp only [Sql.Gives, Sql.run, Except.ok.injEq, Prod.mk.injEq] at hg
  rw [← hg.1, hsame.acq]
  exact hQ m' ⟨by rw [← hg.2]; exact hsame, hclock⟩

/-- A compare-and-set of the row from the state it is in. -/
theorem wp_moved {row : AcquisitionRecord} {target : AcquisitionState} {at_ : Time} {note : Option String} {next : Option Time}
    {Q : Bool → Moment → Prop} (hrow : m.ledger.acq avid = some row) (hedge : target ∈ row.state.edges)
    (hQ : ∀ row' m', m'.ledger.acq avid = some row' → row'.state = target → row'.nextActionAt = next → row'.updatedAt = at_ →
      (∀ n, m'.ledger.att (avid, n) = m.ledger.att (avid, n)) → m.clock ≤ m'.clock → Q true m') :
    (transition avid row.state target at_ note next).wp T Anything Q X m := by
  unfold transition
  rw [if_pos hedge]
  refine wp_statement hT _ (fun l _ => Sql.run_isOk rfl l) fun l won m' hsame hclock hg => ?_
  simp only [Sql.Gives, Sql.run, Except.ok.injEq] at hg
  have hl : (l.casAcquisition avid row.state target at_ note next none).2 = m'.ledger := congrArg Prod.snd hg
  have hrow' : l.acq avid = some row := hsame.acq.trans hrow
  have hwon : won = true := by
    rw [← show _ = won from congrArg Prod.fst hg]
    exact casAcquisition_fst.2 ⟨row, hrow', rfl⟩
  rw [hwon]
  refine hQ _ m' (by rw [← hl, acq_casAcquisition, hrow', Option.map_some, if_pos ⟨rfl, rfl⟩]) rfl rfl rfl (fun n => ?_) hclock
  rw [← hl, att_casAcquisition]
  exact hsame.att n

/-- The row gets the release date it lacks, if any. -/
theorem wp_ensureReleaseDate {lookup : Bool} {record row : AcquisitionRecord}
    (hrow : m.ledger.acq avid = some row) {Q : Option Date → Moment → Prop}
    (hQ : ∀ date row' m', m'.ledger.acq avid = some row' → row'.state = row.state →
      (∀ n, m'.ledger.att (avid, n) = m.ledger.att (avid, n)) → m.clock ≤ m'.clock → Q date m') :
    (ensureReleaseDate lookup record).wp T Anything Q X m := by
  unfold ensureReleaseDate
  refine wp_ite (fun _ => hQ _ row m hrow rfl (fun _ => rfl) le_rfl) fun _ => ?_
  refine (wp_bind _ _).2 (wp_ask_any hT (fun found m₁ h₁ => ?_) fun e m' _ hsteady => hsteady.elim)
  have hrow₁ : m₁.ledger.acq avid = some row := h₁.same.acq.trans hrow
  cases found with
  | none => exact hQ none row m₁ hrow₁ rfl h₁.same.att h₁.clock
  | some date =>
    refine (wp_bind _ _).2 ((wp_discard _).2 (wp_statement hT _ (fun l _ => Sql.run_isOk rfl l) fun l b m₂ hsame hclock hg => ?_))
    simp only [Sql.Gives, Sql.run, Except.ok.injEq] at hg
    have hl : (l.setReleaseDate record.avid date true).2 = m₂.ledger := congrArg Prod.snd hg
    have hacq := acq_setReleaseDate l record.avid date true avid
    rw [hl, hsame.acq, hrow₁, Option.map_some] at hacq
    refine hQ _ _ m₂ hacq ?_ (fun n => ?_) (h₁.clock.trans hclock)
    · split <;> rfl
    · rw [← hl, att_setReleaseDate, hsame.att, h₁.same.att]

/-- The claim: nothing to take, or an untried attempt taken. -/
theorem wp_claim {at_ : Time} {Q : Option MagnetAttemptRecord → Moment → Prop} (hnone : ∀ m', Passes avid m m' → Q none m')
    (hsome : ∀ row m', Moment.Claimed avid row m m' → Q (some row) m') :
    (AcquisitionRepository.claimNextPending avid at_).wp T Anything Q X m := by
  unfold AcquisitionRepository.claimNextPending claimRetries claimLoop
  refine (wp_bind _ _).2 ((wp_attempt _).2 (wp_statement hT (.claimNextPending avid at_) (fun l _ => claimNextPending_isOk l _ _)
    fun l o m' hsame hclock hg => ?_))
  rcases claimed_of_gives hsame hclock hg with ⟨rfl, hpass, -⟩ | ⟨row, rfl, hclaimed, -⟩
  · exact hnone m' hpass
  · exact hsome row m' hclaimed

/-- The claimed attempt is given up. -/
theorem wp_refused {claimed : MagnetAttemptRecord} {m₀ : Moment} {at_ : Time} {error : Option String}
    (hclaimed : Moment.Claimed avid claimed m₀ m) {Q : Bool → Moment → Prop}
    (hQ : ∀ m', Refusal avid claimed.attemptNo m₀.ledger m'.ledger → m₀.clock ≤ m'.clock → Q true m') :
    (transitionAttempt avid claimed.attemptNo .submitted .error at_ error).wp T Anything Q X m := by
  unfold transitionAttempt
  rw [if_pos (by decide)]
  refine wp_statement hT (.casAttempt avid claimed.attemptNo .submitted .error at_ error)
    (fun l _ => casAttempt_isOk (by decide) (by decide)) fun l won m' hsame hclock hg => ?_
  obtain ⟨hacq, hatt, hwon⟩ := casAttempt_spec hg
  have hnow : l.att (avid, claimed.attemptNo) = some claimed := (hsame.att _).trans hclaimed.now
  have hrow' : won = true := hwon.2 ⟨claimed, hnow, hclaimed.state⟩
  rw [hrow']
  refine hQ m' ⟨(hacq avid).trans (hsame.acq.trans hclaimed.acq), hclaimed.was,
    ⟨{ claimed with state := .error, error := error, updatedAt := at_ }, ?_, rfl⟩, fun n hn => ?_⟩
    (hclaimed.clock.trans hclock)
  · rw [hatt, hnow, Option.map_some, if_pos ⟨rfl, hclaimed.state⟩]
  · rw [hatt, hsame.att, hclaimed.rest n hn]
    have hother : ∀ r : MagnetAttemptRecord, ¬((avid, n) = (avid, claimed.attemptNo) ∧ r.state = .submitted) :=
      fun r he => hn (congrArg Prod.snd he.1)
    simp only [hother, if_false, Option.map_id_fun', id]

end rules

/-! ## A world that refuses every magnet -/

/-- No hash is held elsewhere, and the answers are computed. -/
def refusing (avid : Avid) (out : World.Outside) : Env Op.Res Exn Moment := fun m op r m' =>
  (r, m'.ledger) = World.reply m.clock out (m.ledger.settledElsewhere avid) op ∧ m'.clock = m.clock

section refusing
variable {avid : Avid} {out : World.Outside} {X : Exn → Moment → Prop} {m : Moment}

theorem wp_answered {q : Query} {a : q.Res} (ha : out q = .ok a) {Q : q.Res → Moment → Prop}
    (hQ : ∀ m', Passes avid m m' → Q a m') : (ask q).wp (refusing avid out) Anything Q X m := by
  have hreply : World.reply m.clock out (m.ledger.settledElsewhere avid) (.ask q) = (.ok a, m.ledger.settledElsewhere avid) := by
    simp only [World.reply, ha]
    rfl
  refine (wp_call _).2 ⟨trivial, fun a' m' ht => ?_, fun e m' ht => ?_⟩
  · obtain ⟨hr, hclock⟩ := ht
    rw [hreply] at hr
    obtain rfl : a' = a := Except.ok.inj (congrArg Prod.fst hr)
    refine hQ m' ⟨?_, hclock.ge⟩
    rw [show m'.ledger = _ from congrArg Prod.snd hr]
    exact sameOf_settledElsewhere
  · obtain ⟨hr, -⟩ := ht
    rw [hreply] at hr
    cases congrArg Prod.fst hr

end refusing

end EmbyxManager
