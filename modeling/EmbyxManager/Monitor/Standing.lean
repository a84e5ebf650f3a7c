import Mathlib.Data.Set.Insert
import EmbyxManager.Monitor.Alone
/-!
# Where an AVID stands

For what the two tables must agree on, an AVID comes down to the state of its
acquisition and the numbers of its live attempts. A statement leaves every
standing as it is, or moves that of the one AVID it names; here is how, with what
it answers, and the same for the repository's programs in a run alone.
-/

namespace EmbyxManager
open Atom Prog AcquisitionRepository

structure Standing where
  /-- None when there is no acquisition. -/
  state : Option AcquisitionState
  live : Set Nat

namespace Ledger

def standing (l : Ledger) (a : Avid) : Standing where
  state := (l.acq a).map (·.state)
  live := {n | ∃ r, l.att (a, n) = some r ∧ r.Live}

theorem mem_live {l : Ledger} {a : Avid} {n : Nat} : n ∈ (l.standing a).live ↔ ∃ r, l.att (a, n) = some r ∧ r.Live := .rfl

theorem state_eq {l : Ledger} {a : Avid} {st : AcquisitionState} :
    (l.standing a).state = some st ↔ ∃ row, l.acq a = some row ∧ row.state = st := Option.map_eq_some_iff

theorem state_none {l : Ledger} {a : Avid} : (l.standing a).state = none ↔ l.acq a = none := Option.map_eq_none_iff

/-- An attempt belongs to an acquisition. -/
theorem standing_unknown {l : Ledger} {a : Avid} (h : l.acq a = none) : l.standing a = ⟨none, ∅⟩ := by
  have hlive : (l.standing a).live = ∅ := by
    refine Set.eq_empty_of_forall_notMem fun n hn => ?_
    obtain ⟨r, hr, -⟩ := hn
    have howned := l.owned r (mem_of_att hr)
    rw [show r.avid = a from congrArg Prod.fst (att_key hr)] at howned
    change (l.acq a).isSome = true at howned
    rw [h] at howned
    cases howned
  rw [← state_none] at h
  rw [← h, ← hlive]

theorem standing_empty (a : Avid) : Ledger.empty.standing a = ⟨none, ∅⟩ := standing_unknown rfl

theorem standing_congr {l l' : Ledger} {a : Avid} (hacq : (l'.acq a).map (·.state) = (l.acq a).map (·.state))
    (hlive : ∀ n, (∃ r, l'.att (a, n) = some r ∧ r.Live) ↔ ∃ r, l.att (a, n) = some r ∧ r.Live) :
    l'.standing a = l.standing a := by
  unfold standing
  rw [hacq, Set.ext hlive]

end Ledger

/-! ## Statements -/

namespace Sql

/-- The statement moves nobody: it reads, fills in a column, appends pending attempts or refreshes one in flight. -/
def idle : Sql → Bool
  | insertAcquisition .. | casAcquisition .. | beginReplacement .. | claimNextPending .. | claimAttempt ..
  | casAttempt .. => false
  | recordProgress _ _ state _ _ => state ∈ AttemptState.inFlight
  | _ => true

section Standings
variable {s : Sql} {l l' : Ledger} {a : Avid} {n : Nat} {at_ : Time}

theorem standing_idle {x : s.Res} (h : s.Gives l x l') (hs : s.idle = true) : l'.standing = l.standing := by
  funext a
  refine Ledger.standing_congr ?_ fun n => ?_
  · by_cases hrow : s.row = some a
    · cases s with
      | insertAcquisition | casAcquisition | beginReplacement => cases hs
      | setReleaseDate =>
        simp only [Gives, run, Except.ok.injEq] at h
        rw [← show _ = l' from congrArg Prod.snd h, Ledger.acq_setReleaseDate, Option.map_map]
        refine congrArg (Option.map · _) (funext fun r => ?_)
        dsimp only [Function.comp]
        split <;> rfl
      | setTaskDir | setNextActionAt =>
        simp only [Gives, run, Except.ok.injEq, Prod.mk.injEq] at h
        rw [← h.2]
        first | rw [Ledger.acq_setTaskDir, Option.map_map] | rw [Ledger.acq_setNextActionAt, Option.map_map]
        refine congrArg (Option.map · _) (funext fun r => ?_)
        dsimp only [Function.comp]
        split <;> rfl
      | _ => cases hrow
    · rw [acq_frame h hrow]
  · constructor
    · rintro ⟨r', hr', hl⟩
      cases hr : l.att (a, n) with
      | none => exact absurd hl (by simp [MagnetAttemptRecord.Live, att_new h hr hr', AttemptState.live])
      | some r =>
        refine ⟨r, rfl, ?_⟩
        obtain ⟨r₁, hr₁, heff⟩ := att_effect h hr
        rw [hr'] at hr₁
        cases hr₁
        cases heff with
        | same => exact hl
        | claimed now hc hp => rcases hc with rfl | rfl <;> cases hs
        | moved hc he => subst hc; cases hs
        | progressed hc hf => exact Ledger.live_of_inFlight hf
    · rintro ⟨r, hr, hl⟩
      obtain ⟨r', hr', heff⟩ := att_effect h hr
      refine ⟨r', hr', ?_⟩
      cases heff with
      | same => exact hl
      | claimed now hc hp => rcases hc with rfl | rfl <;> cases hs
      | moved hc he => subst hc; cases hs
      | progressed hc hf =>
        subst hc
        exact Ledger.live_of_inFlight (of_decide_eq_true hs)

/-- What a statement on the acquisition of `a` can move. -/
theorem standing_row {x : s.Res} {st : Option AcquisitionState} (h : s.Gives l x l') (hs : s.writesAttempts = false)
    (hrow : s.row = some a) (hst : (l'.acq a).map (·.state) = st) :
    l'.standing = Function.update l.standing a { l.standing a with state := st } := by
  have hatt := att_frame h hs
  funext b
  by_cases hb : b = a
  · subst hb
    rw [Function.update_self, ← hst]
    unfold Ledger.standing
    simp only [hatt]
  · rw [Function.update_of_ne hb]
    refine Ledger.standing_congr ?_ fun n => by rw [hatt]
    rw [acq_frame h (by rw [hrow]; exact fun he => hb (Option.some.inj he).symm)]

theorem standing_row_same {x : s.Res} (h : s.Gives l x l') (hs : s.writesAttempts = false) (hrow : s.row = some a)
    (hst : (l'.acq a).map (·.state) = (l.standing a).state) : l'.standing = l.standing := by
  rw [standing_row h hs hrow hst]
  exact Function.update_eq_self ..

theorem standing_cas {e t : AcquisitionState} {note next paths won}
    (h : (Sql.casAcquisition a e t at_ note next paths).Gives l won l') :
    (won = true ∧ (l.standing a).state = some e ∧
        l'.standing = Function.update l.standing a { l.standing a with state := some t }) ∨
      won = false ∧ (l.standing a).state ≠ some e ∧ l'.standing = l.standing := by
  have hacq : l'.acq = (l.casAcquisition a e t at_ note next paths).2.acq := by
    simp only [Gives, run, Except.ok.injEq] at h
    rw [h]
  have hwon : won = true ↔ ∃ r, l.acq a = some r ∧ r.state = e := by
    simp only [Gives, run, Except.ok.injEq] at h
    rw [← show _ = won from congrArg Prod.fst h]
    exact Ledger.casAcquisition_fst
  by_cases hst : (l.standing a).state = some e
  · obtain ⟨row, hrow, hr⟩ := Ledger.state_eq.1 hst
    refine .inl ⟨hwon.2 ⟨row, hrow, hr⟩, hst, standing_row h rfl rfl ?_⟩
    rw [hacq, Ledger.acq_casAcquisition, hrow, Option.map_some, if_pos ⟨rfl, hr⟩]
    rfl
  · have hno : ¬ ∃ r, l.acq a = some r ∧ r.state = e := fun hex => hst (Ledger.state_eq.2 hex)
    refine .inr ⟨Bool.eq_false_iff.2 fun ht => hno (hwon.1 ht), hst, standing_row_same h rfl rfl ?_⟩
    rw [hacq, Ledger.acq_casAcquisition]
    cases hrow : l.acq a with
    | none => rw [Ledger.state_none.2 hrow]; rfl
    | some row =>
      rw [Option.map_some, if_neg fun hc => hno ⟨row, hrow, hc.2⟩, ← hrow]
      rfl

/-- One attempt of `a` becomes live or not, and nothing else happens. -/
theorem standing_attempt {r' : MagnetAttemptRecord} (hacq : ∀ b, l'.acq b = l.acq b)
    (hatt : ∀ k, l'.att k = if k = (a, n) then some r' else l.att k) :
    l'.standing = Function.update l.standing a
      { l.standing a with live := if r'.Live then insert n (l.standing a).live else (l.standing a).live \ {n} } := by
  funext b
  by_cases hb : b = a
  · subst hb
    rw [Function.update_self]
    unfold Ledger.standing
    rw [hacq]
    congr 1
    ext m
    rw [Set.mem_ofPred_eq, hatt]
    by_cases hm : m = n
    · subst hm
      by_cases hl : r'.Live
      · simp [hl]
      · simp [hl]
    · have hne : ((b, m) : AttemptKey) ≠ (b, n) := fun he => hm (Prod.mk.inj he).2
      rw [if_neg hne]
      by_cases hl : r'.Live
      · simp [hl, hm]
      · simp [hl, hm]
  · rw [Function.update_of_ne hb]
    refine Ledger.standing_congr (by rw [hacq]) fun m => ?_
    rw [hatt, if_neg fun he => hb (Prod.mk.inj he).1]

theorem submittedBy_live (r : MagnetAttemptRecord) (now : Time) : (r.submittedBy now).Live := by
  simp [MagnetAttemptRecord.Live, MagnetAttemptRecord.submittedBy, AttemptState.live]

/-- The ledger after this attempt has been taken. -/
structure Taken (l : Ledger) (a : Avid) (row : MagnetAttemptRecord) (l' : Ledger) : Prop where
  avid : row.avid = a
  fresh : row.attemptNo ∉ (l.standing a).live
  submitted : ∃ r, l'.att (a, row.attemptNo) = some r ∧ r.state = .submitted
  standing : l'.standing = Function.update l.standing a
    { l.standing a with live := insert row.attemptNo (l.standing a).live }

theorem taken_of_spec {r : MagnetAttemptRecord} (hr : l.att (a, n) = some r) (hp : r.state = .pending)
    (hacq : ∀ b, l'.acq b = l.acq b) (hatt : ∀ k, l'.att k = if k = (a, n) then some (r.submittedBy at_) else l.att k) :
    Taken l a (r.submittedBy at_) l' := by
  have hkey := Ledger.att_key hr
  have hno : (r.submittedBy at_).attemptNo = n := congrArg Prod.snd hkey
  refine ⟨congrArg Prod.fst hkey, ?_, ⟨r.submittedBy at_, ?_, rfl⟩, ?_⟩
  · rw [hno]
    rintro ⟨r₁, hr₁, hl⟩
    rw [hr] at hr₁
    cases hr₁
    exact absurd hl (by simp [MagnetAttemptRecord.Live, hp, AttemptState.live])
  · rw [hno, hatt, if_pos rfl]
  · rw [standing_attempt hacq hatt, if_pos (submittedBy_live r at_), hno]

theorem standing_claimNext {o} (h : (Sql.claimNextPending a at_).Gives l o l') :
    (o = none ∧ l'.standing = l.standing) ∨ ∃ row, o = some row ∧ Taken l a row l' := by
  rcases Ledger.claimNextPending_spec h with ⟨ho, rfl, -⟩ | ⟨n, r, -, hr, hp, ho, hacq, hatt⟩
  · exact .inl ⟨ho, rfl⟩
  · exact .inr ⟨_, ho, taken_of_spec hr hp hacq hatt⟩

theorem standing_claim {o} (h : (Sql.claimAttempt a n at_).Gives l o l') :
    (o = none ∧ l'.standing = l.standing) ∨ ∃ row, o = some row ∧ Taken l a row l' := by
  obtain ⟨hacq, hatt, ho⟩ := Ledger.claimAttempt_spec h
  cases o with
  | none =>
    refine .inl ⟨rfl, funext fun b => Ledger.standing_congr (by rw [hacq]) fun m => ?_⟩
    rw [hatt]
    cases hr : l.att (b, m) with
    | none => rfl
    | some r =>
      rw [Option.map_some, if_neg]
      rintro ⟨hk, hp⟩
      rw [hk] at hr
      cases (ho (r.submittedBy at_)).2 ⟨r, hr, hp, rfl⟩
  | some row =>
    obtain ⟨r, hr, hp, rfl⟩ := (ho row).1 rfl
    refine .inr ⟨_, rfl, taken_of_spec hr hp hacq fun k => ?_⟩
    rw [hatt]
    by_cases hk : k = (a, n)
    · subst hk
      rw [hr, Option.map_some, if_pos ⟨rfl, hp⟩, if_pos rfl]
    · rw [if_neg hk]
      cases l.att k with
      | none => rfl
      | some r => rw [Option.map_some, if_neg fun hc => hk hc.1]

theorem standing_casAttempt {e t : AttemptState} {error won} (h : (Sql.casAttempt a n e t at_ error).Gives l won l') :
    (won = true ∧ (∃ r, l.att (a, n) = some r ∧ r.state = e) ∧ (∃ r, l'.att (a, n) = some r ∧ r.state = t) ∧
        l'.standing = Function.update l.standing a
          { l.standing a with live := if t ∈ AttemptState.live then insert n (l.standing a).live else (l.standing a).live \ {n} }) ∨
      won = false ∧ (∀ r, l.att (a, n) = some r → r.state ≠ e) ∧ l'.standing = l.standing := by
  obtain ⟨hacq, hatt, hwon⟩ := Ledger.casAttempt_spec h
  cases won with
  | true =>
    obtain ⟨r, hr, he⟩ := hwon.1 rfl
    have hatt' : ∀ k, l'.att k = if k = (a, n) then some { r with state := t, error := error, updatedAt := at_ } else l.att k := by
      intro k
      rw [hatt]
      by_cases hk : k = (a, n)
      · subst hk
        rw [hr, Option.map_some, if_pos ⟨rfl, he⟩, if_pos rfl]
      · rw [if_neg hk]
        cases l.att k with
        | none => rfl
        | some r => rw [Option.map_some, if_neg fun hc => hk hc.1]
    exact .inl ⟨rfl, ⟨r, hr, he⟩, ⟨_, (hatt' _).trans (if_pos rfl), rfl⟩, standing_attempt hacq hatt'⟩
  | false =>
    have hno : ∀ r, l.att (a, n) = some r → r.state ≠ e := fun r hr he => by cases hwon.2 ⟨r, hr, he⟩
    refine .inr ⟨rfl, hno, funext fun b => Ledger.standing_congr (by rw [hacq]) fun m => ?_⟩
    rw [hatt]
    cases hr : l.att (b, m) with
    | none => rfl
    | some r =>
      rw [Option.map_some, if_neg]
      rintro ⟨hk, he⟩
      rw [hk] at hr
      exact hno r hr he

end Standings

end Sql

/-! ## Programs alone -/

/-- The action moves no standing. -/
def Op.idle : Op → Bool
  | .sql s => s.idle
  | _ => true

/-- The action may move an acquisition. -/
def Op.movesRow : Op → Bool
  | .sql (.casAcquisition ..) | .sql (.beginReplacement ..) => true
  | _ => false

theorem idle_movesRow {op : Op} (h : op.idle = true) : op.movesRow = false := by
  cases op with
  | sql s =>
    cases s with
    | casAcquisition | beginReplacement => cases h
    | _ => rfl
  | _ => rfl

theorem standing_answers {t : Time} {l l' : Ledger} {op : Op} {r : Except Exn op.Res} (h : Answers t l op r l')
    (hop : op.idle = true) : l'.standing = l.standing := by
  rcases answers_ledger h with rfl | ⟨s, x, rfl, hg⟩
  · rfl
  · exact Sql.standing_idle hg hop

/-- Nobody else acts: what is answered is what the ledger gives, `X` holds where a connection
fails, and the guard is about moves of acquisitions alone. -/
structure Answering {ι : Type} (T : Env Op.Res Exn (World ι)) (G : World ι → Op → Prop) (X : Exn → World ι → Prop) :
    Prop where
  answers : ∀ {w op r w'}, T w op r w' → ∃ t, Answers t w.ledger op r w'.ledger
  fails : ∀ {w s m w'}, T w (.sql s) (.error (.failure m)) w' → X (.failure m) w'
  guards : ∀ w op, op.movesRow = false → G w op

section Answering
variable {ι α : Type} {T : Env Op.Res Exn (World ι)} {G : World ι → Op → Prop} {X : Exn → World ι → Prop} {w : World ι}
  {a : Avid} {at_ : Time}

theorem Answering.wp_idle (h : Answering T G X) {p : M α} (hp : Uses (fun op => op.idle = true) p) {Q : α → World ι → Prop}
    (hQ : ∀ x w', w'.ledger.standing = w.ledger.standing → Q x w')
    (hX : ∀ e w', w'.ledger.standing = w.ledger.standing → X e w') : p.wp T G Q X w := by
  refine wp_mono (keeps_of_uses (I := fun w' => w'.ledger.standing = w.ledger.standing) hp
    (fun w' op hop _ => h.guards w' op (idle_movesRow hop)) (fun w₁ op r w₂ hop hI ht => ?_) w rfl) hQ hX
  obtain ⟨t, ha⟩ := h.answers ht
  exact (standing_answers ha hop).trans hI

/-- A statement without constraints to break. -/
theorem Answering.wp_sql (h : Answering T G X) {s : Sql} (hs : s.writesAttempts = false) (hG : G w (.sql s))
    {Q : s.Res → World ι → Prop} (hQ : ∀ x w', s.Gives w.ledger x w'.ledger → Q x w') : (sql s).wp T G Q X w := by
  rw [wp_call]
  refine ⟨hG, fun x w' ht => ?_, fun e w' ht => ?_⟩
  · obtain ⟨t, ha⟩ := h.answers ht
    exact hQ x w' ha
  · obtain ⟨t, ⟨ha, -⟩ | ⟨⟨m, rfl⟩, -⟩⟩ := h.answers ht
    · obtain ⟨x, l', hok⟩ := Sql.run_isOk hs w.ledger
      rw [ha] at hok
      cases hok
    · exact h.fails ht

theorem Answering.wp_get (h : Answering T G X) {Q : Option AcquisitionRecord → World ι → Prop}
    (hQ : ∀ w', w'.ledger = w.ledger → Q (w.ledger.acq a) w') : (get a).wp T G Q X w := by
  refine h.wp_sql rfl (h.guards _ _ rfl) fun x w' hg => ?_
  simp only [Sql.Gives, Sql.run, Except.ok.injEq, Prod.mk.injEq] at hg
  rw [← hg.1]
  exact hQ w' hg.2.symm

theorem Answering.wp_transition (h : Answering T G X) {e t : AcquisitionState} {note : Option String} {next : Option Time}
    {paths : Option (List String)} {Q : Bool → World ι → Prop}
    (hG : G w (.sql (.casAcquisition a e t at_ note next paths)))
    (hwon : ∀ w', (w.ledger.standing a).state = some e →
      w'.ledger.standing = Function.update w.ledger.standing a { w.ledger.standing a with state := some t } → Q true w')
    (hlost : ∀ w', (w.ledger.standing a).state ≠ some e → w'.ledger.standing = w.ledger.standing → Q false w')
    (hill : t ∉ e.edges → X (.illegalAcquisition e t) w) : (transition a e t at_ note next paths).wp T G Q X w := by
  unfold transition
  refine wp_ite (fun _ => h.wp_sql rfl hG fun won w' hg => ?_) fun hedge => hill hedge
  rcases Sql.standing_cas hg with ⟨rfl, hst, hmoved⟩ | ⟨rfl, hst, hsame⟩
  · exact hwon w' hst hmoved
  · exact hlost w' hst hsame

theorem Answering.wp_transitionAttempt (h : Answering T G X) {n : Nat} {e t : AttemptState} {error : Option String}
    {Q : Bool → World ι → Prop} (he : e ≠ .pending)
    (hwon : ∀ w', (∃ r, w.ledger.att (a, n) = some r ∧ r.state = e) → (∃ r, w'.ledger.att (a, n) = some r ∧ r.state = t) →
      w'.ledger.standing = Function.update w.ledger.standing a
        { w.ledger.standing a with
          live := if t ∈ AttemptState.live then insert n (w.ledger.standing a).live else (w.ledger.standing a).live \ {n} } →
      Q true w')
    (hlost : ∀ w', (∀ r, w.ledger.att (a, n) = some r → r.state ≠ e) → w'.ledger.standing = w.ledger.standing → Q false w')
    (hill : t ∉ e.edges → X (.illegalAttempt e t) w) : (transitionAttempt a n e t at_ error).wp T G Q X w := by
  unfold transitionAttempt
  refine wp_ite (fun hedge => ?_) fun hedge => hill hedge
  rw [wp_call]
  refine ⟨h.guards _ _ rfl, fun won w' ht => ?_, fun e' w' ht => ?_⟩
  · obtain ⟨_, ha⟩ := h.answers ht
    rcases Sql.standing_casAttempt ha with ⟨rfl, hr, hr', hmoved⟩ | ⟨rfl, hr, hsame⟩
    · exact hwon w' hr hr' hmoved
    · exact hlost w' hr hsame
  · obtain ⟨_, ⟨ha, -⟩ | ⟨⟨m, rfl⟩, -⟩⟩ := h.answers ht
    · have hok : ∃ b l', w.ledger.casAttempt a n e t at_ error = .ok (b, l') := Ledger.casAttempt_isOk hedge he
      obtain ⟨b, l', hok⟩ := hok
      change w.ledger.casAttempt a n e t at_ error = .error e' at ha
      rw [hok] at ha
      cases ha
    · exact h.fails ht

/-- A claim that raises has taken nothing, unless its connection failed. -/
theorem Answering.wp_claimNextPending (h : Answering T G X) {Q : Option MagnetAttemptRecord → World ι → Prop}
    (hnone : ∀ w', w'.ledger.standing = w.ledger.standing → Q none w')
    (hsome : ∀ row w', Sql.Taken w.ledger a row w'.ledger → Q (some row) w')
    (hX : ∀ e w', w'.ledger.standing = w.ledger.standing → X e w') : (claimNextPending a at_).wp T G Q X w := by
  unfold claimNextPending
  generalize claimRetries = n
  have main : ∀ w₁, w₁.ledger = w.ledger → (claimLoop a at_ n).wp T G Q X w₁ := by
    induction n with
    | zero => exact fun w₁ hl => hnone w₁ (by rw [hl])
    | succ n ih =>
      intro w₁ hl
      unfold claimLoop
      rw [wp_bind, wp_attempt, wp_call]
      refine ⟨h.guards _ _ rfl, fun o w₂ ht => ?_, fun e w₂ ht => ?_⟩
      · obtain ⟨t, ha⟩ := h.answers ht
        rcases Sql.standing_claimNext ha with ⟨rfl, hsame⟩ | ⟨row, rfl, htaken⟩
        · exact hnone w₂ (by rw [hsame, hl])
        · exact hsome row w₂ (hl ▸ htaken)
      · obtain ⟨t, ⟨-, hsame⟩ | ⟨⟨m, rfl⟩, -⟩⟩ := h.answers ht
        · cases e with
          | uniqueViolation => exact ih w₂ (hsame.trans hl)
          | _ => exact hX _ w₂ (by rw [hsame, hl])
        · exact h.fails ht
  exact main w rfl

theorem Answering.wp_claimAttempt (h : Answering T G X) {n : Nat} {Q : Option MagnetAttemptRecord → World ι → Prop}
    (hnone : ∀ w', w'.ledger.standing = w.ledger.standing → Q none w')
    (hsome : ∀ row w', Sql.Taken w.ledger a row w'.ledger → Q (some row) w')
    (hX : ∀ e w', w'.ledger.standing = w.ledger.standing → X e w') : (claimAttempt a n at_).wp T G Q X w := by
  unfold claimAttempt
  rw [wp_bind, wp_attempt, wp_call]
  refine ⟨h.guards _ _ rfl, fun o w' ht => ?_, fun e w' ht => ?_⟩
  · obtain ⟨t, ha⟩ := h.answers ht
    rcases Sql.standing_claim ha with ⟨rfl, hsame⟩ | ⟨row, rfl, htaken⟩
    · exact hnone w' hsame
    · exact hsome row w' htaken
  · obtain ⟨t, ⟨-, hsame⟩ | ⟨⟨m, rfl⟩, -⟩⟩ := h.answers ht
    · cases e <;> exact hX _ w' (by rw [hsame])
    · exact h.fails ht

end Answering

end EmbyxManager
