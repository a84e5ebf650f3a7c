import EmbyxManager.Monitor.World
/-!
# What an action can do to a row

A statement writes one of the two tables, and there at most one row it names.
Every invariant of the ledger goes through the two lemmas here: what a
statement makes of an attempt that is there, and of an acquisition that is
there. A row that was not there can only have been inserted.
-/

namespace EmbyxManager
open Atom

namespace Sql

/-- The statements that write `archive_magnet_attempts`. -/
def writesAttempts : Sql → Bool
  | addAttempts .. | claimNextPending .. | claimAttempt .. | casAttempt .. | recordProgress .. => true
  | _ => false

/-- The AVID whose row in `archive_acquisitions` the statement writes. -/
def row : Sql → Option Avid
  | insertAcquisition a .. | setReleaseDate a .. | setTaskDir a .. | setNextActionAt a .. | casAcquisition a ..
  | beginReplacement a .. => some a
  | _ => none

/-- The AVID whose attempts the statement writes. -/
def attemptsOf : Sql → Option Avid
  | addAttempts a .. | claimNextPending a .. | claimAttempt a .. | casAttempt a .. | recordProgress a .. => some a
  | _ => none

theorem attemptsOf_eq_none {s : Sql} (h : s.writesAttempts = false) : s.attemptsOf = none := by
  cases s with
  | addAttempts | claimNextPending | claimAttempt | casAttempt | recordProgress => cases h
  | _ => rfl

section Effects
variable {s : Sql} {l l' : Ledger} {a : s.Res}

theorem att_frame (h : s.Gives l a l') (hs : s.writesAttempts = false) (k : AttemptKey) : l'.att k = l.att k := by
  cases s with
  | addAttempts | claimNextPending | claimAttempt | casAttempt | recordProgress => cases hs
  | attemptsByInfoHash => rw [h.2]
  | insertAcquisition | setReleaseDate | casAcquisition | beginReplacement =>
    simp only [Gives, run, Except.ok.injEq] at h
    rw [← show _ = l' from congrArg Prod.snd h]
    simp
  | setTaskDir | setNextActionAt =>
    simp only [Gives, run, Except.ok.injEq, Prod.mk.injEq] at h
    rw [← h.2]
    simp
  | _ =>
    simp only [Gives, run, Except.ok.injEq, Prod.mk.injEq] at h
    rw [h.2]

/-- What a statement can make of an attempt. -/
inductive AttemptEffect (s : Sql) (k : AttemptKey) (r : MagnetAttemptRecord) : MagnetAttemptRecord → Prop
  | same : AttemptEffect s k r r
  | claimed (now : Time) : s = .claimNextPending k.1 now ∨ s = .claimAttempt k.1 k.2 now → r.state = .pending →
      AttemptEffect s k r (r.submittedBy now)
  | moved {expected target : AttemptState} {now : Time} {error : Option String} :
      s = .casAttempt k.1 k.2 expected target now error → r.state = expected →
      AttemptEffect s k r { r with state := target, error, updatedAt := now }
  | progressed {state : AttemptState} {progress : Option Rat} {now : Time} :
      s = .recordProgress k.1 k.2 state progress now → r.state ∈ AttemptState.inFlight →
      AttemptEffect s k r { r with state, progress, updatedAt := now }

theorem att_effect (h : s.Gives l a l') {k : AttemptKey} {r : MagnetAttemptRecord} (hr : l.att k = some r) :
    ∃ r', l'.att k = some r' ∧ AttemptEffect s k r r' := by
  cases s with
  | addAttempts avid cs now => exact ⟨r, (Ledger.addAttempts_spec h).2.1 k r hr, .same⟩
  | claimNextPending avid now =>
    -- nothing was claimed, or one row was
    rcases Ledger.claimNextPending_spec h with ⟨-, rfl, -⟩ | ⟨n, r₁, -, hr₁, hp, -, -, hk⟩
    · exact ⟨r, hr, .same⟩
    · rw [hk]
      by_cases he : k = (avid, n)
      · subst he
        rw [hr] at hr₁
        cases hr₁
        exact ⟨_, if_pos rfl, .claimed now (.inl rfl) hp⟩
      · rw [if_neg he]
        exact ⟨r, hr, .same⟩
  | claimAttempt avid no now =>
    rw [(Ledger.claimAttempt_spec h).2.1, hr, Option.map_some]
    refine ⟨_, rfl, ?_⟩
    split
    · rename_i hc
      obtain ⟨rfl, hp⟩ := hc
      exact .claimed now (.inr rfl) hp
    · exact .same
  | casAttempt avid no expected target now error =>
    rw [(Ledger.casAttempt_spec h).2.1, hr, Option.map_some]
    refine ⟨_, rfl, ?_⟩
    split
    · rename_i hc
      obtain ⟨rfl, he⟩ := hc
      exact .moved rfl he
    · exact .same
  | recordProgress avid no state progress now =>
    rw [(Ledger.recordProgress_spec h).2.1, hr, Option.map_some]
    refine ⟨_, rfl, ?_⟩
    split
    · rename_i hc
      obtain ⟨rfl, hf, -⟩ := hc
      exact .progressed rfl hf
    · exact .same
  | _ => exact ⟨r, (att_frame h rfl k).trans hr, .same⟩

/-- An attempt that was not there is a candidate of `add_attempts`, and pending. -/
theorem att_inserted (h : s.Gives l a l') {k : AttemptKey} {r : MagnetAttemptRecord} (hr : l.att k = none)
    (hr' : l'.att k = some r) : r.state = .pending ∧ s.attemptsOf = some k.1 := by
  have unchanged : l'.att k = l.att k → False := fun he => by rw [he, hr] at hr'; cases hr'
  cases s with
  | addAttempts avid cs now =>
    rcases (Ledger.addAttempts_spec h).2.2 k r hr' with h | ⟨-, ha, hp, -⟩
    · rw [hr] at h; cases h
    · exact ⟨hp, congrArg some (ha.symm.trans (congrArg Prod.fst (Ledger.att_key hr')))⟩
  | claimNextPending avid now =>
    rcases Ledger.claimNextPending_spec h with ⟨-, rfl, -⟩ | ⟨n, r₁, -, hr₁, -, -, -, hk⟩
    · exact (unchanged rfl).elim
    · refine (unchanged ?_).elim
      rw [hk, if_neg]
      rintro rfl
      rw [hr] at hr₁
      cases hr₁
  | claimAttempt avid no now =>
    rw [(Ledger.claimAttempt_spec h).2.1, hr] at hr'
    cases hr'
  | casAttempt avid no expected target now error =>
    rw [(Ledger.casAttempt_spec h).2.1, hr] at hr'
    cases hr'
  | recordProgress avid no state progress now =>
    rw [(Ledger.recordProgress_spec h).2.1, hr] at hr'
    cases hr'
  | _ => exact (unchanged (att_frame h rfl k)).elim

theorem att_new (h : s.Gives l a l') {k : AttemptKey} {r : MagnetAttemptRecord} (hr : l.att k = none)
    (hr' : l'.att k = some r) : r.state = .pending := (att_inserted h hr hr').1

/-- The attempts of every other AVID stay. -/
theorem att_other {avid : Avid} (h : s.Gives l a l') (hs : s.attemptsOf ≠ some avid) (n : Nat) :
    l'.att (avid, n) = l.att (avid, n) := by
  cases hr : l.att (avid, n) with
  | some r =>
    obtain ⟨r', hr', heff⟩ := att_effect h hr
    rw [hr']
    cases heff with
    | same => rfl
    | claimed now hc hp => rcases hc with rfl | rfl <;> exact absurd rfl hs
    | moved hc he | progressed hc hf => subst hc; exact absurd rfl hs
  | none =>
    cases hr' : l'.att (avid, n) with
    | none => rfl
    | some r => exact absurd (att_inserted h hr hr').2 hs

theorem acq_frame {avid : Avid} (h : s.Gives l a l') (hs : s.row ≠ some avid) :
    l'.acq avid = l.acq avid := by
  cases s with
  | insertAcquisition avid' =>
    simp only [Gives, run, Except.ok.injEq] at h
    rw [← show _ = l' from congrArg Prod.snd h, Ledger.acq_insertAcquisition, if_neg]
    rintro ⟨-, rfl⟩
    exact hs rfl
  | setReleaseDate avid' | casAcquisition avid' =>
    have hne : avid ≠ avid' := fun he => hs (congrArg some he.symm)
    simp only [Gives, run, Except.ok.injEq] at h
    rw [← show _ = l' from congrArg Prod.snd h]
    simp [hne]
  | setTaskDir avid' | setNextActionAt avid' =>
    have hne : avid ≠ avid' := fun he => hs (congrArg some he.symm)
    simp only [Gives, run, Except.ok.injEq, Prod.mk.injEq] at h
    rw [← h.2]
    simp [hne]
  | beginReplacement avid' =>
    have hne : avid' ≠ avid := fun he => hs (congrArg some he)
    simp only [Gives, run, Except.ok.injEq] at h
    rw [← show _ = l' from congrArg Prod.snd h]
    exact Ledger.acq_beginReplacement_ne hne ..
  | addAttempts => exact (Ledger.addAttempts_spec h).1 avid
  | claimNextPending =>
    rcases Ledger.claimNextPending_spec h with ⟨-, rfl, -⟩ | ⟨_, _, -, -, -, -, hacq, -⟩
    · rfl
    · exact hacq avid
  | claimAttempt => exact (Ledger.claimAttempt_spec h).1 avid
  | casAttempt => exact (Ledger.casAttempt_spec h).1 avid
  | recordProgress => exact (Ledger.recordProgress_spec h).1 avid
  | attemptsByInfoHash => rw [h.2]
  | _ =>
    simp only [Gives, run, Except.ok.injEq, Prod.mk.injEq] at h
    rw [h.2]

end Effects

end Sql

/-- An action that is no statement leaves the ledger alone, and so may one whose
connection fails. -/
theorem answers_ledger {t : Time} {l l' : Ledger} {op : Op} {r : Except Exn op.Res} (h : Answers t l op r l') :
    l' = l ∨ ∃ s a, op = .sql s ∧ s.Gives l a l' := by
  cases op with
  | sql s =>
    cases r with
    | ok a => exact .inr ⟨s, a, rfl, h⟩
    | error e =>
      rcases h with ⟨-, h⟩ | ⟨-, h | ⟨a, h⟩⟩
      · exact .inl h
      · exact .inl h
      · exact .inr ⟨s, a, rfl, h⟩
  | now => exact .inl h.2
  | checkCancelled p => exact .inl h.2
  | gathered avids => exact .inl h.2
  | ask q =>
    cases r with
    | ok a => exact .inl h
    | error e => exact .inl h.2

end EmbyxManager
