import EmbyxManager.Monitor.Effects
import EmbyxManager.Monitor.Operator
import EmbyxManager.Monitor.Rss
/-!
# A run alone with the ledger

While nobody else writes, a program finds the rows as it left them. Here are the
specifications of the repository's programs in such a run: what becomes of the
row they name, and that every other row stays as it was.

They hold in any environment whose answers come from the ledger. A statement
without constraints to break can only fail with its connection.
-/

namespace EmbyxManager
open Atom Prog AcquisitionRepository

/-- No connection to the database fails. -/
def connected : Policy
  | .sql _, .error (.failure _) => False
  | _, _ => True

/-- Constraints are declared on the attempts only. -/
theorem Sql.run_isOk {s : Sql} (h : s.writesAttempts = false) (l : Ledger) : ∃ a l', s.run l = .ok (a, l') := by
  cases s with
  | addAttempts | claimNextPending | claimAttempt | casAttempt | recordProgress => cases h
  | _ => exact ⟨_, _, rfl⟩

/-- Everything but the row of one AVID is as it was. -/
structure OnlyRow (avid : Avid) (l l' : Ledger) : Prop where
  acq : ∀ a, a ≠ avid → l'.acq a = l.acq a
  att : ∀ k, l'.att k = l.att k

theorem OnlyRow.refl (avid : Avid) (l : Ledger) : OnlyRow avid l l := ⟨fun _ _ => rfl, fun _ => rfl⟩

theorem OnlyRow.trans {avid : Avid} {l l' l'' : Ledger} (h : OnlyRow avid l l') (h' : OnlyRow avid l' l'') :
    OnlyRow avid l l'' :=
  ⟨fun a ha => (h'.acq a ha).trans (h.acq a ha), fun k => (h'.att k).trans (h.att k)⟩

/-- A statement on the row of this AVID. -/
theorem onlyRow_of_gives {s : Sql} {l l' : Ledger} {a : s.Res} {avid : Avid} (h : s.Gives l a l')
    (hs : s.writesAttempts = false) (hrow : s.row = some avid) : OnlyRow avid l l' where
  acq a' ha := Sql.acq_frame h (by rw [hrow]; exact fun he => ha (Option.some.inj he).symm)
  att k := Sql.att_frame h hs k

/-! ## Environments that answer from the ledger -/

/-- What is answered is what the ledger gives, and `X` holds where a connection fails. -/
structure FromLedger {ι : Type} (T : Env Op.Res Exn (World ι)) (X : Exn → World ι → Prop) : Prop where
  gives : ∀ {w s a} {w' : World ι}, T w (.sql s) (.ok a) w' → s.Gives w.ledger a w'.ledger
  fails : ∀ {w s e} {w' : World ι}, s.writesAttempts = false → T w (.sql s) (.error e) w' → X e w'

section FromLedger
variable {ι : Type} {T : Env Op.Res Exn (World ι)} {X : Exn → World ι → Prop} {w : World ι} {avid : Avid} {at_ : Time}

theorem fromLedger_step (A : Policy) (who : ι) : FromLedger (World.Step A who) fun _ _ => True where
  gives := by
    rintro w s a w' ⟨t, l', -, -, h, rfl⟩
    exact h
  fails _ _ := trivial

theorem fromLedger_connected (who : ι) : FromLedger (World.Step connected who) fun _ _ => False where
  gives := (fromLedger_step connected who).gives
  fails := by
    rintro w s e w' hs ⟨t, l', -, hA, h, rfl⟩
    rcases h with ⟨h, -⟩ | ⟨⟨m, rfl⟩, -⟩
    · obtain ⟨a, l', hok⟩ := Sql.run_isOk hs w.ledger
      rw [h] at hok
      cases hok
    · exact hA

theorem turn_connected (who : ι) (d : Nat × World.Outside) (w : World ι) (op : Op) :
    connected op (World.turn who d w op).1 := by
  cases op with
  | sql s =>
    cases h : s.run w.ledger with
    | ok x =>
      simp only [World.turn, World.reply, h]
      trivial
    | error e =>
      simp only [World.turn, World.reply, h]
      rcases run_error h with rfl | rfl
      · trivial
      · trivial
  | _ => trivial

/-- A program run alone against a fixed outside, with no failing connection. -/
theorem play_runs_connected {α : Type} (who : ι) (d : Nat × World.Outside) (w : World ι) (p : M α) :
    p.Runs (World.Step connected who) w (World.play who d w p).1 (World.play who d w p).2 := by
  refine exec_runs ?_ w p
  exact fun w op => World.turn_step (turn_connected who d w op)

theorem FromLedger.wp_sql (h : FromLedger T X) {s : Sql} (hs : s.writesAttempts = false) {Q : s.Res → World ι → Prop}
    (hQ : ∀ a w', s.Gives w.ledger a w'.ledger → Q a w') : (sql s).wp T (fun _ _ => True) Q X w := by
  rw [wp_call]
  exact ⟨trivial, fun a w' ht => hQ a w' (h.gives ht), fun e w' ht => h.fails hs ht⟩

theorem FromLedger.wp_get (h : FromLedger T X) {Q : Option AcquisitionRecord → World ι → Prop}
    (hQ : ∀ w', w'.ledger = w.ledger → Q (w.ledger.acq avid) w') : (get avid).wp T (fun _ _ => True) Q X w := by
  refine h.wp_sql rfl fun a w' hg => ?_
  simp only [Sql.Gives, Sql.run, Except.ok.injEq, Prod.mk.injEq] at hg
  rw [← hg.1]
  exact hQ w' hg.2.symm

/-! ## Discovery -/

/-- An existing row after an accepted sighting. -/
def AcquisitionRecord.resighted (row : AcquisitionRecord) (s : SightingArgs) : AcquisitionRecord :=
  let moves := s.taskDirPath.isSome ∧ row.taskDirPath ≠ s.taskDirPath ∧ !ownedElsewhere row s
  { row with
    releaseDate := row.releaseDate.or s.releaseDate
    taskDirPath := if moves then s.taskDirPath else row.taskDirPath
    source := if moves then s.source else row.source
    nextActionAt := s.nextActionAt.or row.nextActionAt }

/-- One write to the row of this AVID. -/
theorem FromLedger.wp_write (h : FromLedger T X) {s : Sql} (hs : s.writesAttempts = false) (ho : s.row = some avid)
    {r : AcquisitionRecord} {l : Ledger} (hr : ∀ a l', s.Gives w.ledger a l' → l'.acq avid = some r)
    (hl : OnlyRow avid l w.ledger) :
    (sql s).wp T (fun _ _ => True) (fun _ w' => w'.ledger.acq avid = some r ∧ OnlyRow avid l w'.ledger) X w :=
  h.wp_sql hs fun a _ hg => ⟨hr a _ hg, hl.trans (onlyRow_of_gives hg hs ho)⟩

theorem FromLedger.wp_rediscover (h : FromLedger T X) {row : AcquisitionRecord} {s : SightingArgs}
    (hrow : w.ledger.acq avid = some row) :
    (rediscover avid row s).wp T (fun _ _ => True)
      (fun _ w' => w'.ledger.acq avid = some (row.resighted s) ∧ OnlyRow avid w.ledger w'.ledger) X w := by
  -- the three writes in turn, each only where the sighting has something new
  let dated : AcquisitionRecord := { row with releaseDate := row.releaseDate.or s.releaseDate }
  let moved : AcquisitionRecord := { row.resighted s with nextActionAt := row.nextActionAt }
  unfold rediscover
  rw [wp_bind]
  refine wp_mono (Q := fun _ w' => w'.ledger.acq avid = some dated ∧ OnlyRow avid w.ledger w'.ledger) ?_
    (fun _ w₁ ⟨hdated, h₁⟩ => ?_) fun _ _ h => h
  · rw [wp_forSome]
    refine ⟨fun date hdate => (wp_runIf _ _).2 ⟨fun hnone => ?_, fun hsome => ?_⟩, fun hnone => ?_⟩
    · rw [wp_discard]
      refine h.wp_write rfl rfl (fun b l' hg => ?_) (.refl _ _)
      simp only [Sql.Gives, Sql.run, Except.ok.injEq] at hg
      rw [← show _ = l' from congrArg Prod.snd hg]
      simp [hrow, dated, hdate, Option.isNone_iff_eq_none.1 hnone]
    · refine ⟨?_, .refl _ _⟩
      obtain ⟨d, hd⟩ := Option.isSome_iff_exists.1 (Option.isNone_eq_false_iff.1 hsome)
      have kept : row.releaseDate.or s.releaseDate = row.releaseDate := by rw [hd]; rfl
      simp only [hrow, dated, kept]
    · exact ⟨by simp [hrow, dated, hnone], .refl _ _⟩
  rw [wp_bind]
  refine wp_mono (Q := fun _ w' => w'.ledger.acq avid = some moved ∧ OnlyRow avid w.ledger w'.ledger) ?_
    (fun _ w₂ ⟨hmoved, h₂⟩ => ?_) fun _ _ h => h
  · rw [wp_forSome]
    refine ⟨fun dir hdir => (wp_runIf _ _).2 ⟨fun hmoves => ?_, fun hstays => ?_⟩, fun hnone => ?_⟩
    · refine h.wp_write rfl rfl (fun b l' hg => ?_) h₁
      simp only [Sql.Gives, Sql.run, Except.ok.injEq, Prod.mk.injEq] at hg
      simp only [decide_eq_true_eq] at hmoves
      rw [← hg.2]
      simp [hdated, dated, moved, AcquisitionRecord.resighted, hdir, hmoves.1, hmoves.2]
    · refine ⟨?_, h₁⟩
      simp only [decide_eq_false_iff_not] at hstays
      simp only [hdated, dated, moved, AcquisitionRecord.resighted, hdir, Option.isSome_some, true_and, if_neg hstays]
    · exact ⟨by simp [hdated, dated, moved, AcquisitionRecord.resighted, hnone], h₁⟩
  · rw [wp_forSome]
    refine ⟨fun next hnext => ?_, fun hnone => ?_⟩
    · refine h.wp_write rfl rfl (fun b l' hg => ?_) h₂
      simp only [Sql.Gives, Sql.run, Except.ok.injEq, Prod.mk.injEq] at hg
      rw [← hg.2]
      simp [hmoved, moved, AcquisitionRecord.resighted, hnext]
    · exact ⟨by simp [hmoved, moved, AcquisitionRecord.resighted, hnone], h₂⟩

theorem FromLedger.wp_discover (h : FromLedger T X) {s : SightingArgs} {Q : Bool → World ι → Prop}
    (hnew : w.ledger.acq avid = none → ∀ w',
      w'.ledger.acq avid = some (Ledger.discoveredRow avid s.source s.taskDirPath s.nextActionAt s.releaseDate at_) →
      OnlyRow avid w.ledger w'.ledger → Q true w')
    (hold : ∀ row, w.ledger.acq avid = some row → accepted row at_ s.wake = true → ∀ w',
      w'.ledger.acq avid = some (row.resighted s) → OnlyRow avid w.ledger w'.ledger → Q true w')
    (hno : ∀ row, w.ledger.acq avid = some row → accepted row at_ s.wake = false → ∀ w',
      w'.ledger.acq avid = some row → OnlyRow avid w.ledger w'.ledger → Q false w') :
    (discover avid at_ s).wp T (fun _ _ => True) Q X w := by
  unfold discover
  rw [wp_bind]
  refine h.wp_sql rfl fun inserted w₁ hg => ?_
  have honly := onlyRow_of_gives hg rfl rfl
  simp only [Sql.Gives, Sql.run, Except.ok.injEq] at hg
  have hacq : w₁.ledger.acq avid = (w.ledger.insertAcquisition avid s.source s.taskDirPath s.nextActionAt s.releaseDate
      at_).2.acq avid := by rw [hg]
  have hin : inserted = (w.ledger.acq avid).isNone := by
    rw [← show _ = inserted from congrArg Prod.fst hg, Ledger.insertAcquisition_fst]
  rw [Ledger.acq_insertAcquisition] at hacq
  cases hrow : w.ledger.acq avid with
  | none =>
    rw [hin, hrow]
    exact hnew hrow w₁ (hacq.trans (if_pos ⟨hrow, rfl⟩)) honly
  | some row =>
    rw [hin, hrow]
    rw [if_neg (fun hc => by rw [hrow] at hc; cases hc.1), hrow] at hacq
    -- the insertion lost: what the row says decides
    change Prog.wp T _ (get avid >>= _) Q X w₁
    rw [wp_bind]
    refine h.wp_get fun w₂ hl => ?_
    rw [hacq]
    rw [← hl] at honly hacq
    dsimp only
    split
    · rename_i haccepted
      rw [wp_bind]
      refine wp_mono (h.wp_rediscover hacq) ?_ fun _ _ h => h
      rintro _ w₃ ⟨hw, h₃⟩
      exact hold row hrow haccepted w₃ hw (honly.trans h₃)
    · rename_i haccepted
      exact hno row hrow (Bool.eq_false_iff.2 haccepted) w₂ hacq honly

end FromLedger

end EmbyxManager
