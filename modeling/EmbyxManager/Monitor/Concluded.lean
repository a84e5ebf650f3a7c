import EmbyxManager.Monitor.Components
import EmbyxManager.Monitor.Rested
/-!
# Concluded acquisitions

The intake's and the operator's operations between rest and rest, and the runs
of polls, submissions and requests. The dashboard's retry and magnet submit
whatever the row is waiting on, also where an attempt is live: then the tracker
takes the AVID for out of options by the first of two attempts that fails.
-/

namespace EmbyxManager
open Atom Prog AcquisitionRepository

/-! ## The intake -/

namespace Intake
section
variable (i : Intake) {ι : Type} {who : ι} {σ : Avid → Standing} {a : Avid}

theorem handable {st : AcquisitionState} (h : st ∉ [.archived, .ignored]) : .downloading ∈ st.edges := by
  revert h
  cases st <;> decide

theorem settles_markDownloading {st : AcquisitionState} {n : Nat} (hst : st ∉ [.archived, .ignored]) (at_ : Time) :
    Settles who (InHand σ a (some st) n) (markDownloading a at_) fun _ => Kept σ a := by
  unfold markDownloading
  refine settles_bind settles_get fun record w ⟨hclaimed, hrow⟩ => ?_
  have hstate : record.map (·.state) = some st := by
    rw [hrow]
    exact congrArg Standing.state hclaimed.amid.here
  cases record with
  | none => cases hstate
  | some record =>
    have hrec : record.state = st := Option.some.inj hstate
    dsimp only
    split
    · rename_i hdown
      rw [hrec] at hdown
      subst hdown
      exact ⟨_, rests_downloading n, hclaimed.amid⟩
    · rw [hrec]
      exact settles_discard (settles_mono (settles_toTracker (handable hst) at_ none) (fun _ h => h) fun _ _ h => ⟨_, rests_downloading n, h.2⟩)
        w hclaimed

variable (hσ : ∀ b, b ≠ a → (σ b).Rests)
include hσ

theorem settles_submitNext {st : AcquisitionState} (hst : st ∉ [.archived, .ignored]) (taskDir : String) (limit : Nat) :
    Settles who (Amid σ a ⟨some st, ∅⟩) (submitNext a taskDir limit) fun accepted l =>
      Kept σ a l ∧ (accepted = false → Amid σ a ⟨some st, ∅⟩ l) := by
  have hne : some st ≠ some .ignored := fun he => hst (by simp [Option.some.inj he])
  have rest := amid_free_rested hσ hne
  induction limit with
  | zero => exact settles_raise rest
  | succ limit ih =>
    unfold submitNext
    refine settles_bind settles_now fun at_ => settles_bind (settles_claimNextPending hσ hne at_) fun claimed => ?_
    split
    · refine settles_pure _ fun l h => ?_
      obtain ⟨-, h⟩ | ⟨_, hrow, -⟩ := h
      · exact ⟨⟨_, rests_free hne, h⟩, fun _ => h⟩
      · cases hrow
    · rename_i row
      refine settles_mono (P := InHand σ a (some st) row.attemptNo) ?_ ?_ fun _ _ h => h
      · refine settles_bind (settles_addMagnet _ _) fun outcome => ?_
        split
        · exact settles_bind (settles_giveBack _ _) fun _ => ih
        · exact settles_bind (settles_markDownloading hst at_) fun _ => settles_pure _ fun _ h => ⟨h, fun hf => by cases hf⟩
      · rintro l (⟨hnone, -⟩ | ⟨_, hrow, h⟩)
        · cases hnone
        · cases hrow
          exact h

theorem settles_recordAndSubmit {st : AcquisitionState} (hst : st ∉ [.archived, .ignored]) (candidates : List MagnetCandidate)
    (taskDir : String) :
    Settles who (Amid σ a ⟨some st, ∅⟩) (recordAndSubmit i a candidates taskDir) fun accepted l =>
      Kept σ a l ∧ (accepted = false → Amid σ a ⟨some st, ∅⟩ l) := by
  have hne : some st ≠ some .ignored := fun he => hst (by simp [Option.some.inj he])
  have rest := amid_free_rested hσ hne
  unfold recordAndSubmit
  refine settles_bind settles_now fun at_ => settles_bind ?_ fun _ => settles_submitNext hσ hst taskDir _
  exact settles_discard (settles_idle (idle_addAttempts _ _ _) (fun _ _ h hl => hl.same h) rest)

theorem settles_repark {st : Option AcquisitionState} (hst : st ≠ some .ignored) {record : AcquisitionRecord} (hrec : record.avid = a)
    (note : String) : Settles who (Amid σ a ⟨st, ∅⟩) (repark i record note) fun _ => Kept σ a := by
  have rest := amid_free_rested hσ hst
  unfold repark
  subst hrec
  refine settles_bind (settles_idle (idle_ensureReleaseDate _ _) (fun _ _ h hl => hl.same h) rest) fun date => ?_
  exact settles_bind settles_now fun at_ => settles_transition_free hσ hst (by decide) _ _ _ _

theorem settles_parkUnresolved {st : Option AcquisitionState} (hst : st ≠ some .ignored) :
    Settles who (Amid σ a ⟨st, ∅⟩) (parkUnresolved i a) fun _ => Kept σ a := by
  have hkept : ∀ l, Amid σ a ⟨st, ∅⟩ l → Kept σ a l := fun _ h => ⟨_, rests_free hst, h⟩
  unfold parkUnresolved
  refine settles_bind settles_get fun record => ?_
  split
  · exact settles_pure _ fun _ h => hkept _ h.1
  · rename_i record
    intro w ⟨hamid, hrow⟩
    split
    · exact settles_repark i hσ hst (Ledger.acq_avid hrow.symm) _ w hamid
    · exact hkept _ hamid

/-- A sighting that is accepted finds the AVID with nothing going. -/
theorem settles_retry {record : AcquisitionRecord} {st : AcquisitionState} (hst : st ∉ [.archived, .ignored]) (hrec : record.avid = a)
    (fallbackTaskDir : Option String) :
    Settles who (Amid σ a ⟨some st, ∅⟩) (retry i record fallbackTaskDir) fun _ => Kept σ a := by
  have hne : some st ≠ some .ignored := fun he => hst (by simp [Option.some.inj he])
  have rest := amid_free_rested hσ hne
  unfold retry
  split
  · exact settles_bind (settles_repark i hσ hne hrec _) fun _ => settles_pure _ fun _ h => h
  · refine settles_bind (settles_reads (reads_resolveOrNone _ _ _) rest) fun candidates => ?_
    split
    · exact settles_bind (settles_repark i hσ hne hrec _) fun _ => settles_pure _ fun _ h => h
    · subst hrec
      refine settles_bind (settles_recordAndSubmit i hσ hst _ _) fun accepted => ?_
      split
      · exact settles_pure _ fun _ h => h.1
      · rename_i hrefused
        refine settles_mono (P := Amid σ record.avid ⟨some st, ∅⟩) ?_ (fun _ h => h.2 (Bool.eq_false_iff.2 hrefused)) fun _ _ h => h
        exact settles_bind (settles_repark i hσ hne rfl _) fun _ => settles_pure _ fun _ h => h

end

section
variable (i : Intake) {ι : Type} {who : ι} {a : Avid}

theorem accepted_open {row : AcquisitionRecord} {at_ : Time} {wake : Bool} (h : accepted row at_ wake = true) :
    row.state = .discovered ∨ row.state ∈ AcquisitionState.retryable := by
  unfold accepted at h
  split at h
  · exact .inl ‹_›
  · split at h
    · exact .inr ‹_›
    · cases h

theorem standing_onlyRow {l l' : Ledger} (st : Option AcquisitionState) (h : OnlyRow a l l') (hst : (l'.standing a).state = st) :
    Amid l.standing a ⟨st, (l.standing a).live⟩ l' := by
  funext b
  by_cases hb : b = a
  · subst hb
    rw [Function.update_self, ← hst]
    unfold Ledger.standing
    simp only [h.att]
  · rw [Function.update_of_ne hb]
    exact Ledger.standing_congr (by rw [h.acq b hb]) fun n => by rw [h.att]

/-- A sighting that is accepted finds the AVID with nothing going. -/
theorem settles_discover (at_ : Time) (s : SightingArgs) (w : World ι) (hw : Rested w.ledger) :
    (discover a at_ s).wp (World.Step connected who) (fun _ _ => True) (fun found w' => Rested w'.ledger ∧ (found = true →
      ∃ st, st ∉ [AcquisitionState.archived, .ignored] ∧ Amid w.ledger.standing a ⟨some st, ∅⟩ w'.ledger))
      (fun _ w' => Rested w'.ledger) w := by
  have others := Tracker.others_rest hw a
  refine wp_mono ((fromLedger_connected who).wp_discover (fun hnone w' hrow honly => ?_) (fun row hrow hacc w' hrow' honly => ?_)
    fun row hrow _ w' hrow' honly => ?_) (fun _ _ h => h) fun _ _ h => h.elim
  · have hamid := standing_onlyRow (some .discovered) honly (Ledger.state_eq.2 ⟨_, hrow, rfl⟩)
    rw [Ledger.standing_unknown hnone] at hamid
    exact ⟨hamid.rested others (rests_free (by decide)), fun _ => ⟨_, by decide, hamid⟩⟩
  · have hst : (w.ledger.standing a).state = some row.state := Ledger.state_eq.2 ⟨row, hrow, rfl⟩
    have hopen := accepted_open hacc
    have hfree : (w.ledger.standing a).live = ∅ := by
      refine (hw a).free ?_ ?_
      · rw [hst]
        rcases hopen with h | h
        · rw [h]; decide
        · revert h; cases row.state <;> decide
      · rw [hst]
        rcases hopen with h | h
        · rw [h]; decide
        · revert h; cases row.state <;> decide
    have hamid := standing_onlyRow (some row.state) honly (Ledger.state_eq.2 ⟨_, hrow', rfl⟩)
    rw [hfree] at hamid
    have hne : row.state ∉ [AcquisitionState.archived, .ignored] := by
      rcases hopen with h | h
      · rw [h]; decide
      · revert h; cases row.state <;> decide
    exact ⟨hamid.rested others (rests_free fun he => hne (by simp [Option.some.inj he])), fun _ => ⟨_, hne, hamid⟩⟩
  · have hamid := standing_onlyRow (w.ledger.standing a).state honly (by
      rw [Ledger.state_eq.2 ⟨row, hrow, rfl⟩]
      exact Ledger.state_eq.2 ⟨row, hrow', rfl⟩)
    exact ⟨hamid.rested others (hw a), fun h => by cases h⟩

theorem settles_enqueue (source taskDirPath : String) (itemMagnet : Option String) (releaseDate : Option Date) :
    Settles who Rested (enqueue i a source taskDirPath itemMagnet releaseDate) fun _ => Rested := by
  have rest : ∀ l, Rested l → Rested l := fun _ h => h
  unfold enqueue
  refine settles_bind settles_now fun at_ w hw => ?_
  have others := Tracker.others_rest hw a
  rw [wp_bind]
  refine wp_mono (settles_discover at_ _ w hw) (fun found w₁ ⟨hrest, hfound⟩ => ?_) fun _ _ h => h
  split
  · rename_i hf
    obtain ⟨st, hst, hamid⟩ := hfound hf
    have hne : some st ≠ some .ignored := fun he => hst (by simp [Option.some.inj he])
    have free := amid_free_rested others hne
    refine (?_ : Settles who (Amid w.ledger.standing a ⟨some st, ∅⟩) _ fun _ => Rested) w₁ hamid
    refine settles_bind (settles_reads (reads_resolveOrNone _ _ _) free) fun candidates => ?_
    split
    · exact settles_bind (settles_parkUnresolved i others hne) fun _ => settles_pure _ fun _ h => h.rested others
    · refine settles_bind (settles_recordAndSubmit i others hst _ _) fun accepted => ?_
      split
      · exact settles_pure _ fun _ h => h.1.rested others
      · exact settles_pure _ fun _ h => h.1.rested others
  · exact hrest

theorem settles_queue (source taskDirPath : String) (releaseDate : Option Date) :
    Settles who Rested (queue a source taskDirPath releaseDate) fun _ => Rested := by
  have rest : ∀ l, Rested l → Rested l := fun _ h => h
  unfold queue
  refine settles_bind settles_now fun at_ w hw => ?_
  rw [wp_bind]
  refine wp_mono (settles_discover at_ _ w hw) (fun found w₁ ⟨hrest, _⟩ => ?_) fun _ _ h => h
  split <;> exact hrest

theorem dueForRetry_nodup (l : Ledger) (at_ : Time) (limit : Nat) : ((l.dueForRetry at_ limit).map (·.avid)).Nodup := by
  unfold Ledger.dueForRetry
  refine List.Nodup.sublist ((List.take_sublist _ _).map _) ?_
  refine ((List.perm_insertionSort _ _).map _).nodup_iff.2 ?_
  exact List.Nodup.sublist (List.filter_sublist.map _) l.acquisitions.nodup

/-- Each record is still as it was picked when its turn comes. -/
theorem settles_retryDue (fallbackTaskDir : Option String) (limit : Nat) :
    Settles who Rested (retryDue i fallbackTaskDir limit) fun _ => Rested := by
  have rest : ∀ l, Rested l → Rested l := fun _ h => h
  unfold retryDue
  refine settles_bind settles_now fun at_ w hw => ?_
  rw [wp_bind]
  refine (answering_connected who _).wp_sql rfl trivial fun rows w₁ hg => ?_
  simp only [Sql.Gives, Sql.run, Except.ok.injEq, Prod.mk.injEq] at hg
  obtain ⟨hrows, hledger⟩ := hg
  -- the records left are of AVIDs still to come, and nobody has touched those
  refine wp_foldEach (fun (left : List AcquisitionRecord) _ (w' : World ι) => Rested w'.ledger ∧ (left.map (·.avid)).Nodup ∧
    ∀ r ∈ left, (w'.ledger.standing r.avid).state = some r.state ∧ r.state ∈ AcquisitionState.due) ?_ (fun _ _ h => h.1) ?_
  · rintro record left _ w₂ ⟨hrest, hnodup, hleft⟩
    obtain ⟨hstate, hdue⟩ := hleft record (by simp)
    have others := Tracker.others_rest hrest record.avid
    have hfree : (w₂.ledger.standing record.avid).live = ∅ := by
      refine (hrest _).free ?_ ?_
      · rw [hstate]
        revert hdue
        cases record.state <;> decide
      · rw [hstate]
        revert hdue
        cases record.state <;> decide
    have hst : record.state ∉ [AcquisitionState.archived, .ignored] := by
      revert hdue
      cases record.state <;> decide
    have hamid := amid_start w₂.ledger record.avid
    rw [show w₂.ledger.standing record.avid = ⟨some record.state, ∅⟩ by rw [← hstate, ← hfree]] at hamid
    refine wp_mono (settles_discard (settles_retry i others hst rfl fallbackTaskDir) w₂ hamid) (fun _ w₃ h => ?_) fun _ _ h => h
    refine ⟨h.rested others, (List.nodup_cons.1 hnodup).2, fun r hr => ?_⟩
    obtain ⟨s, -, hamid'⟩ := h
    have hne : r.avid ≠ record.avid := fun he => (List.nodup_cons.1 hnodup).1 (List.mem_map.2 ⟨r, hr, he⟩)
    rw [hamid', Function.update_of_ne hne]
    exact hleft r (List.mem_cons_of_mem _ hr)
  · rw [← hledger, ← hrows]
    refine ⟨hw, dueForRetry_nodup _ _ _, fun r hr => ?_⟩
    obtain ⟨hrow, hdue, -⟩ := mem_dueForRetry hr
    exact ⟨Ledger.state_eq.2 ⟨r, hrow, rfl⟩, hdue⟩

end

end Intake

/-! ## The operator -/

namespace Dashboard
variable (d : Dashboard) {ι : Type} {who : ι} {σ : Avid → Standing} {a : Avid} {P : Ledger → Prop}

theorem settles_load (hP : ∀ l, P l → Rested l) : Settles who P (load a) fun record l => P l ∧ l.acq a = some record := by
  unfold load
  refine settles_bind settles_get fun record => ?_
  split
  · exact settles_raise fun _ h => hP _ h.1
  · exact settles_pure _ fun _ h => ⟨h.1, h.2.symm⟩

theorem settles_resumeAcquisition : Settles who Rested (resumeAcquisition a) fun _ => Rested := by
  unfold resumeAcquisition
  refine settles_bind (settles_load fun _ h => h) fun record => ?_
  split
  · exact settles_raise fun _ h => h.1
  · rename_i hparked
    unfold move
    refine settles_bind settles_now fun at_ w hw => ?_
    obtain ⟨hrest, hrow⟩ := hw
    have havid := Ledger.acq_avid hrow
    subst havid
    rw [wp_bind]
    refine (answering_connected who _).wp_transition trivial (fun w' hst hmoved => ?_) (fun w' _ hsame => ?_) fun _ => hrest
    · refine settles_mono (P := Rested) (settles_load fun _ h => h) (fun _ h => h) (fun _ _ h => h.1) w' fun b => ?_
      rw [hmoved]
      by_cases hb : b = record.avid
      · subst hb
        rw [Function.update_self]
        exact ⟨(hrest _).one, fun _ => .inl rfl, by simp⟩
      · rw [Function.update_of_ne hb]
        exact hrest b
    · intro b
      rw [hsame]
      exact hrest b

section
variable {st : AcquisitionState} (hσ : ∀ b, b ≠ a → (σ b).Rests) (hst : st ∉ [AcquisitionState.archived, .ignored])
include hσ hst

theorem settles_claimed (no : Option Nat) (at_ : Time) :
    Settles who (Amid σ a ⟨some st, ∅⟩) (claimed a no at_) fun o l =>
      (o = none ∧ Amid σ a ⟨some st, ∅⟩ l) ∨ ∃ row, o = some row ∧ InHand σ a (some st) row.attemptNo l := by
  have hne : some st ≠ some .ignored := fun he => hst (by simp [Option.some.inj he])
  have free := amid_free_rested hσ hne
  unfold claimed
  split
  · exact settles_claimNextPending hσ hne at_
  · intro w hw
    rw [wp_bind, wp_attempt]
    refine (answering_connected who _).wp_claimAttempt (fun w' h => .inl ⟨rfl, hw.same h⟩)
      (fun row w' h => .inr ⟨row, rfl, claimed_of_taken hw h⟩) fun e w' h => ?_
    have hrest := free _ (hw.same h)
    cases e <;> exact hrest

/-- An operator's magnet is in, or was given back with the refusal. -/
theorem settles_submit (no : Option Nat) :
    Settles who (Amid σ a ⟨some st, ∅⟩) (d.submit a no) fun _ l => ∃ n, InHand σ a (some st) n l := by
  have hne : some st ≠ some .ignored := fun he => hst (by simp [Option.some.inj he])
  have free := amid_free_rested hσ hne
  unfold submit
  split
  · exact settles_raise free
  · refine settles_bind settles_now fun at_ => settles_bind (settles_claimed hσ hst no at_) fun claimed => ?_
    split
    · refine settles_raise fun l h => ?_
      obtain ⟨-, h⟩ | ⟨_, hrow, -⟩ := h
      · exact free _ h
      · cases hrow
    · rename_i row
      refine settles_mono (P := InHand σ a (some st) row.attemptNo) ?_ ?_ fun _ _ h => h
      · refine settles_bind (settles_submitMagnet _ _ _ _) fun accepted => ?_
        split
        · exact settles_pure _ fun _ h => ⟨_, h⟩
        · exact settles_bind settles_now fun refused => settles_bind (settles_giveBack _ _) fun _ => settles_raise free
      · rintro l (⟨hnone, -⟩ | ⟨_, hrow, h⟩)
        · cases hnone
        · cases hrow
          exact h

omit hst in
theorem settles_handOver {record : AcquisitionRecord} (hrec : record.avid = a) (hst : record.state ∉ [AcquisitionState.archived, .ignored]) :
    Settles who (fun l => ∃ n, InHand σ a (some record.state) n l) (handOver record) fun _ => Rested := by
  have tracked : ∀ n l, Amid σ a ⟨some .downloading, {n}⟩ l → Rested l := fun n _ h => h.rested hσ (rests_downloading n)
  rintro w ⟨n, hw⟩
  subst hrec
  unfold handOver
  split
  · rename_i hdown
    rw [hdown] at hw
    exact settles_mono (settles_load (P := Amid σ record.avid ⟨some .downloading, {n}⟩) (tracked n)) (fun _ h => h) (fun _ _ h => tracked n _ h.1)
      w hw.amid
  · unfold move
    refine settles_bind settles_now (fun at_ => settles_bind (settles_toTracker (Intake.handable hst) at_ none) fun won => ?_) w hw
    rintro w₂ ⟨rfl, hamid⟩
    exact settles_mono (settles_load (P := Amid σ record.avid ⟨some .downloading, {n}⟩) (tracked n)) (fun _ h => h) (fun _ _ h => tracked n _ h.1)
      w₂ hamid

end

/-- At rest, and nothing of this AVID is running. -/
def Clear (a : Avid) (l : Ledger) : Prop := Rested l ∧ (l.standing a).live = ∅

theorem clear_amid {w : World ι} {record : AcquisitionRecord} (h : Clear a w.ledger) (hrow : w.ledger.acq a = some record) :
    Amid w.ledger.standing a ⟨some record.state, ∅⟩ w.ledger ∧ record.state ≠ .ignored := by
  have hstate : (w.ledger.standing a).state = some record.state := Ledger.state_eq.2 ⟨record, hrow, rfl⟩
  refine ⟨?_, fun he => (h.1 a).kept (by rw [hstate, he])⟩
  have hamid := amid_start w.ledger a
  rwa [show w.ledger.standing a = ⟨some record.state, ∅⟩ by rw [← hstate, ← h.2]] at hamid

/-- A request that submits where nothing of the AVID is running. -/
theorem settles_requested {record : AcquisitionRecord} (hstate : record.state ≠ .archived) {p : M AcquisitionRecord}
    (hp : ∀ {σ : Avid → Standing}, (∀ b, b ≠ a → (σ b).Rests) → record.avid = a →
      record.state ∉ [AcquisitionState.archived, .ignored] → Settles who (Amid σ a ⟨some record.state, ∅⟩) p fun _ => Rested) :
    Settles who (fun l => Clear a l ∧ l.acq a = some record) p fun _ => Rested := by
  rintro w ⟨hclear, hrow⟩
  obtain ⟨hamid, hne⟩ := clear_amid hclear hrow
  exact hp (Tracker.others_rest hclear.1 a) (Ledger.acq_avid hrow) (by simp [hstate, hne]) w hamid

theorem settles_retryAcquisition : Settles who (Clear a) (d.retryAcquisition a) fun _ => Rested := by
  unfold retryAcquisition
  refine settles_bind (settles_load fun _ h => h.1) fun record => ?_
  split
  · exact settles_raise fun _ h => h.1.1
  · rename_i hstate
    refine settles_requested hstate fun hσ hrec hst => ?_
    exact settles_bind (d.settles_submit hσ hst none) fun _ => settles_handOver hσ hrec hst

theorem settles_addMagnet (magnet : String) : Settles who (Clear a) (d.addMagnet a magnet) fun _ => Rested := by
  unfold addMagnet
  refine settles_bind (settles_load fun _ h => h.1) fun record => ?_
  split
  · exact settles_raise fun _ h => h.1.1
  · rename_i hstate
    split
    · refine settles_requested hstate fun hσ hrec hst => ?_
      have hst' : some record.state ≠ some .ignored := fun he => hst (by simp [Option.some.inj he])
      have free := amid_free_rested hσ hst'
      refine settles_bind settles_now fun at_ => ?_
      refine settles_bind (settles_idle (idle_addAttempts _ _ _) (fun _ _ h hl => hl.same h) free) fun added => ?_
      split
      · exact settles_raise free
      · refine settles_bind (settles_reads (uses_ok rfl) free) fun attempts => ?_
        split
        · exact settles_raise free
        · exact settles_bind (d.settles_submit hσ hst _) fun _ => settles_handOver hσ hrec hst
    · exact settles_raise fun _ h => h.1.1

end Dashboard

/-! ## Runs -/

/-- A tracker poll, an intake submission, or an operator's retry, magnet or resume. -/
def Component.submits : Component → Bool
  | .poll | .enqueue .. | .queue .. | .retryDue .. | .retry _ | .magnet .. | .resume _ => true
  | _ => false

/-- A retry or a magnet is asked for where no attempt of the AVID is live. -/
def Component.Unhurried (l : Ledger) : Component → Prop
  | .retry a | .magnet a _ => ∀ n r, l.att (a, n) = some r → ¬ r.Live
  | _ => True

/-- The worlds reached from an empty ledger by whole operations, one after the other, each of which `ok` lets start.
No connection to the database fails; the rest of the outside answers as it likes. -/
inductive Submitted {ι : Type} (s : Setup) (who : ι) (ok : Ledger → Component → Prop) : World ι → Prop
  | start (t : Time) : Submitted s who ok ⟨.empty, t, []⟩
  | operation {w w' : World ι} {c : Component} {out : Except Exn Unit} : Submitted s who ok w → c.submits = true →
      ok w.ledger c → (c.prog s).Runs (World.Step connected who) w out w' → Submitted s who ok w'

section Runs
variable {ι : Type} {who : ι} {s : Setup}

theorem settles_component {c : Component} (hc : c.submits = true) :
    Settles who (fun l => Rested l ∧ c.Unhurried l) (c.prog s) fun _ => Rested := by
  have plain : ∀ {p : M Unit}, (Settles who Rested p fun _ => Rested) → Settles who (fun l => Rested l ∧ c.Unhurried l) p fun _ => Rested :=
    fun h => settles_mono h (fun _ h => h.1) fun _ _ h => h
  have clear : ∀ {a : Avid} {l : Ledger}, (∀ n r, l.att (a, n) = some r → ¬ r.Live) → (l.standing a).live = ∅ :=
    fun h => Set.eq_empty_of_forall_notMem fun n ⟨r, hr, hl⟩ => h n r hr hl
  cases c with
  | poll => exact plain s.tracker.settles_poll
  | enqueue avid source dir m date => exact plain (settles_discard (Intake.settles_enqueue s.intake source dir m date))
  | queue avid source dir date => exact plain (settles_discard (Intake.settles_queue source dir date))
  | retryDue dir limit => exact plain (Intake.settles_retryDue s.intake dir limit)
  | retry avid => exact settles_mono (settles_discard s.dashboard.settles_retryAcquisition) (fun _ h => ⟨h.1, clear h.2⟩) fun _ _ h => h
  | magnet avid m => exact settles_mono (settles_discard (s.dashboard.settles_addMagnet m)) (fun _ h => ⟨h.1, clear h.2⟩) fun _ _ h => h
  | resume avid => exact plain (settles_discard Dashboard.settles_resumeAcquisition)
  | rss | reconcile | moveIn | ignore | replace => cases hc

theorem rested_submitted {w : World ι} (h : Submitted s who (fun l c => c.Unhurried l) w) : Rested w.ledger := by
  induction h with
  | start t => exact rested_empty
  | @operation w w' c out _ hc hok hr ih =>
    obtain ⟨hret, hraise⟩ := wp_runs (settles_component (s := s) hc w ⟨ih, hok⟩) hr
    cases out with
    | ok x => exact hret x rfl
    | error e => exact hraise e rfl

/-- While a retry or a magnet is only asked for where nothing is running, a concluded acquisition has no live attempt. -/
theorem concluded_free {w : World ι} (h : Submitted s who (fun l c => c.Unhurried l) w) {a : Avid} {row : AcquisitionRecord}
    (hrow : w.ledger.acq a = some row) (hst : row.state = .exhausted ∨ row.state = .archived) {n : Nat}
    {r : MagnetAttemptRecord} (hr : w.ledger.att (a, n) = some r) : ¬ r.Live := by
  intro hl
  have hstate : (w.ledger.standing a).state = some row.state := Ledger.state_eq.2 ⟨row, hrow, rfl⟩
  have hfree := (rested_submitted h a).free (by rw [hstate]; rcases hst with h | h <;> rw [h] <;> decide)
    (by rw [hstate]; rcases hst with h | h <;> rw [h] <;> decide)
  have hn : n ∈ (w.ledger.standing a).live := ⟨r, hr, hl⟩
  rw [hfree] at hn
  exact hn

end Runs

/-! ## Two magnets at once -/

namespace TwoMagnets

def avid : Avid := "ABC-123"

/-- One or two magnets are found and accepted; the task of the first fails. -/
def outside (two : Bool) : World.Outside
  | .sukebei _ => .ok (some "magnet:1")
  | .javbus _ => .ok (if two then [⟨"magnet:2", 1⟩] else [])
  | .addOfflineFiles .. => .ok true
  | .listOfflineFiles _ => .ok [⟨"1", "magnet:1", .error, 0⟩, ⟨"2", "magnet:2", .downloading, 0⟩]
  | _ => .error ⟨.failure "", trivial⟩

def submission : Component := .enqueue avid "manual" "/inbox" none none

def after (two : Bool) (c : Component) (w : World Unit) : World Unit :=
  (World.play () (1, outside two) w (c.prog smallSetup)).2

/-- The only magnet fails. -/
def exhausted : World Unit := after false .poll (after false submission ⟨.empty, 0, []⟩)

/-- The operator asks for the second magnet before the first fails. -/
def hurried : World Unit := after true .poll (after true (.retry avid) (after true submission ⟨.empty, 0, []⟩))

theorem submitted_after {ok : Ledger → Component → Prop} {two : Bool} {w : World Unit} (h : Submitted smallSetup () ok w)
    {c : Component} (hc : c.submits = true) (hok : ok w.ledger c) : Submitted smallSetup () ok (after two c w) :=
  h.operation hc hok (play_runs_connected () (1, outside two) w (c.prog smallSetup))

end TwoMagnets

open TwoMagnets

theorem concluded_free_exhausted : ∃ r, exhausted.ledger.att (avid, 1) = some r ∧ ¬ r.Live := by
  have hreached : Submitted smallSetup () (fun l c => c.Unhurried l) exhausted :=
    submitted_after (submitted_after (.start 0) (c := submission) rfl trivial) (c := .poll) rfl trivial
  have hrow : (exhausted.ledger.acq avid).map (·.state) = some .exhausted := by decide
  have hatt : (exhausted.ledger.att (avid, 1)).isSome = true := by decide
  obtain ⟨row, hrow, hst⟩ := Option.map_eq_some_iff.1 hrow
  obtain ⟨r, hr⟩ := Option.isSome_iff_exists.1 hatt
  exact ⟨r, hr, concluded_free hreached hrow (.inl hst) hr⟩

theorem concluded_live : ∃ w : World Unit, Submitted smallSetup () (fun _ _ => True) w ∧ ∃ row r,
    w.ledger.acq avid = some row ∧ row.state = .exhausted ∧ w.ledger.att (avid, 2) = some r ∧ r.Live := by
  have hreached : Submitted smallSetup () (fun _ _ => True) hurried :=
    submitted_after (submitted_after (submitted_after (.start 0) (c := submission) rfl trivial) (c := .retry avid) rfl trivial)
      (c := .poll) rfl trivial
  have hrow : (hurried.ledger.acq avid).map (·.state) = some .exhausted := by decide
  have hatt : (hurried.ledger.att (avid, 2)).map (fun r => decide r.Live) = some true := by decide
  obtain ⟨row, hrow, hst⟩ := Option.map_eq_some_iff.1 hrow
  obtain ⟨r, hr, hl⟩ := Option.map_eq_some_iff.1 hatt
  exact ⟨hurried, hreached, row, r, hrow, hst, hr, of_decide_eq_true hl⟩

end EmbyxManager
