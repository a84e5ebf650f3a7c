import EmbyxManager.Monitor.Signs
/-!
# What a step leaves of its attempt

A listed attempt is advanced under its task; one that no listing holds is filed
from its folder, or lost. Nobody else acts, so every compare-and-set of the
attempt that was read succeeds, and what comes after it leaves the row alone.
-/

namespace EmbyxManager
open Atom Prog AcquisitionRepository Archive

/-! ## What is left of an attempt -/

/-- What becomes of a claimed attempt: it is archived if the library took its videos, else concluded as junk or released
for the next poll. -/
def Closed (took : Bool) (s : AttemptState) : Prop := if took then s = .archived else s = .junk ∨ s = .finished

theorem Closed.not_pending {took : Bool} {s : AttemptState} (h : Closed took s) : s ≠ .pending := by
  unfold Closed at h
  split at h
  · simp [h]
  · rcases h with h | h <;> simp [h]

/-- What advancing an attempt `r` leaves of it. Under a finished task it is claimed and filed, and stays as it was only when
the acquisition has been settled meanwhile. Under a failed one it is concluded; under one that still runs it has the
task's progress, or has stalled. -/
def Advanced (task : OfflineTask) (saw : Sign → Bool) (r r' : MagnetAttemptRecord) : Prop :=
  match task.status with
  | .finished => (saw .claimed = true ∧ Closed (saw .took) r'.state) ∨ (saw .settled = true ∧ r' = r)
  | .error => r'.state = .error
  | _ =>
    if r.state ∈ AttemptState.inFlight then
      r'.state = .stalled ∨ (r'.state = .downloading ∧ r'.progress = some task.progress)
    else r' = r

section Advanced
variable {task : OfflineTask} {saw : Sign → Bool} {r r' : MagnetAttemptRecord}

theorem advanced_finished (h : task.status = .finished) :
    Advanced task saw r r' ↔ (saw .claimed = true ∧ Closed (saw .took) r'.state) ∨ (saw .settled = true ∧ r' = r) := by
  simp only [Advanced, h]

theorem advanced_error (h : task.status = .error) : Advanced task saw r r' ↔ r'.state = .error := by simp only [Advanced, h]

theorem advanced_running (hfin : task.status ≠ .finished) (herr : task.status ≠ .error) :
    Advanced task saw r r' ↔ if r.state ∈ AttemptState.inFlight then
      r'.state = .stalled ∨ (r'.state = .downloading ∧ r'.progress = some task.progress) else r' = r := by
  unfold Advanced
  split
  · exact absurd ‹_› hfin
  · exact absurd ‹_› herr
  · rfl

end Advanced

/-- Archived from its folder, or concluded as lost. -/
def FiledOrLost (r' : MagnetAttemptRecord) : Prop := r'.state = .archived ∨ r'.state = .lost

namespace Tracker
variable (t : Tracker)

/-! ## The attempt's own step -/

section Own
variable {ι : Type} [DecidableEq ι] {who : ι} {k : AttemptKey} {r : MagnetAttemptRecord} {w : World ι}

/-- The attempt's row, and what its step has shown. -/
structure RowStays (who : ι) (k : AttemptKey) (r : MagnetAttemptRecord) (saw : Sign → Bool) (w : World ι) : Prop where
  row : w.ledger.att k = some r
  saw : ∀ s, sawIn s k (w.history who) = saw s

/-- What is left of an attempt `r`. -/
def LeftAs (P : (Sign → Bool) → MagnetAttemptRecord → Prop) (who : ι) (k : AttemptKey) (r : MagnetAttemptRecord) (w : World ι) :
    Prop :=
  ∃ r' saw, RowStays who k r' saw w ∧ r'.state ≠ .pending ∧ r'.infoHash = r.infoHash ∧ P saw r'

/-- Alone, the compare-and-set of an attempt in the expected state succeeds. -/
theorem wp_transitionAttempt_alone {avid : Avid} {no : Nat} {expected target : AttemptState} {at_ : Time} {error : Option String}
    (hr : w.ledger.att (avid, no) = some r) (hs : r.state = expected) :
    (transitionAttempt avid no expected target at_ error).wp (alone who) (fun _ _ => True)
      (fun won w' => won = true ∧
        w'.history who = ⟨.sql (.casAttempt avid no expected target at_ error), .ok true⟩ :: w.history who ∧
        w'.ledger.att (avid, no) = some { r with state := target, error, updatedAt := at_ }) (fun _ _ => True) w := by
  unfold transitionAttempt
  split
  · rw [wp_call]
    refine ⟨trivial, fun won w' h => ?_, fun _ _ _ => trivial⟩
    have hh := history_alone h
    obtain ⟨t, l', -, -, ha, rfl⟩ := h
    obtain ⟨-, hatt, hwon⟩ := Ledger.casAttempt_spec ha
    obtain rfl : won = true := hwon.2 ⟨r, hr, hs⟩
    refine ⟨rfl, hh, ?_⟩
    dsimp only
    rw [hatt, hr, Option.map_some, if_pos ⟨rfl, hs⟩]
  · trivial

section Kept
variable {I : List Event → Prop} (hI : ∀ op a h, Mute op → I h → I (⟨op, a⟩ :: h))
include hI

theorem wp_giveUp_own {attempt : MagnetAttemptRecord} {state : AttemptState} {reason : String} (hstate : state ≠ .pending)
    (hp : attempt.state ≠ .pending) (hr : w.ledger.att attempt.key = some attempt) (hh : I (w.history who)) :
    (t.giveUp attempt state reason).wp (alone who) (fun _ _ => True)
      (fun _ w' => (∃ at_, w'.ledger.att attempt.key = some { attempt with state, error := some reason, updatedAt := at_ }) ∧
        I (w'.history who)) (fun _ _ => True) w := by
  unfold giveUp
  rw [wp_bind]
  refine wp_mono (wp_spared (spares_ok hp ⟨rfl, rfl, rfl⟩) hI hr hh) ?_ fun _ _ _ => trivial
  rintro at_ w₁ ⟨hr₁, hh₁⟩
  rw [wp_bind]
  refine wp_mono (wp_transitionAttempt_alone hr₁ rfl) ?_ fun _ _ _ => trivial
  rintro won w₂ ⟨rfl, hist, hr₂⟩
  rw [if_pos rfl, wp_bind]
  have hh₂ : I (w₂.history who) := hist ▸ hI _ _ _ ⟨rfl, rfl⟩ hh₁
  refine wp_mono (wp_spared (t.spares_tryNext hstate attempt.avid t.recursionLimit) hI hr₂ hh₂) ?_ fun _ _ _ => trivial
  exact fun _ w₃ ⟨hr₃, hh₃⟩ => ⟨⟨at_, hr₃⟩, hh₃⟩

/-- A claimed attempt is archived when its result says so, else concluded as junk or released. -/
theorem wp_settle_own {attempt : MagnetAttemptRecord} (result : ArchiveResult) (hs : r.state = .archiving)
    {took : Bool} (htook : took = decide (result.outcome = .archived)) (hr : w.ledger.att attempt.key = some r)
    (hh : I (w.history who)) :
    (t.settle attempt result).wp (alone who) (fun _ _ => True)
      (fun _ w' => (∃ r', w'.ledger.att attempt.key = some r' ∧ r'.infoHash = r.infoHash ∧
        Closed took r'.state) ∧ I (w'.history who)) (fun _ _ => True) w := by
  -- the attempt is moved, and what comes then leaves it alone
  have moved : ∀ (target : AttemptState) {p : M Unit} {at_ : Time} {w₁ : World ι},
      Closed took target →
      (∀ r', r'.state = target → Spares Mute who attempt.key r' p) → w₁.ledger.att attempt.key = some r → I (w₁.history who) →
      (do discard (transitionAttempt attempt.avid attempt.attemptNo .archiving target at_); p).wp (alone who) (fun _ _ => True)
        (fun _ w' => (∃ r', w'.ledger.att attempt.key = some r' ∧ r'.infoHash = r.infoHash ∧
          Closed took r'.state) ∧ I (w'.history who)) (fun _ _ => True) w₁ := by
    intro target p at_ w₁ hgoal hspares hr₁ hh₁
    rw [wp_bind, wp_discard]
    refine wp_mono (wp_transitionAttempt_alone hr₁ hs) ?_ fun _ _ _ => trivial
    rintro won w₂ ⟨-, hist, hr₂⟩
    refine wp_mono (wp_spared (hspares _ rfl) hI hr₂ (hist ▸ hI _ _ _ ⟨rfl, rfl⟩ hh₁)) ?_ fun _ _ _ => trivial
    exact fun _ w₃ ⟨hr₃, hh₃⟩ => ⟨⟨_, hr₃, rfl, hgoal⟩, hh₃⟩
  unfold settle
  rw [wp_bind]
  refine wp_mono (wp_spared (spares_ok (by simp [hs]) ⟨rfl, rfl, rfl⟩) hI hr hh) ?_ fun _ _ _ => trivial
  rintro at_ w₁ ⟨hr₁, hh₁⟩
  cases ho : result.outcome with
  | archived =>
    refine moved .archived (by simp [htook, ho, Closed]) (fun r' hr' => ?_) hr₁ hh₁
    exact spares_settled (by simp [hr']) _ _ _ _ _
  | junk =>
    refine moved .junk (by simp [htook, ho, Closed]) (fun r' hr' => ?_) hr₁ hh₁
    exact t.spares_tryNext (by simp [hr']) _ _
  | needsAttention =>
    refine moved .finished (by simp [htook, ho, Closed]) (fun r' hr' => ?_) hr₁ hh₁
    exact spares_settled (by simp [hr']) _ _ _ _ _
  | failed => exact moved .finished (by simp [htook, ho, Closed]) (fun _ _ => spares_pure _) hr₁ hh₁

theorem wp_claimFinished_own {attempt : MagnetAttemptRecord} {at_ : Time} (hown : stepOf (w.history who) = some attempt.key)
    (hr : w.ledger.att attempt.key = some attempt) (hh : I (w.history who)) :
    (claimFinished attempt at_).wp (alone who) (fun _ _ => True)
      (fun won w' => won = true ∧ sawIn .claimed attempt.key (w'.history who) = true ∧
        w'.ledger.att attempt.key = some { attempt with state := .archiving, error := none, updatedAt := at_ } ∧
        I (w'.history who)) (fun _ _ => True) w := by
  have claim : ∀ (row : MagnetAttemptRecord) {w₁ : World ι}, row.state = .finished →
      { row with state := .archiving, error := none, updatedAt := at_ } =
        { attempt with state := .archiving, error := none, updatedAt := at_ } →
      stepOf (w₁.history who) = some attempt.key → w₁.ledger.att attempt.key = some row → I (w₁.history who) →
      (transitionAttempt attempt.avid attempt.attemptNo .finished .archiving at_).wp (alone who) (fun _ _ => True)
        (fun won w' => won = true ∧ sawIn .claimed attempt.key (w'.history who) = true ∧
          w'.ledger.att attempt.key = some { attempt with state := .archiving, error := none, updatedAt := at_ } ∧
          I (w'.history who)) (fun _ _ => True) w₁ := by
    intro row w₁ hs hrow hown₁ hr₁ hh₁
    refine wp_mono (wp_transitionAttempt_alone hr₁ hs) ?_ fun _ _ _ => trivial
    rintro won w₂ ⟨rfl, hist, hr₂⟩
    exact ⟨rfl, hist ▸ sawIn_head rfl hown₁ rfl, hrow ▸ hr₂, hist ▸ hI _ _ _ ⟨rfl, rfl⟩ hh₁⟩
  unfold claimFinished
  split
  · rename_i hs
    exact claim attempt hs rfl hown hr hh
  · rw [wp_bind]
    refine wp_mono (wp_transitionAttempt_alone hr rfl) ?_ fun _ _ _ => trivial
    rintro won w₁ ⟨rfl, hist, hr₁⟩
    rw [if_pos rfl]
    exact claim { attempt with state := .finished, error := none, updatedAt := at_ } rfl rfl (hist ▸ (stepOf_same rfl).trans hown) hr₁ (hist ▸ hI _ _ _ ⟨rfl, rfl⟩ hh)

end Kept

/-- The step has begun and the library has not taken anything in it. -/
def StepBegun (k : AttemptKey) (h : List Event) : Prop := OwnStep k h ∧ libraryTook h = false

theorem StepBegun.mute {op : Op} {a : Except Exn op.Res} {h : List Event} (hop : Mute op) (hh : StepBegun k h) :
    StepBegun k (⟨op, a⟩ :: h) :=
  ⟨hh.1.step hop.1, (libraryTook_mute hop).trans hh.2⟩

/-- What the step has shown once its folder has been filed or refused. -/
structure FolderDone (k : AttemptKey) (s : Sign) (result : ArchiveResult) (h : List Event) : Prop where
  own : OwnStep k h
  shown : sawIn s k h = true
  took : libraryTook h = decide (result.outcome = .archived)

theorem FolderDone.mute {s : Sign} {result : ArchiveResult} {op : Op} {a : Except Exn op.Res} {h : List Event} (hop : Mute op)
    (hh : FolderDone k s result h) : FolderDone k s result (⟨op, a⟩ :: h) :=
  ⟨hh.own.step hop.1, sawIn_cons hh.shown, (libraryTook_mute hop).trans hh.took⟩

theorem wp_file_own {attempt : MagnetAttemptRecord} (folder : Folder) (route : TrackerRoute) {s : Sign} (hp : r.state ≠ .pending)
    (hr : w.ledger.att attempt.key = some r) (hh : StepBegun attempt.key (w.history who))
    (hsaw : sawIn s attempt.key (w.history who) = true) :
    (t.file attempt folder route).wp (alone who) (fun _ _ => True)
      (fun result w' => w'.ledger.att attempt.key = some r ∧ FolderDone attempt.key s result (w'.history who)) (fun _ _ => True) w := by
  let J (h : List Event) : Prop := OwnStep attempt.key h ∧ sawIn s attempt.key h = true
  have hJ : ∀ op a h, OfStep op → J h → J (⟨op, a⟩ :: h) := fun op a h hop hh => ⟨hh.1.step hop, sawIn_cons hh.2⟩
  refine wp_mono (wp_and (wp_spared (t.spares_file hp attempt folder route) hJ hr ⟨hh.1, hsaw⟩)
    (wp_recorded (t.file_took attempt folder route hh.2))) ?_ fun _ _ _ => trivial
  rintro result w₁ ⟨⟨hr₁, hown, hsaw₁⟩, htook⟩
  exact ⟨hr₁, hown, hsaw₁, htook⟩

/-- A claimed attempt whose folder was filed or refused is closed accordingly. -/
theorem FolderDone.left {s : Sign} {result : ArchiveResult} {r' : MagnetAttemptRecord} (hh : FolderDone k s result (w.history who))
    (hr : w.ledger.att k = some r') (hhash : r'.infoHash = r.infoHash)
    (hclosed : Closed (decide (result.outcome = .archived)) r'.state) :
    LeftAs (fun saw r' => saw s = true ∧ Closed (saw .took) r'.state) who k r w := by
  refine ⟨r', _, ⟨hr, fun _ => rfl⟩, hclosed.not_pending, hhash, hh.shown, ?_⟩
  dsimp only
  rw [hh.own.took, hh.took]
  exact hclosed

theorem wp_archiveFinished_own {task : OfflineTask} (taskDir : String) (hstatus : task.status = .finished) (hp : r.state ≠ .pending)
    (hr : w.ledger.att r.key = some r) (hh : StepBegun r.key (w.history who)) :
    (t.archiveFinished r task taskDir).wp (alone who) (fun _ _ => True) (fun _ => LeftAs (fun saw r' => Advanced task saw r r') who r.key r)
      (fun _ _ => True) w := by
  have hI : ∀ op a h, Mute op → StepBegun r.key h → StepBegun r.key (⟨op, a⟩ :: h) := fun _ _ _ hop hh => hh.mute hop
  unfold archiveFinished
  rw [wp_bind]
  refine wp_mono (wp_spared (spares_ok hp ⟨rfl, rfl, rfl⟩) hI hr hh) ?_ fun _ _ _ => trivial
  rintro at_ w₁ ⟨hr₁, hh₁⟩
  rw [wp_bind, wp_call]
  refine ⟨trivial, fun record w₂ h₂ => ?_, fun _ _ _ => trivial⟩
  have hr₂ := att_aside hp hr₁ h₂ rfl
  have hh₂ : StepBegun r.key (w₂.history who) := history_alone h₂ ▸ hh₁.mute ⟨rfl, rfl⟩
  have hsettled : (record.all fun record => record.state ≠ .downloading) = true →
      LeftAs (fun saw r' => Advanced task saw r r') who r.key r w₂ := fun hs => by
    refine ⟨r, _, ⟨hr₂, fun _ => rfl⟩, hp, rfl, (advanced_finished hstatus).2 ?_⟩
    exact .inr ⟨history_alone h₂ ▸ sawIn_head rfl hh₁.1.own hs, rfl⟩
  cases record with
  | none => exact hsettled rfl
  | some record =>
    dsimp only
    split
    · rename_i hs
      exact hsettled (by simpa using hs)
    rw [wp_bind]
    refine wp_mono (wp_claimFinished_own hI hh₂.1.own hr₂ hh₂) ?_ fun _ _ _ => trivial
    rintro won w₃ ⟨rfl, hclaimed, hr₃, hh₃⟩
    rw [if_pos rfl, wp_bind]
    -- the attempt is claimed: what is left of it is what its folder comes to
    let J (h : List Event) : Prop := StepBegun r.key h ∧ sawIn .claimed r.key h = true
    have hJ : ∀ op a h, Mute op → J h → J (⟨op, a⟩ :: h) := fun _ _ _ hop hh => ⟨hh.1.mute hop, sawIn_cons hh.2⟩
    refine wp_mono (wp_spared (spares_aloof (by simp) (uses_refreshMount (fun _ => ⟨rfl, rfl, rfl⟩) task taskDir)) hJ hr₃ ⟨hh₃, hclaimed⟩) ?_
      fun _ _ _ => trivial
    rintro _ w₄ ⟨hr₄, hh₄⟩
    rw [wp_bind]
    refine wp_mono (wp_spared (spares_ok (by simp) ⟨rfl, rfl, rfl⟩) hJ hr₄ hh₄) ?_ fun _ _ _ => trivial
    rintro located w₅ ⟨hr₅, hh₅⟩
    split
    · rw [wp_bind]
      refine wp_mono (wp_spared (spares_ok (by simp) ⟨rfl, rfl, rfl⟩) hJ hr₅ hh₅) ?_ fun _ _ _ => trivial
      rintro released w₆ ⟨hr₆, hh₆⟩
      rw [wp_discard]
      refine wp_mono (wp_transitionAttempt_alone hr₆ rfl) ?_ fun _ _ _ => trivial
      rintro won w₇ ⟨-, hist, hr₇⟩
      have hh₇ : J (w₇.history who) := hist ▸ hJ _ _ _ ⟨rfl, rfl⟩ hh₆
      refine ⟨_, _, ⟨hr₇, fun _ => rfl⟩, by simp, rfl, (advanced_finished hstatus).2 (.inl ⟨hh₇.2, ?_⟩)⟩
      dsimp only
      rw [hh₇.1.1.took, hh₇.1.2]
      exact .inr rfl
    · rename_i folder route
      rw [wp_bind]
      refine wp_mono (t.wp_file_own folder route (by simp) hr₅ hh₅.1 hh₅.2) ?_ fun _ _ _ => trivial
      rintro result w₆ ⟨hr₆, hh₆⟩
      have hfiling : ∀ op a h, Mute op → FolderDone r.key .claimed result h → FolderDone r.key .claimed result (⟨op, a⟩ :: h) :=
        fun _ _ _ hop hh => hh.mute hop
      rw [wp_bind]
      refine wp_mono (t.wp_settle_own hfiling result rfl rfl hr₆ hh₆) ?_ fun _ _ _ => trivial
      rintro _ w₇ ⟨⟨r', hr₇, hhash, hclosed⟩, hh₇⟩
      refine wp_mono (wp_spared (spares_dropped hclosed.not_pending _ _ _) hfiling hr₇ hh₇) ?_ fun _ _ _ => trivial
      rintro _ w₈ ⟨hr₈, hh₈⟩
      obtain ⟨r'', saw, hstays, hp', hhash', hdone⟩ := hh₈.left (r := r) hr₈ hhash hclosed
      exact ⟨r'', saw, hstays, hp', hhash', (advanced_finished hstatus).2 (.inl hdone)⟩

theorem wp_refreshProgress_own {task : OfflineTask} (taskDir : String) (hf : r.state ∈ AttemptState.inFlight)
    (hfin : task.status ≠ .finished) (herr : task.status ≠ .error) (hr : w.ledger.att r.key = some r) :
    (t.refreshProgress r task taskDir).wp (alone who) (fun _ _ => True)
      (fun _ => LeftAs (fun saw r' => Advanced task saw r r') who r.key r) (fun _ _ => True) w := by
  have hp : r.state ≠ .pending := by
    rintro hs
    simp [hs, AttemptState.inFlight] at hf
  have hI : ∀ (op : Op) (_ : Except Exn op.Res) (_ : List Event), Mute op → True → True := fun _ _ _ _ _ => trivial
  have hleft : ∀ {r' : MagnetAttemptRecord} {w' : World ι}, w'.ledger.att r.key = some r' → r'.infoHash = r.infoHash →
      r'.state = .stalled ∨ (r'.state = .downloading ∧ r'.progress = some task.progress) →
      LeftAs (fun saw r' => Advanced task saw r r') who r.key r w' := by
    intro r' w' hr' hhash hstate
    refine ⟨r', _, ⟨hr', fun _ => rfl⟩, ?_, hhash, ?_⟩
    · rcases hstate with hs | ⟨hs, -⟩ <;> simp [hs]
    · refine (advanced_running hfin herr).2 ?_
      rw [if_pos hf]
      exact hstate
  unfold refreshProgress
  rw [wp_bind]
  refine wp_mono (wp_spared (I := fun _ => True) (spares_ok hp ⟨rfl, rfl, rfl⟩) hI hr trivial) ?_ fun _ _ _ => trivial
  rintro at_ w₁ ⟨hr₁, -⟩
  have hstate : AttemptState.downloading ∈ AttemptState.inFlight := by decide
  rw [wp_bind, recordProgress, if_pos hstate, wp_call]
  refine ⟨trivial, fun moved w₂ h₂ => ?_, fun _ _ _ => trivial⟩
  obtain ⟨clock, l', -, -, ha, rfl⟩ := h₂
  obtain ⟨-, hatt, hmoved⟩ := Ledger.recordProgress_spec ha
  have hr₂ := (hatt r.key).trans (congrArg (Option.map _) hr₁)
  rw [Option.map_some] at hr₂
  cases moved with
  | true =>
    obtain ⟨r₁, hr', hcond⟩ := hmoved.1 rfl
    obtain rfl : r = r₁ := Option.some.inj (hr₁.symm.trans hr')
    rw [if_pos ⟨rfl, hcond⟩] at hr₂
    exact hleft hr₂ rfl (.inr ⟨rfl, rfl⟩)
  | false =>
    -- nothing was written, so the attempt had the task's progress already
    have hsame : ¬ (r.state ∈ AttemptState.inFlight ∧ (r.state ≠ .downloading ∨ r.progress ≠ some task.progress)) := fun hc =>
      Bool.false_ne_true (hmoved.2 ⟨r, hr₁, hc⟩)
    rw [if_neg fun hc => hsame hc.2] at hr₂
    have hdone : r.state = .downloading ∧ r.progress = some task.progress := by
      by_contra hne
      exact hsame ⟨hf, (not_and_or.1 hne)⟩
    simp only [Bool.false_eq_true, if_false]
    split
    · rw [wp_bind]
      refine wp_mono (t.wp_giveUp_own (I := fun _ => True) hI (by simp) hp hr₂ trivial) ?_ fun _ _ _ => trivial
      rintro gaveUp w₃ ⟨⟨at₃, hr₃⟩, -⟩
      refine wp_mono (wp_spared (I := fun _ => True) (spares_dropped (by simp) gaveUp _ _) hI hr₃ trivial) ?_ fun _ _ _ => trivial
      rintro _ w₄ ⟨hr₄, -⟩
      exact hleft hr₄ rfl (.inl rfl)
    · exact hleft hr₂ rfl (.inr hdone)

theorem wp_advance_own (task : OfflineTask) (taskDir : String) (hp : r.state ≠ .pending)
    (hr : w.ledger.att r.key = some r) (hh : StepBegun r.key (w.history who)) :
    (t.advance r task taskDir).wp (alone who) (fun _ _ => True) (fun _ => LeftAs (fun saw r' => Advanced task saw r r') who r.key r)
      (fun _ _ => True) w := by
  have hI : ∀ (op : Op) (_ : Except Exn op.Res) (_ : List Event), Mute op → True → True := fun _ _ _ _ _ => trivial
  unfold advance
  split
  · rename_i hstatus
    exact t.wp_archiveFinished_own taskDir hstatus hp hr hh
  · rename_i hstatus
    rw [wp_bind]
    refine wp_mono (t.wp_giveUp_own (I := fun _ => True) hI (by simp) hp hr trivial) ?_ fun _ _ _ => trivial
    rintro gaveUp w₁ ⟨⟨at_, hr₁⟩, -⟩
    refine wp_mono (wp_spared (I := fun _ => True) (spares_dropped (by simp) gaveUp _ _) hI hr₁ trivial) ?_ fun _ _ _ => trivial
    rintro _ w₂ ⟨hr₂, -⟩
    exact ⟨_, _, ⟨hr₂, fun _ => rfl⟩, by simp, rfl, (advanced_error hstatus).2 rfl⟩
  · rename_i hfin herr
    split
    · exact t.wp_refreshProgress_own taskDir ‹_› hfin herr hr
    · refine ⟨r, _, ⟨hr, fun _ => rfl⟩, hp, rfl, (advanced_running hfin herr).2 ?_⟩
      rw [if_neg ‹_›]

/-! ### The two ways to come to an attempt -/

/-- Nothing has been shown of the attempt yet. -/
abbrev Unshown (who : ι) (k : AttemptKey) (r : MagnetAttemptRecord) (w : World ι) : Prop := RowStays who k r (fun _ => false) w

/-- The look at the stop token begins the attempt's own step. -/
theorem begun_step {c : Point} {a : Except Exn Unit} {w' : World ι} (hc : ∀ h, stepOf (⟨.checkCancelled c, a⟩ :: h) = some k)
    (hp : r.state ≠ .pending) (hu : Unshown who k r w) (h : alone who w (.checkCancelled c) a w') :
    w'.ledger.att k = some r ∧ StepBegun k (w'.history who) ∧ sawIn .found k (w'.history who) = false := by
  have hblank : ∀ s, Sign.shows s ⟨.checkCancelled c, a⟩ = false := fun s => by cases s <;> rfl
  refine ⟨att_aside hp hu.row h rfl, ?_, ?_⟩
  · rw [history_alone h]
    exact ⟨⟨hc _, (sawIn_blank (hblank _)).trans (hu.saw _)⟩, rfl⟩
  · rw [history_alone h]
    exact (sawIn_blank (hblank _)).trans (hu.saw _)

theorem wp_consider_own {byHash : Listing} {x : InfoHash} (hp : r.state ≠ .pending) (hu : Unshown who r.key r w) :
    (t.consider byHash (x, r)).wp (alone who) (fun _ _ => True)
      (fun _ => LeftAs (fun saw r' => ∀ task taskDir, byHash.lookup x = some (task, taskDir) → Advanced task saw r r') who r.key r)
      (fun _ _ => True) w := by
  unfold consider
  split
  · rename_i task taskDir hlook
    rw [wp_bind, wp_call]
    refine ⟨trivial, fun _ w₁ h₁ => ?_, fun _ _ _ => trivial⟩
    obtain ⟨hr₁, hh₁, -⟩ := begun_step (fun _ => rfl) hp hu h₁
    refine wp_mono (t.wp_advance_own task taskDir hp hr₁ hh₁) ?_ fun _ _ _ => trivial
    rintro _ w₂ ⟨r', saw, hstays, hp', hhash, hadv⟩
    refine ⟨r', saw, hstays, hp', hhash, fun task' taskDir' hlook' => ?_⟩
    cases hlook.symm.trans hlook'
    exact hadv
  · trivial

/-- An attempt found unlisted and out of its grace is archived from its folder or lost, unless its folder was found and
the library took nothing. -/
theorem wp_sweepOne_own {byHash : Listing} {at_ : Time} (hp : r.state ≠ .pending) (hu : Unshown who r.key r w)
    (hlisted : listed byHash r = false) (hgrace : t.inGrace r at_ = false) :
    (t.sweepOne byHash at_ r).wp (alone who) (fun _ _ => True)
      (fun _ => LeftAs (fun saw r' => FiledOrLost r' ↔ (saw .found = true → saw .took = true)) who r.key r) (fun _ _ => True) w := by
  unfold sweepOne
  rw [wp_bind, wp_call]
  refine ⟨trivial, fun _ w₁ h₁ => ?_, fun _ _ _ => trivial⟩
  obtain ⟨hr₁, hh₁, hfound₁⟩ := begun_step (fun _ => rfl) hp hu h₁
  rw [if_neg (by simp [hlisted]), if_neg (by simp [hgrace]), wp_bind, wp_call]
  refine ⟨trivial, fun located w₂ h₂ => ?_, fun _ _ _ => trivial⟩
  have hr₂ := att_aside hp hr₁ h₂ rfl
  have hh₂ : StepBegun r.key (w₂.history who) := history_alone h₂ ▸ ⟨hh₁.1.step rfl, hh₁.2⟩
  cases located with
  | none =>
    -- no folder: the attempt is lost
    have hfound₂ : sawIn .found r.key (w₂.history who) = false := history_alone h₂ ▸ (sawIn_blank rfl).trans hfound₁
    have hI : ∀ op a h, Mute op → sawIn .found r.key h = false → sawIn .found r.key (⟨op, a⟩ :: h) = false :=
      fun _ _ _ hop hh => (sawIn_blank (shows_mute hop).1).trans hh
    dsimp only
    rw [wp_discard]
    refine wp_mono (t.wp_giveUp_own hI (by simp) hp hr₂ hfound₂) ?_ fun _ _ _ => trivial
    rintro _ w₃ ⟨⟨at₃, hr₃⟩, hfound₃⟩
    refine ⟨_, _, ⟨hr₃, fun _ => rfl⟩, by simp, rfl, iff_of_true (.inr rfl) ?_⟩
    dsimp only
    rw [hfound₃]
    exact fun h => by cases h
  | some found =>
    obtain ⟨folder, route⟩ := found
    have hfound₂ : sawIn .found r.key (w₂.history who) = true := history_alone h₂ ▸ sawIn_head rfl hh₁.1.own rfl
    let J (h : List Event) : Prop := StepBegun r.key h ∧ sawIn .found r.key h = true
    have hJ : ∀ op a h, Mute op → J h → J (⟨op, a⟩ :: h) := fun _ _ _ hop hh => ⟨hh.1.mute hop, sawIn_cons hh.2⟩
    dsimp only
    unfold archiveOrphaned
    rw [wp_bind]
    refine wp_mono (wp_spared (spares_ok hp ⟨rfl, rfl, rfl⟩) hJ hr₂ ⟨hh₂, hfound₂⟩) ?_ fun _ _ _ => trivial
    rintro at₃ w₃ ⟨hr₃, hh₃⟩
    rw [wp_bind]
    refine wp_mono (wp_transitionAttempt_alone hr₃ rfl) ?_ fun _ _ _ => trivial
    rintro won w₄ ⟨rfl, hist₄, hr₄⟩
    rw [if_pos rfl, wp_bind]
    refine wp_mono (wp_transitionAttempt_alone hr₄ rfl) ?_ fun _ _ _ => trivial
    rintro won w₅ ⟨rfl, hist₅, hr₅⟩
    have hh₅ : J (w₅.history who) := hist₅ ▸ hJ _ _ _ ⟨rfl, rfl⟩ (hist₄ ▸ hJ _ _ _ ⟨rfl, rfl⟩ hh₃)
    rw [if_pos rfl]
    rw [wp_bind]
    refine wp_mono (t.wp_file_own folder route (by simp) hr₅ hh₅.1 hh₅.2) ?_ fun _ _ _ => trivial
    rintro result w₆ ⟨hr₆, hh₆⟩
    have hfiling : ∀ op a h, Mute op → FolderDone r.key .found result h → FolderDone r.key .found result (⟨op, a⟩ :: h) :=
      fun _ _ _ hop hh => hh.mute hop
    refine wp_mono (t.wp_settle_own hfiling result rfl rfl hr₆ hh₆) ?_ fun _ _ _ => trivial
    rintro _ w₇ ⟨⟨r', hr₇, hhash, hclosed⟩, hh₇⟩
    obtain ⟨r', saw, hstays, hp', hhash', hfound, hclosed⟩ := hh₇.left (r := r) hr₇ hhash hclosed
    refine ⟨r', saw, hstays, hp', hhash', ?_⟩
    cases htook : saw .took with
    | true =>
      rw [htook] at hclosed
      exact iff_of_true (.inl hclosed) fun _ => htook
    | false =>
      rw [htook] at hclosed
      refine iff_of_false ?_ fun h => Bool.false_ne_true (htook.symm.trans (h hfound))
      rcases hclosed with hs | hs <;> simp [FiledOrLost, hs]

end Own

end Tracker

end EmbyxManager
