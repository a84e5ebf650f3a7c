import EmbyxManager.Monitor.Components
import EmbyxManager.Monitor.Schedule
import EmbyxManager.Monitor.Undisturbed
/-!
# A pass re-arms its timer

`retry` of a due record whose row nobody else changes. It submits a magnet, or parks the row
with a timer that is not due, whatever the resolvers and CloudDrive answer. What it does not
survive is its own recursion: `_submit_next` calls itself for each refused magnet.
-/

namespace EmbyxManager.Intake
open Atom Prog AcquisitionRepository Ledger Moment

/-! ## What is claimed -/

/-- A magnet was submitted, or the row waits for a time after `start`. -/
inductive Rearmed (avid : Avid) (start : Time) : Except Exn IntakeOutcome → Ledger → Prop
  | submitted {l : Ledger} {row : AcquisitionRecord} (hrow : l.acq avid = some row) (hdown : row.state = .downloading) :
      Rearmed avid start (.ok .submitted) l
  | parked {l : Ledger} {outcome : IntakeOutcome} {row : AcquisitionRecord} {next : Time}
      (hout : outcome = .noMagnet ∨ outcome = .submitFailed) (hrow : l.acq avid = some row)
      (hstate : row.state = .resolveFailed) (hnext : row.nextActionAt = some next) (hlater : start < next) :
      Rearmed avid start (.ok outcome) l

/-- The magnets one pass may try: what the AVID has left, and what these candidates add. -/
def mayTry (l : Ledger) (avid : Avid) (candidates : List MagnetCandidate) : Nat :=
  (l.untried avid fun _ => true).card + l.freshCount avid candidates

/-- The directory a record is retried in. -/
def retryDir (record : AcquisitionRecord) (fallbackTaskDir : Option String) : Option String :=
  (record.taskDirPath.filter (· ≠ "")).or fallbackTaskDir

/-- Whatever the resolvers answer, the pass has fewer magnets to try than there is room for calls. -/
def WithinRecursion (i : Intake) (l : Ledger) (record : AcquisitionRecord) (fallbackTaskDir : Option String) : Prop :=
  retryDir record fallbackTaskDir ≠ none → ∀ sukebei javbus, ranked i.readers sukebei none javbus ≠ [] →
    mayTry l record.avid (ranked i.readers sukebei none javbus) < i.recursionLimit

theorem mayTry_congr {avid : Avid} {l l' : Ledger} (h : ∀ n, l'.att (avid, n) = l.att (avid, n)) {cs : List MagnetCandidate} :
    mayTry l' avid cs = mayTry l avid cs := by
  unfold mayTry
  have hsame : (l'.appended avid cs 0).length = l'.freshCount avid cs := length_appended fun _ => rfl
  rw [untried_congr h, ← hsame, length_appended h]

/-! ## The steps of a pass -/

section steps
variable {avid : Avid} {T : Env Op.Res Exn Moment} {m : Moment} {record : AcquisitionRecord} {start : Time}

theorem edges_of_due {st : AcquisitionState} (h : st ∈ AcquisitionState.due) :
    .resolveFailed ∈ st.edges ∧ .downloading ∈ st.edges ∧ st ≠ .downloading := by
  revert h
  cases st <;> decide

variable (hT : ∀ m op r m', T m op r m' → leftAlone avid m op r m')
include hT

theorem wp_repark {i : Intake} {row : AcquisitionRecord} {note : String} {outcome : IntakeOutcome} (hf : 0 < i.failedCooldown)
    (havid : record.avid = avid) (hstate : record.state = row.state) (hdue : row.state ∈ AcquisitionState.due)
    (hrow : m.ledger.acq avid = some row) (hstart : start ≤ m.clock) (hout : outcome = .noMagnet ∨ outcome = .submitFailed)
    {X : Exn → Moment → Prop} :
    (do repark i record note; pure outcome : M IntakeOutcome).wp T Anything
      (fun outcome m' => Rearmed avid start (.ok outcome) m'.ledger) X m := by
  unfold repark
  refine (wp_bind _ _).2 ((wp_bind _ _).2 (wp_ensureReleaseDate hT hrow fun date row₁ m₁ hrow₁ hstate₁ _ hclock₁ => ?_))
  refine (wp_bind _ _).2 (wp_now_at hT fun m₂ h₂ => (wp_discard _).2 ?_)
  rw [havid, hstate, ← hstate₁]
  have hedge : .resolveFailed ∈ row₁.state.edges := by
    rw [hstate₁]
    exact (edges_of_due hdue).1
  refine wp_moved hT (h₂.same.acq.trans hrow₁) hedge fun row' m₃ hrow' hst hnext hat _ _ => ?_
  refine .parked hout hrow' hst hnext (lt_of_le_of_lt ?_ (Cadence.lt_nextResolveAt _ _ hf))
  exact hstart.trans (hclock₁.trans h₂.clock)

theorem wp_addOffline {link dir : String} {Q : Bool → Moment → Prop} {X : Exn → Moment → Prop} (n : Nat)
    (hQ : ∀ b m', Passes avid m m' → Q b m') (hX : ∀ e m', Passes avid m m' → X e m') :
    (addOffline link dir n).wp T Anything Q X m := by
  induction n generalizing m with
  | zero => exact wp_ask_any hT hQ fun e m' h _ => hX e m' h
  | succ n ih =>
    unfold addOffline
    refine (wp_bind _ _).2 ((wp_attempt _).2 (wp_ask_any hT (fun b m' h => hQ b m' h) fun e m' h _ => ?_))
    refine wp_ite (fun _ => ih (fun b m'' h' => hQ b m'' (h.trans h')) fun e' m'' h' => hX e' m'' (h.trans h')) fun _ => ?_
    exact hX e m' h

theorem wp_addMagnet {link dir : String} {Q : AddOutcome → Moment → Prop} {X : Exn → Moment → Prop}
    (hQ : ∀ outcome m', Passes avid m m' → Q outcome m') : (addMagnet link dir).wp T Anything Q X m := by
  unfold addMagnet
  refine (wp_bind _ _).2 ((wp_attempt _).2 (wp_addOffline hT 2 (fun b m' h => ?_) fun e m' h => ?_))
  · cases b <;> exact hQ _ m' h
  · cases e <;> exact hQ _ m' h

theorem wp_markDownloading {row : AcquisitionRecord} {at_ : Time} (hrow : m.ledger.acq avid = some row)
    (hdue : row.state ∈ AcquisitionState.due) {Q : Unit → Moment → Prop} {X : Exn → Moment → Prop}
    (hQ : ∀ row' m', m'.ledger.acq avid = some row' → row'.state = .downloading → m.clock ≤ m'.clock → Q () m') :
    (markDownloading avid at_).wp T Anything Q X m := by
  unfold markDownloading
  refine (wp_bind _ _).2 (wp_row hT fun m₁ h₁ => ?_)
  rw [hrow]
  refine wp_ite (fun hdown => absurd hdown (edges_of_due hdue).2.2) fun _ => (wp_discard _).2 ?_
  exact wp_moved hT (h₁.same.acq.trans hrow) (edges_of_due hdue).2.1 fun row' m' hrow' hst _ _ _ hclock =>
    hQ row' m' hrow' hst (h₁.clock.trans hclock)

/-- Within the recursion limit, a magnet is in and the row downloading, or the row is as it was. -/
theorem wp_submitNext {row : AcquisitionRecord} {dir : String} (hdue : row.state ∈ AcquisitionState.due) (limit : Nat) :
    ∀ {m}, m.ledger.acq avid = some row → (m.ledger.untried avid fun _ => true).card < limit →
      (submitNext avid dir limit).wp T Anything (fun accepted m' => m.clock ≤ m'.clock ∧
        if accepted then ∃ row', m'.ledger.acq avid = some row' ∧ row'.state = .downloading else m'.ledger.acq avid = some row)
        (fun _ _ => False) m := by
  induction limit with
  | zero => exact fun _ hlimit => absurd hlimit (Nat.not_lt_zero _)
  | succ limit ih =>
    intro m hrow hlimit
    unfold submitNext
    refine (wp_bind _ _).2 (wp_now_at hT fun m₁ h₁ => (wp_bind _ _).2 ?_)
    refine wp_claim hT (fun m₂ h₂ => ⟨(h₁.trans h₂).clock, (h₁.trans h₂).same.acq.trans hrow⟩) fun claimed m₂ h₂ => ?_
    have h₂ := h₁.claimed h₂
    refine (wp_bind _ _).2 (wp_addMagnet hT fun outcome m₃ h₃ => ?_)
    have h₃ := h₂.trans h₃
    have accepted : (do markDownloading avid m₁.clock; pure true : M Bool).wp T Anything (fun accepted m' => m.clock ≤ m'.clock ∧
        if accepted then ∃ row', m'.ledger.acq avid = some row' ∧ row'.state = .downloading else m'.ledger.acq avid = some row)
        (fun _ _ => False) m₃ :=
      (wp_bind _ _).2 (wp_markDownloading hT (h₃.acq.trans hrow) hdue fun row' m₄ hrow' hst hclock =>
        ⟨h₃.clock.trans hclock, row', hrow', hst⟩)
    cases outcome with
    | duplicate => exact accepted
    | success => exact accepted
    | failed =>
      refine (wp_bind _ _).2 ((wp_discard _).2 (wp_refused hT h₃ fun m₄ h₄ hclock => ?_))
      have hless := h₄.card_untried (q := fun _ => true)
      rw [if_pos rfl] at hless
      refine wp_mono (ih (h₄.acq.trans hrow) (by omega)) ?_ fun _ _ h => h
      rintro b m' ⟨hclock', hrest⟩
      exact ⟨hclock.trans hclock', hrest⟩

theorem wp_resolveOrNone {i : Intake} {Q : List MagnetCandidate → Moment → Prop} {X : Exn → Moment → Prop}
    (hnone : ∀ m', Passes avid m m' → Q [] m')
    (hranked : ∀ sukebei javbus m', Passes avid m m' → Q (ranked i.readers sukebei none javbus) m') :
    (resolveOrNone i avid).wp T Anything Q X m := by
  unfold resolveOrNone resolve
  refine (wp_bind _ _).2 ((wp_attempt _).2 ((wp_bind _ _).2 ?_))
  refine wp_ask_any hT (fun sukebei m₁ h₁ => ?_) fun e m₁ h₁ _ => hnone m₁ h₁
  refine (wp_bind _ _).2 ((wp_attempt _).2 (wp_ask_any hT (fun javbus m₂ h₂ => ?_) fun e m₂ h₂ _ => ?_))
  · exact hranked sukebei javbus m₂ (h₁.trans h₂)
  · exact hranked sukebei [] m₂ (h₁.trans h₂)

/-- The candidates go in, each new one an untried attempt. -/
theorem wp_addAttempts {row : AcquisitionRecord} {cs : List MagnetCandidate} {at_ : Time} (hrow : m.ledger.acq avid = some row)
    (hcs : cs ≠ []) {Q : Nat → Moment → Prop} {X : Exn → Moment → Prop}
    (hQ : ∀ c m', m'.ledger.acq avid = some row → (m'.ledger.untried avid fun _ => true).card = mayTry m.ledger avid cs →
      m.clock ≤ m'.clock → Q c m') : (AcquisitionRepository.addAttempts avid cs at_).wp T Anything Q X m := by
  unfold AcquisitionRepository.addAttempts
  rw [if_neg hcs]
  refine wp_statement hT (.addAttempts avid cs at_) (fun l hsame => addAttempts_isOk (hsame.acq.trans hrow))
    fun l c m' hsame hclock hg => hQ c m' ?_ ?_ hclock
  · exact ((addAttempts_spec hg).1 avid).trans (hsame.acq.trans hrow)
  · rw [mayTry, card_untried_addAttempts hg, untried_congr hsame.att, length_appended hsame.att]

theorem wp_recordAndSubmit {i : Intake} {row : AcquisitionRecord} {cs : List MagnetCandidate} (dir : String)
    (hdue : row.state ∈ AcquisitionState.due) (hrow : m.ledger.acq avid = some row) (hcs : cs ≠ [])
    (hlimit : mayTry m.ledger avid cs < i.recursionLimit) :
    (recordAndSubmit i avid cs dir).wp T Anything (fun accepted m' => m.clock ≤ m'.clock ∧
      if accepted then ∃ row', m'.ledger.acq avid = some row' ∧ row'.state = .downloading else m'.ledger.acq avid = some row)
      (fun _ _ => False) m := by
  unfold recordAndSubmit
  refine (wp_bind _ _).2 (wp_now_at hT fun m₁ h₁ => (wp_bind _ _).2 ((wp_discard _).2 ?_))
  refine wp_addAttempts hT (h₁.same.acq.trans hrow) hcs fun c m₂ hrow₂ hcard hclock => ?_
  have hcard₁ : mayTry m₁.ledger avid cs = mayTry m.ledger avid cs := mayTry_congr h₁.same.att
  refine wp_mono (wp_submitNext hT hdue i.recursionLimit hrow₂ (by omega)) ?_ fun _ _ h => h
  rintro b m' ⟨hclock', hrest⟩
  exact ⟨h₁.clock.trans (hclock.trans hclock'), hrest⟩

/-- A pass within the recursion limit re-arms the timer. -/
theorem wp_retry {i : Intake} {fallback : Option String} (hf : 0 < i.failedCooldown) (havid : record.avid = avid)
    (hdue : record.state ∈ AcquisitionState.due) (hrow : m.ledger.acq avid = some record) (hstart : start ≤ m.clock)
    (hlimit : WithinRecursion i m.ledger record fallback) :
    (retry i record fallback).wp T Anything (fun outcome m' => Rearmed avid start (.ok outcome) m'.ledger)
      (fun _ _ => False) m := by
  subst havid
  unfold retry
  rw [show (record.taskDirPath.filter (· ≠ "")).or fallback = retryDir record fallback from rfl]
  cases hdir : retryDir record fallback with
  | none => exact wp_repark hT hf rfl rfl hdue hrow hstart (.inr rfl)
  | some taskDir =>
    have parks : ∀ {m₁ note outcome}, m₁.ledger.acq record.avid = some record → m.clock ≤ m₁.clock →
        outcome = .noMagnet ∨ outcome = .submitFailed →
          (do repark i record note; pure outcome : M IntakeOutcome).wp T Anything
            (fun outcome m' => Rearmed record.avid start (.ok outcome) m'.ledger) (fun _ _ => False) m₁ :=
      fun hrow₁ hclock hout => wp_repark hT hf rfl rfl hdue hrow₁ (hstart.trans hclock) hout
    refine (wp_bind _ _).2 (wp_resolveOrNone hT (fun m₁ h₁ => ?_) fun sukebei javbus m₁ h₁ => ?_)
    · exact parks (h₁.same.acq.trans hrow) h₁.clock (.inl rfl)
    · refine wp_ite (fun _ => parks (h₁.same.acq.trans hrow) h₁.clock (.inl rfl)) fun hcs => ?_
      have hmay := hlimit (by rw [hdir]; simp) sukebei javbus hcs
      rw [← mayTry_congr h₁.same.att] at hmay
      refine (wp_bind _ _).2 (wp_mono (wp_recordAndSubmit hT _ hdue (h₁.same.acq.trans hrow) hcs hmay) ?_ fun _ _ h => h)
      rintro accepted m₂ ⟨hclock, hrest⟩
      cases accepted with
      | true =>
        obtain ⟨row', hrow', hdown⟩ := hrest
        exact .submitted hrow' hdown
      | false => exact parks hrest (h₁.clock.trans hclock) (.inr rfl)

end steps

/-! ## Where every magnet is refused -/

section refused
variable {avid : Avid} {out : World.Outside} {m : Moment} {row : AcquisitionRecord}

end refused

/-! ## Every pass -/

section passes
variable {i : Intake} {record : AcquisitionRecord} {fallback : Option String} {l : Ledger} {start at_ : Time}

end passes

/-! ## A long backlog -/

namespace Rearmed

end Rearmed

end EmbyxManager.Intake
