import EmbyxManager.Monitor.OwnMagnet
/-!
# Whether a submission is all or nothing

`retry_acquisition` and `add_magnet` hand a magnet to CloudDrive first and ask for the
transition to DOWNLOADING afterwards, from the row they read at the start. ARCHIVED is
refused before anything is done. IGNORED, which has no edge to DOWNLOADING either, and a
row that moved on meanwhile are refused when CloudDrive already has the magnet.
-/

namespace EmbyxManager
open Atom Prog AcquisitionRepository

/-! ## The two requests -/

/-- A request that submits a magnet of a tracked AVID straight away. -/
inductive Submission where
  | retry (d : Dashboard) (avid : Avid)
  | magnet (d : Dashboard) (avid : Avid) (link : String)

namespace Submission

def program : Submission → M AcquisitionRecord
  | retry d avid => d.retryAcquisition avid
  | magnet d avid link => d.addMagnet avid link

def avid : Submission → Avid
  | retry _ avid => avid
  | magnet _ avid _ => avid

end Submission

/-- The state of the row is why the request fails. -/
def Exn.OfState (e : Exn) : Prop :=
  e = .apiError 409 "already_archived" ∨ e = .apiError 409 "acquisition_changed" ∨
    ∃ source target, e = .illegalAcquisition source target

/-- An attempt is moved to SUBMITTED, or a magnet handed to CloudDrive. -/
def engages : Event → Bool
  | ⟨.sql (.claimNextPending ..), .ok row⟩ => row.isSome
  | ⟨.sql (.claimAttempt ..), .ok row⟩ => row.isSome
  | ⟨.ask (.addOfflineFiles ..), _⟩ => true
  | _ => false

/-- CloudDrive has the magnet. -/
def tookMagnet : Event → Bool
  | ⟨.ask (.addOfflineFiles ..), r⟩ => took r
  | _ => false

def Ledger.inState (l : Ledger) (avid : Avid) (state : AcquisitionState) : Bool := (l.acq avid).any (·.state = state)

section Statement
variable {ι : Type} [DecidableEq ι]

/-- What `who` did and what it found, newest first. -/
def ownEntries (who : ι) (log : List (Entry ι)) : List (Entry ι) := log.filter (·.who = who)

/-- The state the request takes the row to be in: the one it moved it to, or the one it read first. -/
def takenFor : List (Entry ι) → Option AcquisitionState
  | [] => none
  | e :: own =>
    match e.event with
    | ⟨.sql (.casAcquisition _ _ target _ _ _ _), .ok true⟩ => some target
    | ⟨.sql (.getAcquisition _), .ok (some record)⟩ => (takenFor own).or (some record.state)
    | _ => takenFor own

/-- The row is looked at: a compare-and-set that is answered, or a read that finds it. -/
def looksAtRow : Event → Bool
  | ⟨.sql (.casAcquisition ..), .ok _⟩ | ⟨.sql (.getAcquisition _), .ok (some _)⟩ => true
  | _ => false

/-- Nobody had moved the row whenever the request looked at it, since CloudDrive took the magnet. -/
def nobodyMoved (avid : Avid) : List (Entry ι) → Bool
  | [] => true
  | e :: own =>
    tookMagnet e.event ||
      (!looksAtRow e.event || (takenFor own).all fun state => e.before.inState avid state) && nobodyMoved avid own

/-- A success leaves the row DOWNLOADING; a failure over its state comes before anything is done. -/
structure Submission.AllOrNothing (q : Submission) (who : ι) (out : Except Exn AcquisitionRecord) (w : World ι) : Prop where
  success : ∀ record, out = .ok record → w.ledger.inState q.avid .downloading = true
  failure : ∀ e, out = .error e → e.OfState → ∀ ev ∈ ownEvents who w.log, engages ev = false

/-- Where CloudDrive has the magnet: the row was not IGNORED when it was first read, and nobody else
moves it before the compare-and-set or between that and reading it back. -/
def InStep (avid : Avid) (own : List (Entry ι)) : Prop :=
  (∃ e ∈ own, tookMagnet e.event = true) →
    (∀ first ∈ own.getLast?, first.before.inState avid .ignored = false) ∧ nobodyMoved avid own = true

end Statement

/-! ## What a request is answered -/

/-- Neither the database nor CloudDrive raises what the endpoints raise over a state. -/
theorem answers_not_ofState {t : Time} {l l' : Ledger} {op : Op} {e : Exn} (h : Answers t l op (.error e) l') :
    ¬ e.OfState := by
  have hlegal : ¬ e.Illegal := known_error (answers_known h)
  have hapi : ∀ status code, e ≠ .apiError status code := by
    rintro status code rfl
    cases op with
    | sql s =>
      rcases h with ⟨h, -⟩ | ⟨⟨m, h⟩, -⟩
      · rcases run_error h with h | h <;> cases h
      · cases h
    | now => cases h.1
    | checkCancelled p => rcases h.1 with h | h <;> cases h
    | gathered avids =>
      obtain ⟨⟨_, h, -⟩, -⟩ := h
      cases h
    | ask q => exact h.1
  rintro (h | h | ⟨source, target, rfl⟩)
  · exact hapi _ _ h
  · exact hapi _ _ h
  · exact hlegal trivial

namespace Ledger

theorem inState_iff {l : Ledger} {avid : Avid} {state : AcquisitionState} :
    l.inState avid state = true ↔ ∃ r, l.acq avid = some r ∧ r.state = state := by
  simp [inState, Option.any_eq_true]

theorem inState_of_acq {l : Ledger} {avid : Avid} {record : AcquisitionRecord} (h : l.acq avid = some record)
    (state : AcquisitionState) : l.inState avid state = true ↔ record.state = state := by
  simp [inState, h]

end Ledger

section Own
variable {ι : Type} [DecidableEq ι] {who : ι} {w w' w₁ : World ι} {op : Op} {r : Except Exn op.Res}

theorem ownEvents_eq (log : List (Entry ι)) : ownEvents who log = (ownEntries who log).map (·.event) := by
  induction log with
  | nil => rfl
  | cons e log ih =>
    unfold ownEntries at ih ⊢
    rw [ownEvents_cons, List.filter_cons, ih]
    by_cases he : e.who = who <;> simp [he]

theorem ownEntries_others (h : World.Others who w w₁) : ownEntries who w₁.log = ownEntries who w.log := by
  induction h with
  | refl => rfl
  | tail _ hstep ih =>
    obtain ⟨j, op, r, hj, t, l', -, -, -, rfl⟩ := hstep
    unfold ownEntries at ih ⊢
    rw [List.filter_cons_of_neg (by simpa using hj), ih]

/-- An action of the request, with the ledger it found. -/
theorem among_entry (ht : Pool.Among (World.Step fun _ _ => True) who w op r w') :
    ∃ e : Entry ι, e.event = ⟨op, r⟩ ∧ (∃ t, Answers t e.before op r w'.ledger) ∧
      ownEntries who w'.log = e :: ownEntries who w.log := by
  obtain ⟨w₁, t, hothers, ha, hlog, -⟩ := among_own ht
  refine ⟨⟨who, t, w₁.ledger, op, r⟩, rfl, ⟨t, ha⟩, ?_⟩
  rw [hlog, ← ownEntries_others hothers]
  exact List.filter_cons_of_pos (by simp)

end Own

/-! ## Before the magnet is with CloudDrive -/

section Requests
variable {ι : Type} [DecidableEq ι] {who : ι} {w w' : World ι} {q : Submission} {record : AcquisitionRecord}
  {state : AcquisitionState} {steady : Prop}

/-- What the request is judged by. -/
def Verdict (q : Submission) (who : ι) (out : Except Exn AcquisitionRecord) (w : World ι) : Prop :=
  q.AllOrNothing who out w ↔ InStep q.avid (ownEntries who w.log)

/-- The request itself moves the row. -/
def movesRow : Event → Bool
  | ⟨.sql (.casAcquisition ..), .ok won⟩ => won
  | _ => false

/-- The row has been read, and CloudDrive has no magnet yet. -/
structure Reading (q : Submission) (record : AcquisitionRecord) (who : ι) (w : World ι) : Prop where
  first : ∃ e, (ownEntries who w.log).getLast? = some e ∧ e.before.acq q.avid = some record
  taken : takenFor (ownEntries who w.log) = some record.state
  early : ∀ e ∈ ownEntries who w.log, tookMagnet e.event = false

/-- A failure for another reason, before CloudDrive has the magnet. -/
def Early (who : ι) (e : Exn) (w : World ι) : Prop :=
  ¬ e.OfState ∧ ∀ x ∈ ownEntries who w.log, tookMagnet x.event = false

theorem inStep_of_early {avid : Avid} (h : ∀ e ∈ ownEntries who w.log, tookMagnet e.event = false) :
    InStep avid (ownEntries who w.log) := by
  rintro ⟨e, he, htook⟩
  rw [h e he] at htook
  cases htook

theorem allOrNothing_error {e : Exn} (h : e.OfState → ∀ ev ∈ ownEvents who w.log, engages ev = false) :
    q.AllOrNothing who (.error e) w := by
  refine ⟨fun record heq => ?_, fun e' heq hof => ?_⟩
  · cases heq
  · rw [← Except.error.inj heq] at hof
    exact h hof

theorem Early.verdict {e : Exn} (h : Early who e w) : Verdict q who (.error e) w := by
  obtain ⟨hnot, hearly⟩ := h
  exact ⟨fun _ => inStep_of_early hearly, fun _ => allOrNothing_error fun hof => absurd hof hnot⟩

theorem early_cons {op : Op} {r : Except Exn op.Res} (h : ∀ e ∈ ownEntries who w.log, tookMagnet e.event = false)
    (hr : tookMagnet ⟨op, r⟩ = false) (ht : Pool.Among (World.Step fun _ _ => True) who w op r w') :
    ∀ e ∈ ownEntries who w'.log, tookMagnet e.event = false := by
  obtain ⟨e, he, -, hown⟩ := among_entry ht
  rw [hown]
  refine List.forall_mem_cons.2 ⟨?_, h⟩
  rw [he]
  exact hr

/-- What the row is taken for once the request has seen this. -/
def takenAfter : Event → AcquisitionState → AcquisitionState
  | ⟨.sql (.casAcquisition _ _ target _ _ _ _), .ok true⟩, _ => target
  | _, state => state

omit [DecidableEq ι] in
theorem takenFor_cons {e : Entry ι} {own : List (Entry ι)} {state : AcquisitionState} (h : takenFor own = some state) :
    takenFor (e :: own) = some (takenAfter e.event state) := by
  unfold takenFor takenAfter
  split <;> simp_all

theorem takenAfter_of_not {ev : Event} {state : AcquisitionState} (h : movesRow ev = false) : takenAfter ev state = state := by
  unfold takenAfter
  split
  · cases h
  · rfl

theorem Reading.step {op : Op} {r : Except Exn op.Res} (h : Reading q record who w) (hr : tookMagnet ⟨op, r⟩ = false)
    (hm : movesRow ⟨op, r⟩ = false) (ht : Pool.Among (World.Step fun _ _ => True) who w op r w') :
    Reading q record who w' := by
  obtain ⟨first, hfirst, hacq⟩ := h.first
  obtain ⟨e, he, -, hown⟩ := among_entry ht
  refine ⟨⟨first, ?_, hacq⟩, ?_, early_cons h.early hr ht⟩
  · rw [hown, List.getLast?_cons, hfirst]
    rfl
  · rw [hown, takenFor_cons h.taken, he, takenAfter_of_not hm]

/-- One action before the hand-over. -/
theorem wp_early {op : Op} {Q : op.Res → World ι → Prop} (hop : ∀ r, tookMagnet ⟨op, r⟩ = false ∧ movesRow ⟨op, r⟩ = false)
    (h : Reading q record who w) (hQ : ∀ a w', Reading q record who w' → Q a w') :
    (call op : M op.Res).wp (Pool.Among (World.Step fun _ _ => True) who) (fun _ _ => True) Q (Early who) w := by
  refine (wp_call op).2 ⟨trivial, fun a w' ht => hQ a w' (h.step (hop _).1 (hop _).2 ht),
    fun e w' ht => ⟨?_, early_cons h.early (hop _).1 ht⟩⟩
  obtain ⟨_, -, ⟨t, ha⟩, -⟩ := among_entry ht
  exact answers_not_ofState ha

theorem early_of_reading {e : Exn} (h : Reading q record who w) (he : ¬ e.OfState) : Early who e w := ⟨he, h.early⟩

theorem not_ofState_apiError {status : Nat} {code : String} (h : code ≠ "already_archived" ∧ code ≠ "acquisition_changed") :
    ¬ (Exn.apiError status code).OfState := by
  rintro (heq | heq | ⟨source, target, heq⟩)
  · exact h.1 (Exn.apiError.inj heq).2
  · exact h.2 (Exn.apiError.inj heq).2
  · cases heq

/-! ## Once it is -/

/-- CloudDrive took the magnet; since then the row is taken for `state`, and nobody moved it exactly if `steady`. -/
structure Accepted (q : Submission) (record : AcquisitionRecord) (who : ι) (state : AcquisitionState) (steady : Prop)
    (w : World ι) : Prop where
  first : ∃ e, (ownEntries who w.log).getLast? = some e ∧ e.before.acq q.avid = some record
  took : ∃ e ∈ ownEntries who w.log, tookMagnet e.event = true
  taken : takenFor (ownEntries who w.log) = some state
  steady : nobodyMoved q.avid (ownEntries who w.log) = true ↔ steady

theorem Accepted.inStep (h : Accepted q record who state steady w) :
    InStep q.avid (ownEntries who w.log) ↔ record.state ≠ .ignored ∧ steady := by
  obtain ⟨first, hfirst, hacq⟩ := h.first
  have hignored : first.before.inState q.avid .ignored = false ↔ record.state ≠ .ignored := by
    rw [Bool.eq_false_iff, ne_eq, Ledger.inState_of_acq hacq]
  unfold InStep
  rw [h.steady, hfirst]
  constructor
  · intro hin
    obtain ⟨hnot, hsteady⟩ := hin h.took
    exact ⟨hignored.1 (hnot first rfl), hsteady⟩
  · rintro ⟨hnot, hsteady⟩ -
    refine ⟨fun first' heq => ?_, hsteady⟩
    rw [← Option.some.inj heq]
    exact hignored.2 hnot

/-- The attempt was claimed and the magnet handed over. -/
theorem Accepted.engaged (h : Accepted q record who state steady w) : ¬ ∀ ev ∈ ownEvents who w.log, engages ev = false := by
  obtain ⟨e, he, htook⟩ := h.took
  intro hnone
  have hengages : engages e.event = true := by
    revert htook
    unfold tookMagnet
    split
    · rename_i heq
      rw [heq]
      exact fun _ => rfl
    · exact (absurd · Bool.false_ne_true)
  have hmem : e.event ∈ ownEvents who w.log := by
    rw [ownEvents_eq]
    exact List.mem_map.2 ⟨e, he, rfl⟩
  rw [hnone _ hmem] at hengages
  cases hengages

theorem Accepted.step {op : Op} {r : Except Exn op.Res} (h : Accepted q record who state steady w)
    (hr : tookMagnet ⟨op, r⟩ = false) (ht : Pool.Among (World.Step fun _ _ => True) who w op r w') :
    ∃ before t, Answers t before op r w'.ledger ∧
      Accepted q record who (takenAfter ⟨op, r⟩ state)
        ((looksAtRow ⟨op, r⟩ = true → before.inState q.avid state = true) ∧ steady) w' := by
  obtain ⟨first, hfirst, hacq⟩ := h.first
  obtain ⟨took, htook, htaken⟩ := h.took
  obtain ⟨e, he, ⟨t, ha⟩, hown⟩ := among_entry ht
  refine ⟨e.before, t, ha, ⟨first, ?_, hacq⟩, ⟨took, ?_, htaken⟩, ?_, ?_⟩
  · rw [hown, List.getLast?_cons, hfirst]
    rfl
  · rw [hown]
    exact List.mem_cons_of_mem _ htook
  · rw [hown, takenFor_cons h.taken, he]
  · rw [hown, nobodyMoved, he, hr, h.taken, Bool.false_or, Bool.and_eq_true, h.steady]
    simp [imp_iff_not_or]

/-- CloudDrive takes the magnet. -/
theorem Reading.accept {op : Op} {r : Except Exn op.Res} (h : Reading q record who w) (hr : tookMagnet ⟨op, r⟩ = true)
    (hm : movesRow ⟨op, r⟩ = false) (ht : Pool.Among (World.Step fun _ _ => True) who w op r w') :
    Accepted q record who record.state True w' := by
  obtain ⟨first, hfirst, hacq⟩ := h.first
  obtain ⟨e, he, -, hown⟩ := among_entry ht
  refine ⟨⟨first, ?_, hacq⟩, ⟨e, ?_, ?_⟩, ?_, ?_⟩
  · rw [hown, List.getLast?_cons, hfirst]
    rfl
  · rw [hown]
    exact List.mem_cons_self
  · rw [he]
    exact hr
  · rw [hown, takenFor_cons h.taken, he, takenAfter_of_not hm]
  · simp [hown, nobodyMoved, he, hr]

/-- A failure for another reason keeps the promise, and so must everything before it. -/
theorem Accepted.verdict_other {e : Exn} (h : Accepted q record who state steady w) (he : ¬ e.OfState)
    (hstate : record.state ≠ .ignored) (hsteady : steady) : Verdict q who (.error e) w :=
  ⟨fun _ => h.inStep.2 ⟨hstate, hsteady⟩, fun _ => allOrNothing_error fun hof => absurd hof he⟩

/-- A failure over the state comes too late. -/
theorem Accepted.verdict_late {e : Exn} (h : Accepted q record who state steady w) (he : e.OfState)
    (hout : ¬ (record.state ≠ .ignored ∧ steady)) : Verdict q who (.error e) w :=
  ⟨fun hall => absurd (hall.failure e rfl he) h.engaged, fun hin => absurd (h.inStep.1 hin) hout⟩

/-! ## The endpoints -/

theorem wp_reload (h : Accepted q record who .downloading steady w) (hstate : record.state ≠ .ignored) (hsteady : steady) :
    (Dashboard.load record.avid).wp (Pool.Among (World.Step fun _ _ => True) who) (fun _ _ => True)
      (fun r => Verdict q who (.ok r)) (fun e => Verdict q who (.error e)) w := by
  unfold Dashboard.load
  refine (wp_bind _ _).2 ((wp_call _).2 ⟨trivial, fun found w' ht => ?_, fun e w' ht => ?_⟩)
  · obtain ⟨before, t, ha, h'⟩ := h.step rfl ht
    have hsame : before.acq record.avid = found ∧ before = w'.ledger := by
      simpa only [Answers, Sql.Gives, Sql.run, Except.ok.injEq, Prod.mk.injEq] using ha
    cases found with
    | none => exact h'.verdict_other (not_ofState_apiError (by decide)) hstate ⟨(absurd · Bool.false_ne_true), hsteady⟩
    | some r =>
      rw [hsame.2] at h'
      refine ⟨fun hall => h'.inStep.2 ⟨hstate, fun _ => ?_, hsteady⟩, fun hin => ⟨fun _ _ => ?_, fun _ he => by cases he⟩⟩
      · exact hall.success r rfl
      · exact (h'.inStep.1 hin).2.1 rfl
  · obtain ⟨before, t, ha, h'⟩ := h.step rfl ht
    exact h'.verdict_other (answers_not_ofState ha) hstate ⟨(absurd · Bool.false_ne_true), hsteady⟩

/-- DOWNLOADING has no edge from the two states that are left for good, one of which was refused. -/
theorem not_downloading_edge {state : AcquisitionState} (h : state ≠ .archived) :
    .downloading ∉ state.edges ↔ state = .ignored := by
  cases state <;> simp_all [AcquisitionState.edges]

theorem wp_handOver (h : Accepted q record who record.state True w) (havid : record.avid = q.avid)
    (hstate : record.state ≠ .archived) :
    (Dashboard.handOver record).wp (Pool.Among (World.Step fun _ _ => True) who) (fun _ _ => True)
      (fun r => Verdict q who (.ok r)) (fun e => Verdict q who (.error e)) w := by
  unfold Dashboard.handOver
  refine wp_ite (fun hdown => ?_) fun hnot => ?_
  · rw [hdown] at h
    exact wp_reload h (by rw [hdown]; decide) trivial
  unfold Dashboard.move
  refine (wp_bind _ _).2 ((wp_call _).2 ⟨trivial, fun at_ w₁ ht => ?_, fun e w₁ ht => ?_⟩)
  · obtain ⟨found, -, -, h₁⟩ := h.step rfl ht
    have hclock : (looksAtRow ⟨.now, .ok at_⟩ = true → found.inState q.avid record.state = true) ∧ True :=
      ⟨(absurd · Bool.false_ne_true), trivial⟩
    unfold transition
    by_cases hedge : .downloading ∈ record.state.edges
    · rw [if_pos hedge]
      have hignored : record.state ≠ .ignored := fun h => absurd hedge ((not_downloading_edge hstate).2 h)
      refine (wp_bind _ _).2 ((wp_call _).2 ⟨trivial, fun won w₂ ht => ?_, fun e w₂ ht => ?_⟩)
      · obtain ⟨before, t, ha, h₂⟩ := h₁.step rfl ht
        -- the compare-and-set won exactly when the row was still in the state that was read
        have hwon : before.inState q.avid record.state = won := by
          have hfst : (before.casAcquisition record.avid record.state .downloading at_ none none none).1 = won := by
            simp only [Answers, Sql.Gives, Sql.run, Except.ok.injEq] at ha
            exact congrArg Prod.fst ha
          rw [Bool.eq_iff_iff, ← hfst, Ledger.casAcquisition_fst, havid]
          exact Ledger.inState_iff
        cases won with
        | true => exact wp_reload h₂ hignored ⟨fun _ => hwon, hclock⟩
        | false =>
          refine h₂.verdict_late (.inr (.inl rfl)) fun hall => ?_
          have hfound := hall.2.1 rfl
          exact Bool.false_ne_true (hwon.symm.trans hfound)
      · obtain ⟨before, t, ha, h₂⟩ := h₁.step rfl ht
        exact h₂.verdict_other (answers_not_ofState ha) hignored ⟨(absurd · Bool.false_ne_true), hclock⟩
    · rw [if_neg hedge]
      refine h₁.verdict_late (.inr (.inr ⟨_, _, rfl⟩)) fun hall => ?_
      exact hall.1 ((not_downloading_edge hstate).1 hedge)
  · obtain ⟨before, t, ha, -⟩ := h.step rfl ht
    cases ha.1

/-- A refused attempt is given back, and the request fails. -/
theorem wp_rejected {no : Nat} {error : Option String} {Q : Unit → World ι → Prop} (h : Reading q record who w) :
    (do let refused ← now
        discard (transitionAttempt q.avid no .submitted .error refused error)
        .raise (.apiError 502 "offline_task_rejected") : M Unit).wp (Pool.Among (World.Step fun _ _ => True) who)
      (fun _ _ => True) Q (Early who) w := by
  refine (wp_bind _ _).2 (wp_early (fun _ => ⟨rfl, rfl⟩) h fun at_ w₁ h₁ => (wp_bind _ _).2 ((wp_discard _).2 ?_))
  refine wp_early (fun _ => ⟨rfl, rfl⟩) h₁ fun won w₂ h₂ => ?_
  exact early_of_reading h₂ (not_ofState_apiError (by decide))

/-- The magnet is with CloudDrive, or it is not. -/
theorem wp_submitMagnet_either (h : Reading q record who w) (cloudConfigured : Bool) (fallbackDirs : List String)
    (magnet : String) :
    (submitMagnet cloudConfigured fallbackDirs q.avid magnet).wp (Pool.Among (World.Step fun _ _ => True) who) (fun _ _ => True)
      (fun taken w' => (taken = true → Accepted q record who record.state True w') ∧ (taken = false → Reading q record who w')) (Early who) w := by
  have refused : ∀ {w}, Reading q record who w →
      (false = true → Accepted q record who record.state True w) ∧ (false = false → Reading q record who w) := fun h => ⟨(absurd · Bool.false_ne_true), fun _ => h⟩
  unfold submitMagnet
  refine wp_ite (fun _ => refused h) fun _ => (wp_bind _ _).2 (wp_early (fun _ => ⟨rfl, rfl⟩) h fun found w₁ h₁ => ?_)
  generalize (found.bind (·.taskDirPath)).or fallbackDirs.head? = dir
  cases dir with
  | none => exact refused h₁
  | some dir =>
    refine (wp_bind _ _).2 ((wp_attempt _).2 ((wp_call _).2 ⟨trivial, fun taken w₂ ht => ?_, fun e w₂ ht => ?_⟩))
    · have htold : tookMagnet ⟨.ask (.addOfflineFiles [magnet] dir), .ok taken⟩ = taken := rfl
      exact ⟨fun htaken => h₁.accept (htold.trans htaken) rfl ht, fun htaken => h₁.step (htold.trans htaken) rfl ht⟩
    · cases e with
      | rpcError details =>
        have htold : tookMagnet ⟨.ask (.addOfflineFiles [magnet] dir), .error (.rpcError details)⟩ = duplicateTask details := rfl
        exact ⟨fun htaken => h₁.accept (htold.trans htaken) rfl ht, fun htaken => h₁.step (htold.trans htaken) rfl ht⟩
      | _ => exact refused (h₁.step rfl rfl ht)

theorem wp_claimLoop_early (at_ : Time) (n : Nat) (h : Reading q record who w) :
    (claimLoop q.avid at_ n).wp (Pool.Among (World.Step fun _ _ => True) who) (fun _ _ => True)
      (fun _ => Reading q record who) (Early who) w := by
  induction n generalizing w with
  | zero => exact h
  | succ n ih =>
    unfold claimLoop
    refine (wp_bind _ _).2 ((wp_attempt _).2 ((wp_call _).2 ⟨trivial, fun row w' ht => h.step rfl rfl ht, fun e w' ht => ?_⟩))
    obtain ⟨_, -, ⟨t, ha⟩, -⟩ := among_entry ht
    have hnot := answers_not_ofState ha
    have h' := h.step rfl rfl ht
    cases e with
    | uniqueViolation => exact ih h'
    | _ => exact early_of_reading h' hnot

theorem wp_claimed (attemptNo : Option Nat) (at_ : Time) (h : Reading q record who w) :
    (Dashboard.claimed q.avid attemptNo at_).wp (Pool.Among (World.Step fun _ _ => True) who) (fun _ _ => True)
      (fun _ => Reading q record who) (Early who) w := by
  cases attemptNo with
  | none => exact wp_claimLoop_early at_ claimRetries h
  | some no =>
    unfold Dashboard.claimed claimAttempt
    refine (wp_bind _ _).2 ((wp_attempt _).2 ((wp_bind _ _).2 ((wp_attempt _).2 ((wp_call _).2 ⟨trivial, fun row w' ht => h.step rfl rfl ht,
      fun e w' ht => ?_⟩))))
    obtain ⟨_, -, ⟨t, ha⟩, -⟩ := among_entry ht
    have hnot := answers_not_ofState ha
    have h' := h.step rfl rfl ht
    cases e with
    | uniqueViolation => exact early_of_reading h' (not_ofState_apiError (by decide))
    | magnetInUse a n => exact early_of_reading h' (not_ofState_apiError (by decide))
    | _ => exact early_of_reading h' hnot

theorem wp_submit_either (d : Dashboard) (attemptNo : Option Nat) (h : Reading q record who w) :
    (d.submit q.avid attemptNo).wp (Pool.Among (World.Step fun _ _ => True) who) (fun _ _ => True)
      (fun _ => Accepted q record who record.state True) (Early who) w := by
  unfold Dashboard.submit
  refine wp_ite (fun _ => early_of_reading h (not_ofState_apiError (by decide))) fun _ => ?_
  refine (wp_bind _ _).2 (wp_early (fun _ => ⟨rfl, rfl⟩) h fun at_ w₁ h₁ => (wp_bind _ _).2 ?_)
  refine wp_mono (wp_claimed attemptNo at_ h₁) (fun row w₂ h₂ => ?_) fun _ _ h => h
  cases row with
  | none => exact early_of_reading h₂ (not_ofState_apiError (by decide))
  | some row =>
    refine (wp_bind _ _).2 (wp_mono (wp_submitMagnet_either h₂ _ _ _) (fun taken w₃ h₃ => ?_) fun _ _ h => h)
    exact wp_ite (fun htaken => h₃.1 htaken) fun htaken => wp_rejected (h₃.2 (by simpa using htaken))

/-- The first read: nothing else has been done, and it finds the row or fails. -/
theorem wp_loaded {α : Type} {f : AcquisitionRecord → M α} {Q : α → World ι → Prop} {X : Exn → World ι → Prop}
    (hnew : ownEvents who w.log = []) (hX : ∀ e w', Early who e w' → X e w')
    (hf : ∀ record w', record.avid = q.avid → Reading q record who w' →
      (∀ ev ∈ ownEvents who w'.log, engages ev = false) →
      (f record).wp (Pool.Among (World.Step fun _ _ => True) who) (fun _ _ => True) Q X w') :
    (Dashboard.load q.avid >>= f).wp (Pool.Among (World.Step fun _ _ => True) who) (fun _ _ => True) Q X w := by
  have hnone : ownEntries who w.log = [] := by simpa [ownEvents_eq] using hnew
  have hearly : ∀ e ∈ ownEntries who w.log, tookMagnet e.event = false := by
    rw [hnone]
    exact List.forall_mem_nil _
  unfold Dashboard.load
  refine (wp_bind _ _).2 ((wp_bind _ _).2 ((wp_call _).2 ⟨trivial, fun found w' ht => ?_, fun e w' ht => ?_⟩))
  · have hearly' := early_cons hearly rfl ht
    obtain ⟨e, he, ⟨t, ha⟩, hown⟩ := among_entry ht
    cases found with
    | none => exact hX _ w' ⟨not_ofState_apiError (by decide), hearly'⟩
    | some record =>
      have hrow : e.before.acq q.avid = some record := by
        simp only [Answers, Sql.Gives, Sql.run, Except.ok.injEq, Prod.mk.injEq] at ha
        exact ha.1
      rw [hnone] at hown
      refine hf record w' (Ledger.acq_avid hrow) ⟨⟨e, by rw [hown]; rfl, hrow⟩, ?_, hearly'⟩ ?_
      · simp [hown, takenFor, he]
      rw [ownEvents_eq, hown, List.map_singleton, he]
      exact List.forall_mem_singleton.2 rfl
  · obtain ⟨e', -, ⟨t, ha⟩, -⟩ := among_entry ht
    exact hX e w' ⟨answers_not_ofState ha, early_cons hearly rfl ht⟩

/-- ARCHIVED is refused in time. -/
theorem verdict_archived (h : Reading q record who w) (hnothing : ∀ ev ∈ ownEvents who w.log, engages ev = false) :
    Verdict q who (.error (.apiError 409 "already_archived")) w :=
  ⟨fun _ => inStep_of_early h.early, fun _ => allOrNothing_error fun _ => hnothing⟩

theorem Submission.wp_program (q : Submission) (hnew : ownEvents who w.log = []) :
    q.program.wp (Pool.Among (World.Step fun _ _ => True) who) (fun _ _ => True) (fun r => Verdict q who (.ok r))
      (fun e => Verdict q who (.error e)) w := by
  cases q with
  | retry d avid =>
    refine wp_loaded (q := .retry d avid) hnew (fun _ _ h => h.verdict) fun record w₁ havid h₁ hnothing => ?_
    refine wp_ite (fun _ => verdict_archived h₁ hnothing) fun hstate => (wp_bind _ _).2 ?_
    exact wp_mono (wp_submit_either d none h₁) (fun _ w₂ h₂ => wp_handOver h₂ havid hstate) fun _ _ h => h.verdict
  | magnet d avid link =>
    refine wp_loaded (q := .magnet d avid link) hnew (fun _ _ h => h.verdict) fun record w₁ havid h₁ hnothing => ?_
    refine wp_ite (fun _ => verdict_archived h₁ hnothing) fun hstate => ?_
    have unusable : Verdict (.magnet d avid link) who (.error (.apiError 400 "unusable_magnet")) w₁ :=
      (early_of_reading h₁ (not_ofState_apiError (by decide))).verdict
    cases hm : Intake.isMagnet link with
    | false => exact unusable
    | true =>
      cases hhash : d.readers.extractInfoHash link with
      | none => exact unusable
      | some hash =>
        refine (wp_bind _ _).2 (wp_mono (wp_early (fun _ => ⟨rfl, rfl⟩) h₁ fun at_ w₂ h₂ => h₂) (fun at_ w₂ h₂ => ?_) fun _ _ h => h.verdict)
        refine (wp_bind _ _).2 (wp_mono (wp_early (fun _ => ⟨rfl, rfl⟩) h₂ fun n w₃ h₃ => h₃) (fun n w₃ h₃ => ?_) fun _ _ h => h.verdict)
        refine wp_ite (fun _ => (early_of_reading h₃ (not_ofState_apiError (by decide))).verdict) fun _ => ?_
        refine (wp_bind _ _).2 (wp_mono (wp_early (fun _ => ⟨rfl, rfl⟩) h₃ fun rows w₄ h₄ => h₄) (fun rows w₄ h₄ => ?_) fun _ _ h => h.verdict)
        cases rows.getLast? with
        | none =>
          refine (early_of_reading h₄ ?_).verdict
          rintro (h | h | ⟨source, target, h⟩) <;> cases h
        | some last =>
          refine (wp_bind _ _).2 (wp_mono (wp_submit_either d (some last.attemptNo) h₄) (fun _ w₅ h₅ => ?_) fun _ _ h => h.verdict)
          exact wp_handOver h₅ havid hstate

/-- Whatever the others do and whatever is answered, a submission is all or nothing exactly when the
row was not IGNORED at the first read and is as the request needs it once CloudDrive has the magnet. -/
theorem submission_all_or_nothing_iff (q : Submission) {w' : World ι} {out : Except Exn AcquisitionRecord}
    (hnew : ownEvents who w.log = []) (h : q.program.Runs (Pool.Among (World.Step fun _ _ => True) who) w out w') :
    q.AllOrNothing who out w' ↔ InStep q.avid (ownEntries who w'.log) := by
  obtain ⟨hok, herr⟩ := wp_runs (q.wp_program hnew) h
  cases out with
  | ok record => exact hok record rfl
  | error e => exact herr e rfl

end Requests

/-! ## An ignored acquisition -/

namespace Ignored

open Overtaking

/-- A queued AVID with a magnet to try. -/
def queued : List Sql := [.insertAcquisition "A-1" "manual" (some "/inbox") none none 0, .addAttempts "A-1" [⟨magnetOf 'A', some (hexOf 'A'), "rss", none⟩] 0]

/-- What an operator then ignored. -/
def ignored : List Sql := queued ++ [.casAcquisition "A-1" .discovered .ignored 0 (some "ignored by an operator") none none]

def retried : Submission := .retry { readers := plainReaders, fallbackDirs := ["/inbox"] } "A-1"

def begun (statements : List Sql) : World Unit := ⟨Ledger.empty.after statements, 0, []⟩

/-- The retry with nobody else about; CloudDrive takes everything. -/
def answered (statements : List Sql) : Except Exn AcquisitionRecord × World Unit :=
  World.play () (1, taking) (begun statements) retried.program

theorem retried_runs (statements : List Sql) :
    retried.program.Runs (Pool.Among (World.Step fun _ _ => True) ()) (begun statements) (answered statements).1 (answered statements).2 := by
  have halone := World.play_runs () (1, taking) (begun statements) retried.program
  rw [answered]
  exact halone.mono fun w _ _ _ ht => ⟨w, .refl, ht⟩

end Ignored

open Ignored in
theorem submission_all_or_nothing_queued :
    retried.program.Runs (Pool.Among (World.Step fun _ _ => True) ()) (begun queued) (answered queued).1 (answered queued).2 ∧
      (answered queued).1.toOption.isSome = true ∧ retried.AllOrNothing () (answered queued).1 (answered queued).2 := by
  have hruns := retried_runs queued
  have hin : InStep "A-1" (ownEntries () (answered queued).2.log) := fun _ => ⟨by decide, by decide⟩
  have hall := (submission_all_or_nothing_iff retried rfl hruns).2 hin
  exact ⟨hruns, by decide, hall⟩

open Ignored in
/-- CloudDrive downloads what the operator ignored, and the request fails over the missing edge. -/
theorem retry_of_ignored :
    retried.program.Runs (Pool.Among (World.Step fun _ _ => True) ()) (begun ignored) (answered ignored).1 (answered ignored).2 ∧
      (answered ignored).1 = .error (.illegalAcquisition .ignored .downloading) ∧
      (∃ r, (answered ignored).2.ledger.att ("A-1", 1) = some r ∧ r.state = .submitted) ∧
      ¬ retried.AllOrNothing () (answered ignored).1 (answered ignored).2 := by
  have hout : (answered ignored).1 = .error (.illegalAcquisition .ignored .downloading) := by decide
  have hatt : ((answered ignored).2.ledger.att ("A-1", 1)).any (·.state = .submitted) = true := by decide
  obtain ⟨r, hr, hstate⟩ := (Option.any_eq_true _ _).1 hatt
  have hdone : (ownEvents () (answered ignored).2.log).any engages = true := by decide
  obtain ⟨ev, hev, hengages⟩ := List.any_eq_true.1 hdone
  refine ⟨retried_runs ignored, hout, ⟨r, hr, of_decide_eq_true hstate⟩, fun hall => ?_⟩
  have hnone := hall.failure _ hout (.inr (.inr ⟨_, _, rfl⟩)) ev hev
  rw [hengages] at hnone
  cases hnone

end EmbyxManager
