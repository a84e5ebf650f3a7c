import EmbyxManager.Monitor.Exclusive
/-!
# How an attempt comes to life

A poll moves attempts along the edges and never into flight; nobody else moves one but to
give it back. So in every interleaving of the components an attempt becomes live by a claim
and by nothing else, and one that left the flight never returns to it.
-/

namespace EmbyxManager
open Atom Prog AcquisitionRepository

/-- An attempt is moved along an edge, and not into flight. -/
def Lawful : Op → Prop
  | .sql (.casAttempt _ _ expected target _ _) => target ∈ expected.edges ∧ target ∉ AttemptState.inFlight
  | _ => True

theorem Mild.lawful {op : Op} (h : Mild op) : Lawful op := by
  cases op with
  | sql s =>
    cases s with
    | casAttempt avid no expected target at_ error =>
      obtain ⟨rfl, rfl⟩ := h
      exact ⟨by decide, by decide⟩
    | _ => trivial
  | _ => trivial

theorem Quiet.lawful {op : Op} (h : Quiet op) : Lawful op := h.1.lawful

theorem Still.lawful {op : Op} (h : Still op) : Lawful op := h.1.lawful

theorem lawful_transitionAttempt {avid : Avid} {no : Nat} {expected target : AttemptState} {at_ : Time}
    {error : Option String} (h : target ∉ AttemptState.inFlight) :
    Uses Lawful (transitionAttempt avid no expected target at_ error) := by
  unfold transitionAttempt
  split
  · exact uses_ok ⟨‹_›, h⟩
  · trivial

namespace Tracker
variable (t : Tracker)

theorem lawful_giveUp (attempt : MagnetAttemptRecord) {state : AttemptState} (h : state ∉ AttemptState.inFlight)
    (reason : String) : Uses Lawful (t.giveUp attempt state reason) := by
  unfold giveUp
  refine uses_bind (uses_ok trivial) fun at_ => uses_bind (lawful_transitionAttempt h) fun won => ?_
  split
  · exact uses_bind (uses_mono (t.uses_tryNext _ _) fun _ => Quiet.lawful) fun _ => trivial
  · trivial

theorem lawful_settle (attempt : MagnetAttemptRecord) (result : ArchiveResult) : Uses Lawful (t.settle attempt result) := by
  unfold settle
  refine uses_bind (uses_ok trivial) fun at_ => ?_
  split
  · exact uses_bind (uses_discard (lawful_transitionAttempt (by decide))) fun _ => uses_discard (uses_transition trivial)
  · exact uses_bind (uses_discard (lawful_transitionAttempt (by decide))) fun _ =>
      uses_mono (t.uses_tryNext _ _) fun _ => Quiet.lawful
  · exact uses_bind (uses_discard (lawful_transitionAttempt (by decide))) fun _ =>
      uses_runIf (uses_discard (uses_transition trivial))

theorem lawful_archiveFinished (attempt : MagnetAttemptRecord) (task : OfflineTask) (taskDir : String) :
    Uses Lawful (t.archiveFinished attempt task taskDir) := by
  have claimed : ∀ at_, Uses Lawful (claimFinished attempt at_) := by
    intro at_
    unfold claimFinished
    refine uses_ite (lawful_transitionAttempt (by decide)) (uses_bind (lawful_transitionAttempt (by decide)) fun won => ?_)
    exact uses_ite (lawful_transitionAttempt (by decide)) trivial
  unfold archiveFinished
  refine uses_bind (uses_ok trivial) fun at_ => uses_bind (uses_ok trivial) fun record => ?_
  split
  · trivial
  · split
    · trivial
    · refine uses_bind (claimed at_) fun won => ?_
      split
      · refine uses_bind (uses_refreshMount (fun _ => trivial) _ _) fun _ =>
          uses_bind (uses_ok trivial) fun located => ?_
        split
        · exact uses_bind (uses_ok trivial) fun _ => uses_discard (lawful_transitionAttempt (by decide))
        · refine uses_bind (uses_mono (t.uses_file _ _ _) fun _ => Still.lawful) fun result =>
            uses_bind (t.lawful_settle _ _) fun _ => ?_
          exact uses_runIf (uses_mono (uses_removeTask _ _) fun _ => Quiet.lawful)
      · trivial

theorem lawful_consider (byHash : Listing) (joined : InfoHash × MagnetAttemptRecord) :
    Uses Lawful (t.consider byHash joined) := by
  have dropped : ∀ (task : OfflineTask) taskDir gaveUp, Uses Lawful (runIf gaveUp (removeTask task.infoHash taskDir)) :=
    fun _ _ _ => uses_runIf (uses_mono (uses_removeTask _ _) fun _ => Quiet.lawful)
  unfold consider
  split
  · refine uses_bind (uses_ok trivial) fun _ => ?_
    unfold advance
    split
    · exact t.lawful_archiveFinished _ _ _
    · exact uses_bind (t.lawful_giveUp _ (by decide) _) (dropped _ _)
    · split
      · unfold refreshProgress
        refine uses_bind (uses_ok trivial) fun at_ => uses_bind (uses_recordProgress trivial) fun moved => ?_
        split
        · trivial
        · dsimp only
          split
          · exact uses_bind (t.lawful_giveUp _ (by decide) _) (dropped _ _)
          · trivial
      · trivial
  · trivial

theorem lawful_sweepOne (byHash : Listing) (at_ : Time) (attempt : MagnetAttemptRecord) :
    Uses Lawful (t.sweepOne byHash at_ attempt) := by
  unfold sweepOne
  refine uses_bind (uses_ok trivial) fun _ => uses_ite trivial (uses_ite trivial ?_)
  refine uses_bind (uses_ok trivial) fun located => ?_
  split
  · unfold archiveOrphaned
    refine uses_bind (uses_ok trivial) fun at_ => uses_bind (lawful_transitionAttempt (by decide)) fun finished => ?_
    refine uses_ite (uses_bind (lawful_transitionAttempt (by decide)) fun won => uses_ite ?_ trivial) trivial
    exact uses_bind (uses_mono (t.uses_file _ _ _) fun _ => Still.lawful) fun _ => t.lawful_settle _ _
  · exact uses_discard (t.lawful_giveUp _ (by decide) _)

theorem lawful_poll : Uses Lawful t.poll := by
  unfold poll
  refine uses_ite trivial ?_
  unfold listTasks AcquisitionRepository.attemptsByInfoHash sweepLost
  refine uses_bind (uses_foldEach (fun byHash taskDir _ => ?_) _) fun byHash => uses_bind ?_ fun joined =>
    uses_bind (uses_forEach fun j _ => t.lawful_consider byHash j) fun _ => uses_bind ?_ fun _ => ?_
  · exact uses_bind (uses_ok trivial) fun _ => uses_bind (uses_ok trivial) fun _ => trivial
  · exact uses_ite trivial (uses_bind (uses_ok trivial) fun _ => trivial)
  · refine uses_bind (uses_ok trivial) fun at_ => uses_bind (uses_ok trivial) fun attempts => ?_
    exact uses_forEach fun attempt _ => t.lawful_sweepOne byHash at_ attempt
  · exact uses_mono (uses_clearArchived _) fun _ => Quiet.lawful

theorem lawful_replica (polls : Nat) : Uses Lawful (t.replica polls) := by
  refine uses_forEach fun t' ht => ?_
  rw [List.eq_of_mem_replicate ht]
  exact uses_discard (uses_attempt t.lawful_poll)

end Tracker

/-- A poll's thread goes on to the next poll; every other component runs once. -/
def Component.thread (s : Setup) (polls : Nat) : Component → M Unit
  | poll => s.tracker.replica polls
  | c => c.prog s

theorem Component.thread_of_ne {s : Setup} {polls : Nat} {c : Component} (hc : c ≠ poll) : c.thread s polls = c.prog s := by
  cases c with
  | poll => exact absurd rfl hc
  | _ => rfl

theorem Component.lawful_thread (s : Setup) (polls : Nat) (c : Component) : Uses Lawful (c.thread s polls) := by
  by_cases hc : c = poll
  · subst hc
    exact s.tracker.lawful_replica polls
  · rw [Component.thread_of_ne hc]
    exact uses_mono (Component.uses_prog s hc) fun _ => Mild.lawful

/-! ## Coming to life -/

/-- The statement may claim this attempt. -/
def Sql.claims (k : AttemptKey) : Sql → Bool
  | .claimNextPending avid _ => avid = k.1
  | .claimAttempt avid no _ => (avid, no) = k
  | _ => false

/-- The attempt has left the flight: it was finished, or concluded. -/
def AttemptState.landed (st : AttemptState) : Prop := st ≠ .pending ∧ st ∉ inFlight

section Life
variable {s : Sql} {l l' : Ledger} {a : s.Res} {k : AttemptKey} {r' : MagnetAttemptRecord}

theorem AttemptState.landed_of_edge {e t : AttemptState} (he : e.landed) (ht : t ∈ e.edges) : t.landed := by
  revert he ht
  cases e <;> cases t <;> simp [landed, edges, inFlight]

theorem AttemptState.live_of_lawful {e t : AttemptState} (he : t ∈ e.edges) (hf : t ∉ inFlight) (ht : t ∈ live) : e ∈ live := by
  revert he hf ht
  cases e <;> cases t <;> simp [edges, inFlight, live]

/-- A live attempt was live before, with the same magnet and hash, or is claimed by this statement. -/
theorem live_before (h : s.Gives l a l') (hs : Lawful (.sql s)) (hr' : l'.att k = some r') (hl : r'.Live) :
    (∃ r, l.att k = some r ∧ r.Live ∧ r.magnet = r'.magnet ∧ r.infoHash = r'.infoHash) ∨
      ∃ r, l.att k = some r ∧ r.state = .pending ∧ s.claims k = true ∧ r'.state = .submitted ∧ r.infoHash = r'.infoHash := by
  cases hr : l.att k with
  | none =>
    have hp := Sql.att_new h hr hr'
    rw [MagnetAttemptRecord.Live, hp] at hl
    exact absurd hl (by decide)
  | some r =>
    obtain ⟨r'', hr'', heff⟩ := Sql.att_effect h hr
    cases hr'.symm.trans hr''
    cases heff with
    | same => exact .inl ⟨_, rfl, hl, rfl, rfl⟩
    | claimed now hs hp =>
      refine .inr ⟨r, rfl, hp, ?_, rfl, rfl⟩
      rcases hs with rfl | rfl <;> simp [Sql.claims]
    | moved he hst =>
      subst he
      exact .inl ⟨r, rfl, by rw [MagnetAttemptRecord.Live, hst]; exact AttemptState.live_of_lawful hs.1 hs.2 hl, rfl, rfl⟩
    | progressed _ hf => exact .inl ⟨r, rfl, Ledger.live_of_inFlight hf, rfl, rfl⟩

/-- An attempt that left the flight stays out of it, and keeps its magnet and hash. -/
theorem landed_after (h : s.Gives l a l') (hs : Lawful (.sql s)) {r : MagnetAttemptRecord} (hr : l.att k = some r)
    (hst : r.state.landed) :
    ∃ r', l'.att k = some r' ∧ r'.state.landed ∧ r'.magnet = r.magnet ∧ r'.infoHash = r.infoHash := by
  obtain ⟨r', hr', heff⟩ := Sql.att_effect h hr
  refine ⟨r', hr', ?_⟩
  cases heff with
  | same => exact ⟨hst, rfl, rfl⟩
  | claimed now _ hp => exact absurd hp hst.1
  | moved he hexp =>
    subst he
    exact ⟨AttemptState.landed_of_edge (hexp ▸ hst) hs.1, rfl, rfl⟩
  | progressed _ hf => exact absurd hf hst.2

end Life

/-! ## What happened since -/

section Since
variable {ι : Type}

/-- Since the last action of the kind `stop` there was one of the kind `hit`; either is
told from the action and the ledger it left. -/
def Since (hit stop : Ledger → Entry ι → Bool) : Ledger → List (Entry ι) → Bool
  | _, [] => false
  | after, e :: log => hit after e || (!stop after e && Since hit stop e.before log)

variable {hit mid stop : Ledger → Entry ι → Bool} {after : Ledger} {log : List (Entry ι)} {e : Entry ι}

theorem since_cons : Since hit stop after (e :: log) = true ↔
    hit after e = true ∨ (stop after e = false ∧ Since hit stop e.before log = true) := by simp [Since]

/-- Since the last stop there was a `mid`, and since that a `hit`. -/
theorem Since.trans (h : Since hit mid after log = true) (h' : Since mid stop after log = true) :
    Since hit stop after log = true := by
  induction log generalizing after with
  | nil => cases h
  | cons e log ih =>
    rw [since_cons] at h h' ⊢
    rcases h with h | ⟨hmid, h⟩
    · exact .inl h
    · obtain ⟨hstop, h'⟩ := h'.resolve_left (by simp [hmid])
      exact .inr ⟨hstop, ih h h'⟩

/-- The action claimed the attempt. -/
def Entry.claims (k : AttemptKey) (after : Ledger) (e : Entry ι) : Bool :=
  match e.event.op with
  | .sql s => s.claims k && after.att k ≠ e.before.att k
  | _ => false

end Since

end EmbyxManager
