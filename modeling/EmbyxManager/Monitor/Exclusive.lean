import EmbyxManager.Monitor.Effects
import EmbyxManager.Monitor.Components
/-!
# Two replicas and one download

A finished attempt is claimed by moving it from finished to archiving, and only
one replica can win that. But the join also reads attempts that are archiving,
and a poll that comes to one first moves it back to finished: it takes the claim
from a replica that is still filing the folder.

The claim is exclusive in every run in which nobody takes up an attempt another
replica holds.
-/

namespace EmbyxManager
open Atom Prog AcquisitionRepository Archive

/-- The exception of one poll does not end the replica. -/
def Tracker.replica (t : Tracker) (polls : Nat) : M Unit :=
  Prog.forEach (List.replicate polls t) fun t => discard t.poll.attempt

/-! ## Holding a claim -/

def won : Except Exn Bool → Bool
  | .ok true => true
  | _ => false

/-- A claim is held from the compare-and-set that won it until its holder asks to
settle or release it, or begins its next poll. -/
def holds : List Event → AttemptKey → Bool
  | [], _ => false
  | ⟨.sql (.casAttempt avid no expected target _ _), r⟩ :: h, k =>
    if (avid, no) = k then
      if expected = .archiving then false else expected = .finished && target = .archiving && won r || holds h k
    else holds h k
  | ⟨.checkCancelled (.listing _), _⟩ :: _, _ => false
  | _ :: h, k => holds h k

/-- The claim of an attempt, won. -/
def Claims (k : AttemptKey) (e : Event) : Prop :=
  ∃ at_ error, e = ⟨.sql (.casAttempt k.1 k.2 .finished .archiving at_ error), .ok true⟩

/-- An attempt is asked to leave archiving. -/
def Op.leaves (k : AttemptKey) : Op → Prop
  | .sql (.casAttempt avid no expected _ _ _) => (avid, no) = k ∧ expected = .archiving
  | _ => False

theorem holds_cons {e : Event} {h : List Event} {k : AttemptKey} (hh : holds (e :: h) k = true) :
    Claims k e ∨ (holds h k = true ∧ ¬ e.op.leaves k) := by
  obtain ⟨op, r⟩ := e
  cases op with
  | sql s =>
    cases s with
    | casAttempt avid no expected target at_ error =>
      simp only [holds] at hh
      split at hh
      · rename_i hk
        split at hh
        · cases hh
        · rename_i hne
          simp only [Bool.or_eq_true, Bool.and_eq_true, decide_eq_true_eq] at hh
          rcases hh with ⟨⟨rfl, rfl⟩, hw⟩ | hh
          · subst hk
            refine .inl ⟨at_, error, ?_⟩
            unfold won at hw
            split at hw
            · rfl
            · cases hw
          · exact .inr ⟨hh, fun hl => hne hl.2⟩
      · rename_i hk
        exact .inr ⟨hh, fun hl => hk hl.1⟩
    | _ => exact .inr ⟨hh, id⟩
  | checkCancelled p =>
    cases p with
    | listing taskDir => cases hh
    | _ => exact .inr ⟨hh, id⟩
  | _ => exact .inr ⟨hh, id⟩

theorem holds_claimed {k : AttemptKey} {at_ : Time} {error : Option String} {h : List Event} :
    holds (⟨.sql (.casAttempt k.1 k.2 .finished .archiving at_ error), .ok true⟩ :: h) k = true := by
  simp [holds, won]

theorem holds_mild {op : Op} {r : Except Exn op.Res} {h : List Event} {k : AttemptKey} (hop : Mild op)
    (hh : holds h k = true) : holds (⟨op, r⟩ :: h) k = true := by
  cases op with
  | sql s =>
    cases s with
    | casAttempt avid no expected target at_ error =>
      obtain ⟨rfl, rfl⟩ := hop
      simp [holds, hh]
    | _ => exact hh
  | checkCancelled p =>
    cases p with
    | listing taskDir => cases hop
    | _ => exact hh
  | _ => exact hh

/-! ## The guard of a replica -/

/-- The claim on this attempt is held. -/
abbrev Holding (k : AttemptKey) (h : List Event) : Prop := holds h k = true

/-- The poll has come to this attempt. -/
abbrev CameTo (k : AttemptKey) (h : List Event) : Prop := stepOf h = some k

/-- The poll has come to this attempt, and holds its claim. -/
def Entitled (k : AttemptKey) (h : List Event) : Prop := CameTo k h ∧ Holding k h

/-- Leaving archiving is asked for by the holder, unless it is the release; and only the
holder of the attempt the poll has come to archives. -/
def Proper (h : List Event) : Op → Prop
  | .sql (.casAttempt avid no expected target _ _) =>
    expected = .archiving → target = .finished ∨ holds h (avid, no) = true
  | op => op.archives = true → ∃ k, Entitled k h

/-- What is asked between winning a claim and settling it. -/
def WhileHeld (op : Op) : Prop := Still op ∧ OfStep op

theorem Quiet.proper {op : Op} {h : List Event} (hop : Quiet op) : Proper h op := by
  cases op with
  | sql s =>
    cases s with
    | casAttempt avid no expected target at_ error =>
      obtain ⟨⟨rfl, -⟩, -⟩ := hop
      intro he
      cases he
    | _ => exact fun ha => by cases ha
  | _ => exact fun ha => by rw [hop.2.1] at ha; cases ha

theorem Still.proper {op : Op} {h : List Event} {k : AttemptKey} (hop : Still op) (hh : Entitled k h) : Proper h op := by
  cases op with
  | sql s =>
    cases s with
    | casAttempt => cases hop.2
    | _ => exact fun _ => ⟨k, hh⟩
  | _ => exact fun _ => ⟨k, hh⟩

/-- The program keeps to the guard, and to what it holds. -/
abbrev Guarded {α : Type} (I : List Event → Prop) (p : M α) : Prop :=
  p.Keeps (recorded known) Proper I fun _ _ => True

/-- Nothing is assumed of the history. -/
abbrev Anyway (_ : List Event) : Prop := True

/-- The program keeps to the guard where it starts from such a history. -/
abbrev GuardedFrom {α : Type} (I : List Event → Prop) (p : M α) : Prop :=
  ∀ h, I h → p.wp (recorded known) Proper (fun _ _ => True) (fun _ _ => True) h

section Guarded
variable {α : Type} {p : M α} {k : AttemptKey}

theorem guarded_transition {avid : Avid} {expected target : AcquisitionState} {at_ : Time} {note : Option String}
    {next : Option Time} {paths : Option (List String)} :
    Guarded Anyway (transition avid expected target at_ note next paths) := by
  unfold transition
  split
  · exact keeps_call (fun _ _ ha => by cases ha) (fun _ _ _ _ _ => trivial) fun _ _ _ _ _ => trivial
  · exact keeps_raise fun _ _ => trivial

theorem guarded_quiet (hp : Uses Quiet p) : Guarded Anyway p := by
  refine keeps_mono (keeps_of_uses hp (fun _ _ hop _ => hop.proper) ?_) fun _ _ _ => trivial
  exact fun _ _ _ _ _ _ _ => trivial

theorem entitled_whileHeld (hp : Uses WhileHeld p) : Guarded (Entitled k) p := by
  refine keeps_mono (keeps_of_uses hp (fun _ _ hop hh => hop.1.proper hh) ?_) fun _ _ _ => trivial
  rintro h op r _ hop hh ⟨-, rfl⟩
  exact ⟨(stepOf_same hop.2).trans hh.1, holds_mild hop.1.1 hh.2⟩

theorem proper_ok {op : Op} (hop : op.archives = false) (hcas : op.movesAttempt = false) (h : List Event) : Proper h op := by
  cases op with
  | sql s =>
    cases s with
    | casAttempt => cases hcas
    | _ => exact fun ha => by cases ha
  | _ => exact fun ha => by rw [hop] at ha; cases ha

theorem guarded_ok {op : Op} (hop : op.archives = false) (hcas : op.movesAttempt = false) : Guarded Anyway (call op : M op.Res) :=
  keeps_call (fun h _ => proper_ok hop hcas h) (fun _ _ _ _ _ => trivial) fun _ _ _ _ _ => trivial

/-- The step goes on after an action that is no look at the stop token. -/
theorem came_ok {op : Op} (hop : op.archives = false) (hcas : op.movesAttempt = false) (hstep : OfStep op) :
    Guarded (CameTo k) (call op : M op.Res) := by
  refine keeps_call (fun h _ => proper_ok hop hcas h) ?_ fun _ _ _ _ _ => trivial
  rintro h a _ hk ⟨-, rfl⟩
  exact (stepOf_same hstep).trans hk

/-- A move that does not leave archiving, or only releases. -/
theorem guarded_transitionAttempt {avid : Avid} {no : Nat} {expected target : AttemptState} {at_ : Time}
    {error : Option String} (h : expected = .archiving → target ∈ expected.edges → target = .finished) :
    Guarded Anyway (transitionAttempt avid no expected target at_ error) := by
  unfold transitionAttempt
  split
  · exact keeps_call (fun _ _ he => .inl (h he ‹_›)) (fun _ _ _ _ _ => trivial) fun _ _ _ _ _ => trivial
  · exact keeps_raise fun _ _ => trivial

theorem came_transitionAttempt {avid : Avid} {no : Nat} {expected : AttemptState} {at_ : Time} {error : Option String} :
    Guarded (CameTo k) (transitionAttempt avid no expected .finished at_ error) := by
  unfold transitionAttempt
  split
  · refine keeps_call (fun _ _ _ => .inl rfl) ?_ fun _ _ _ _ _ => trivial
    rintro h a _ hk ⟨-, rfl⟩
    exact hk
  · exact keeps_raise fun _ _ => trivial

theorem from_guarded {I : List Event → Prop} (hp : Guarded Anyway p) : GuardedFrom I p := fun h _ => hp h trivial

theorem from_bind {β : Type} {I : List Event → Prop} {f : α → M β} (hp : Guarded I p) (hf : ∀ a, GuardedFrom I (f a)) :
    GuardedFrom I (p >>= f) := by
  intro h hh
  rw [wp_bind]
  exact wp_mono (hp h hh) (fun a h' hh' => hf a h' hh') fun _ _ _ => trivial

theorem from_then {β : Type} {I : List Event → Prop} {f : α → M β} (hp : GuardedFrom I p) (hf : ∀ a, Guarded Anyway (f a)) :
    GuardedFrom I (p >>= f) := by
  intro h hh
  rw [wp_bind]
  exact wp_mono (hp h hh) (fun a h' _ => hf a h' trivial) fun _ _ _ => trivial

/-- The step of an attempt begins with a look at the stop token. -/
theorem guarded_step {p : Point} {f : Unit → M α} (hp : ∀ h, CameTo k (⟨.checkCancelled p, .ok ()⟩ :: h))
    (hf : GuardedFrom (CameTo k) (f ())) : Guarded Anyway (checkCancelled p >>= f) := by
  intro h _
  rw [wp_bind, checkCancelled, wp_call_recorded]
  exact ⟨fun ha => (by cases ha), fun _ _ => hf _ (hp h), fun _ _ => trivial⟩

end Guarded

namespace Tracker
variable (t : Tracker)

theorem guarded_giveUp (attempt : MagnetAttemptRecord) {state : AttemptState} (reason : String)
    (h : state ∉ AttemptState.archiving.edges) : Guarded Anyway (t.giveUp attempt state reason) := by
  unfold giveUp
  refine keeps_bind (guarded_ok rfl rfl) fun at_ => keeps_bind (guarded_transitionAttempt fun he hm => ?_) fun won => ?_
  · rw [he] at hm
    exact absurd hm h
  · split
    · exact keeps_bind (guarded_quiet (t.uses_tryNext _ _)) fun _ => keeps_pure _
    · exact keeps_pure _

/-- Settling starts from a claim that is held, and gives it up. -/
theorem guarded_settle (attempt : MagnetAttemptRecord) (result : ArchiveResult) :
    GuardedFrom (Holding attempt.key) (t.settle attempt result) := by
  have left : ∀ {target : AttemptState} {at_ : Time} {α : Type} {p : M α}, Guarded Anyway p →
      GuardedFrom (Holding attempt.key)
        (discard (transitionAttempt attempt.avid attempt.attemptNo .archiving target at_) >>= fun _ => p) := by
    intro target at_ α p hp h hh
    rw [wp_bind, wp_discard, transitionAttempt]
    split
    · rw [wp_call_recorded]
      exact ⟨fun _ => .inr hh, fun a _ => hp _ trivial, fun _ _ => trivial⟩
    · trivial
  intro h hh
  unfold settle
  rw [wp_bind, wp_call_recorded]
  refine ⟨(fun ha => by cases ha), fun at_ _ => ?_, fun _ _ => trivial⟩
  have hh' : Holding attempt.key (⟨.now, .ok at_⟩ :: h) := hh
  cases result.outcome with
  | archived => exact left (keeps_discard guarded_transition) _ hh'
  | junk => exact left (guarded_quiet (t.uses_tryNext _ _)) _ hh'
  | needsAttention => exact left (guarded_quiet (uses_runIf (uses_discard (uses_transition ⟨rfl, rfl, rfl⟩)))) _ hh'
  | failed => exact left (guarded_quiet (uses_runIf (uses_discard (uses_transition ⟨rfl, rfl, rfl⟩)))) _ hh'

/-- What comes after winning the claim. -/
theorem guarded_won {α : Type} {attempt : MagnetAttemptRecord} {at_ : Time} {f : Bool → M α}
    (hlost : Guarded Anyway (f false)) (hwon : GuardedFrom (Entitled attempt.key) (f true)) :
    GuardedFrom (CameTo attempt.key)
      (transitionAttempt attempt.avid attempt.attemptNo .finished .archiving at_ >>= f) := by
  intro h hcame
  rw [wp_bind, transitionAttempt, if_pos (by decide), wp_call_recorded]
  refine ⟨(fun he => by cases he), fun b _ => ?_, fun _ _ => trivial⟩
  cases b with
  | false => exact hlost _ trivial
  | true => exact hwon _ ⟨hcame, holds_claimed (k := attempt.key)⟩

theorem guarded_claimFinished {α : Type} {attempt : MagnetAttemptRecord} {at_ : Time} {f : Bool → M α}
    (hlost : Guarded Anyway (f false)) (hwon : GuardedFrom (Entitled attempt.key) (f true)) :
    GuardedFrom (CameTo attempt.key) (claimFinished attempt at_ >>= f) := by
  unfold claimFinished
  split
  · exact guarded_won hlost hwon
  · intro h hcame
    rw [wp_bind, wp_bind]
    -- an attempt that is archiving is released here, whoever holds it
    refine wp_mono (came_transitionAttempt h hcame) (fun finished h' hcame => ?_) fun _ _ _ => trivial
    cases finished with
    | false => exact hlost h' trivial
    | true => exact (wp_bind _ _).1 (guarded_won hlost hwon h' hcame)

/-- The folder is filed by the holder of the claim. -/
theorem guarded_filed {α : Type} (attempt : MagnetAttemptRecord) (folder : Folder) (route : TrackerRoute)
    {f : ArchiveResult → M α} (hf : ∀ result, GuardedFrom (Holding attempt.key) (f result)) :
    GuardedFrom (Entitled attempt.key) (t.file attempt folder route >>= f) := by
  have asked : Uses WhileHeld (t.file attempt folder route) :=
    t.uses_file_asks (fun _ h => ⟨h.still, h.inStep⟩) (fun _ => ⟨⟨rfl, rfl⟩, rfl⟩) attempt folder route
  exact from_bind (entitled_whileHeld asked) fun result h hh => hf result h hh.2

theorem guarded_archiveFinished (attempt : MagnetAttemptRecord) (task : OfflineTask) (taskDir : String) :
    GuardedFrom (CameTo attempt.key) (t.archiveFinished attempt task taskDir) := by
  have refreshed : Uses WhileHeld (refreshMount task taskDir) := uses_refreshMount (fun _ => ⟨⟨rfl, rfl⟩, rfl⟩) task taskDir
  have located : Uses WhileHeld (ask (.locate task.name attempt.avid)) := uses_ok ⟨⟨rfl, rfl⟩, rfl⟩
  unfold archiveFinished
  refine from_bind (came_ok rfl rfl rfl) fun at_ => from_bind (came_ok rfl rfl rfl) fun record => ?_
  split
  · exact from_guarded (keeps_pure _)
  · split
    · exact from_guarded (keeps_pure _)
    · refine guarded_claimFinished (keeps_pure _) ?_
      rw [if_pos rfl]
      refine from_bind (entitled_whileHeld refreshed) fun _ => from_bind (entitled_whileHeld located) fun place => ?_
      cases place with
      | none =>
        refine from_guarded (keeps_bind (guarded_ok rfl rfl) fun released => ?_)
        exact keeps_discard (guarded_transitionAttempt fun _ _ => rfl)
      | some place =>
        refine t.guarded_filed attempt _ _ fun result => from_then (t.guarded_settle attempt result) fun _ => ?_
        exact guarded_quiet (uses_runIf (uses_removeTask _ _))

theorem guarded_archiveOrphaned (attempt : MagnetAttemptRecord) (folder : Folder) (route : TrackerRoute) :
    GuardedFrom (CameTo attempt.key) (t.archiveOrphaned attempt folder route) := by
  unfold archiveOrphaned
  refine from_bind (came_ok rfl rfl rfl) fun at_ => from_bind came_transitionAttempt fun finished => ?_
  split
  · refine guarded_won (keeps_pure _) ?_
    rw [if_pos rfl]
    exact t.guarded_filed attempt folder route (t.guarded_settle attempt)
  · exact from_guarded (keeps_pure _)

theorem guarded_consider (byHash : Listing) (joined : InfoHash × MagnetAttemptRecord) :
    Guarded Anyway (t.consider byHash joined) := by
  have dropped : ∀ (task : OfflineTask) taskDir gaveUp, Guarded Anyway (runIf gaveUp (removeTask task.infoHash taskDir)) :=
    fun _ _ _ => guarded_quiet (uses_runIf (uses_removeTask _ _))
  unfold consider
  split
  · refine guarded_step (fun _ => rfl) ?_
    unfold advance
    split
    · exact t.guarded_archiveFinished _ _ _
    · exact from_guarded (keeps_bind (t.guarded_giveUp _ _ (by decide)) (dropped _ _))
    · refine from_guarded ?_
      split
      · unfold refreshProgress
        refine keeps_bind (guarded_ok rfl rfl) fun at_ =>
          keeps_bind (guarded_quiet (uses_recordProgress ⟨rfl, rfl, rfl⟩)) fun moved => ?_
        split
        · exact keeps_pure _
        · dsimp only
          split
          · exact keeps_bind (t.guarded_giveUp _ _ (by decide)) (dropped _ _)
          · exact keeps_pure _
      · exact keeps_pure _
  · exact keeps_raise fun _ _ => trivial

theorem guarded_sweepOne (byHash : Listing) (at_ : Time) (attempt : MagnetAttemptRecord) :
    Guarded Anyway (t.sweepOne byHash at_ attempt) := by
  unfold sweepOne
  refine guarded_step (fun _ => rfl) ?_
  split
  · exact from_guarded (keeps_pure _)
  · split
    · exact from_guarded (keeps_pure _)
    · refine from_bind (came_ok rfl rfl rfl) fun located => ?_
      split
      · exact t.guarded_archiveOrphaned _ _ _
      · exact from_guarded (keeps_discard (t.guarded_giveUp _ _ (by decide)))

theorem guarded_poll : Guarded Anyway t.poll := by
  unfold poll
  split
  · exact keeps_pure _
  · unfold listTasks AcquisitionRepository.attemptsByInfoHash sweepLost
    refine keeps_bind (keeps_foldEach (fun taskDir _ byHash => ?_) _) fun byHash => keeps_bind ?_ fun joined =>
      keeps_bind (keeps_forEach fun j _ => t.guarded_consider byHash j) fun _ => keeps_bind ?_ fun _ => ?_
    · exact keeps_bind (guarded_ok rfl rfl) fun _ => keeps_bind (guarded_ok rfl rfl) fun _ => keeps_pure _
    · split
      · exact keeps_pure _
      · exact keeps_bind (guarded_ok rfl rfl) fun _ => keeps_pure _
    · refine keeps_bind (guarded_ok rfl rfl) fun at_ => keeps_bind (guarded_ok rfl rfl) fun attempts => ?_
      exact keeps_forEach fun attempt _ => t.guarded_sweepOne byHash at_ attempt
    · exact guarded_quiet (uses_clearArchived _)

theorem guarded_replica (polls : Nat) : Guarded Anyway (t.replica polls) := by
  refine keeps_forEach fun t' ht => ?_
  rw [List.eq_of_mem_replicate ht]
  exact keeps_discard (keeps_attempt t.guarded_poll fun _ _ _ => trivial)

end Tracker

/-! ## Replicas side by side -/

section Replicas
variable {ι : Type} [DecidableEq ι]

/-- The attempt this action takes back from archiving to finished. -/
def Op.releases : Op → Option AttemptKey
  | .sql (.casAttempt avid no .archiving .finished _ _) => some (avid, no)
  | _ => none

/-- Nobody takes up an attempt that another replica holds. -/
def Respects (w : World ι) (i : ι) (op : Op) : Prop :=
  ∀ k, op.releases = some k → ∀ j, holds (w.history j) k = true → j = i

/-- The actions of a replica in a run that respects the claims of the others. -/
def RespectfulStep (i : ι) : Env Op.Res Exn (World ι) := fun w op r w' =>
  World.Step (fun _ _ => True) i w op r w' ∧ Respects w i op

/-- At most one replica at a time holds the claim of an attempt, and a replica about to
touch a folder, the library or a replaced copy holds that of the attempt its poll has come to. -/
def ArchivedByOne (c : Pool Op.Res Exn Unit (World ι) ι) : Prop :=
  (∀ i j k, holds (c.world.history i) k = true → holds (c.world.history j) k = true → i = j) ∧
    ∀ i op next, c.prog i = .act op next → op.archives = true → ∃ k, Entitled k (c.world.history i)

/-- Claims are held one at a time, and only of attempts that are archiving. -/
structure Claimed (w : World ι) : Prop where
  archiving : ∀ i k, holds (w.history i) k = true → ∃ r, w.ledger.att k = some r ∧ r.state = .archiving
  alone : ∀ i j k, holds (w.history i) k = true → holds (w.history j) k = true → i = j

/-- An archiving attempt stays so until someone asks it to leave. -/
theorem archiving_stays {t : Time} {l l' : Ledger} {op : Op} {a : Except Exn op.Res} (h : Answers t l op a l')
    {k : AttemptKey} {r : MagnetAttemptRecord} (hr : l.att k = some r) (hs : r.state = .archiving) (hop : ¬ op.leaves k) :
    ∃ r, l'.att k = some r ∧ r.state = .archiving := by
  rcases answers_ledger h with rfl | ⟨s, b, rfl, hg⟩
  · exact ⟨r, hr, hs⟩
  · obtain ⟨r', hr', heff⟩ := Sql.att_effect hg hr
    refine ⟨r', hr', ?_⟩
    cases heff with
    | same => exact hs
    | claimed at_ _ hp => rw [hs] at hp; cases hp
    | moved he hexp =>
      subst he
      exact absurd ⟨rfl, hexp.symm.trans hs⟩ hop
    | progressed _ hf => rw [hs] at hf; exact absurd hf (by decide)

theorem claims_finished {t : Time} {l l' : Ledger} {op : Op} {a : Except Exn op.Res} (h : Answers t l op a l')
    {k : AttemptKey} (hc : Claims k ⟨op, a⟩) :
    (∃ r, l.att k = some r ∧ r.state = .finished) ∧ ∃ r, l'.att k = some r ∧ r.state = .archiving := by
  obtain ⟨at_, error, he⟩ := hc
  cases he
  obtain ⟨-, hatt, hwon⟩ := Ledger.casAttempt_spec h
  obtain ⟨r, hr, hs⟩ := hwon.1 rfl
  refine ⟨⟨r, hr, hs⟩, ?_⟩
  rw [hatt, hr]
  exact ⟨_, rfl, by simp [hs]⟩

theorem claimed_step {i : ι} {w w' : World ι} {op : Op} {a : Except Exn op.Res} (hi : Claimed w)
    (hG : Proper (w.history i) op) (hs : RespectfulStep i w op a w') : Claimed w' := by
  obtain ⟨⟨clock, l', -, -, hans, rfl⟩, hresp⟩ := hs
  -- whoever holds a claim after the action won it just now, or held it and nobody asked the attempt to leave
  have after : ∀ j k, holds (World.history ⟨l', clock, ⟨i, clock, w.ledger, op, a⟩ :: w.log⟩ j) k = true →
      (j = i ∧ Claims k ⟨op, a⟩) ∨ (holds (w.history j) k = true ∧ ¬ op.leaves k) := by
    intro j k hh
    rw [World.history_cons] at hh
    by_cases hij : i = j
    · subst hij
      rw [if_pos rfl] at hh
      rcases holds_cons hh with hc | hh
      · exact .inl ⟨rfl, hc⟩
      · exact .inr hh
    · rw [if_neg hij] at hh
      refine .inr ⟨hh, fun hl => ?_⟩
      cases op with
      | sql s =>
        cases s with
        | casAttempt avid no expected target at_ error =>
          obtain ⟨hk, he⟩ := hl
          subst hk he
          rcases hG rfl with rfl | hmine
          · exact hij (hresp _ rfl j hh).symm
          · exact hij (hi.alone i j _ hmine hh)
        | _ => exact hl
      | _ => exact hl
  refine ⟨fun j k hh => ?_, fun j j' k hh hh' => ?_⟩
  · rcases after j k hh with ⟨-, hc⟩ | ⟨hh, hl⟩
    · exact (claims_finished hans hc).2
    · obtain ⟨r, hr, hs⟩ := hi.archiving j k hh
      exact archiving_stays hans hr hs hl
  · have fresh : ∀ m, Claims k ⟨op, a⟩ → holds (w.history m) k = true → False := by
      intro m hc hh
      obtain ⟨⟨r, hr, hs⟩, -⟩ := claims_finished hans hc
      obtain ⟨r', hr', hs'⟩ := hi.archiving m k hh
      rw [hr] at hr'
      cases hr'
      rw [hs] at hs'
      cases hs'
    rcases after j k hh with ⟨hj, hc⟩ | ⟨hh, -⟩ <;> rcases after j' k hh' with ⟨hj', hc'⟩ | ⟨hh', -⟩
    · rw [hj, hj']
    · exact (fresh j' hc hh').elim
    · exact (fresh j hc' hh).elim
    · exact hi.alone j j' k hh hh'

/-- In every interleaving of replicas in which nobody takes up an attempt another replica
holds, an attempt is archived by one replica at a time. -/
theorem archived_by_one {tracker : ι → Tracker} {polls : ι → Nat} {l : Ledger} {start : Time}
    {c : Pool Op.Res Exn Unit (World ι) ι}
    (h : Pool.Reach RespectfulStep ⟨⟨l, start, []⟩, fun i => (tracker i).replica (polls i)⟩ c) : ArchivedByOne c := by
  have step : ∀ (i : ι) w op a w', RespectfulStep i w op a w' → World.Step known i w op a w' := by
    rintro i w op a w' ⟨⟨clock, l', hc, -, ha, hw⟩, -⟩
    exact ⟨clock, l', hc, answers_known ha, ha, hw⟩
  have unclaimed : Claimed (⟨l, start, []⟩ : World ι) :=
    ⟨fun i k hh => by simp [World.history, holds] at hh, fun i j k hh => by simp [World.history, holds] at hh⟩
  obtain ⟨hc, hnext⟩ := World.reach_inv step (fun _ => Proper) Claimed
    (fun _ _ _ _ _ hi hG ht => claimed_step hi hG ht) unclaimed rfl
    (fun i => (tracker i).guarded_replica (polls i) [] trivial) h
  refine ⟨hc.alone, fun i op next hop ha => ?_⟩
  have hG := hnext i op next hop
  cases op with
  | sql s => cases ha
  | _ => exact hG ha

end Replicas

/-! ## A stolen claim -/

/-- The download of `ABC-123` is complete, its attempt recorded finished. -/
def downloaded : Ledger :=
  Ledger.empty.after (submittedAt "ABC-123" "AA" 0 ++ [.casAttempt "ABC-123" 1 .submitted .finished 1 none])

def finishedTask : World.Outside
  | .listOfflineFiles _ => .ok [⟨"ABC-123", "AA", .finished, 100⟩]
  | .listDirectory _ => .ok []
  | .locate _ _ => .ok (some (⟨"/mnt/inbox/ABC-123", "ABC-123"⟩, ⟨"/mnt/inbox", "/mnt/library", false⟩))
  | .isDir _ => .ok true
  | _ => .error ⟨.failure "unreachable", trivial⟩

def twoReplicas : Pool Op.Res Exn Unit (World Bool) Bool :=
  ⟨⟨downloaded, 2, []⟩, fun _ => oneDirTracker.replica 1⟩

/-- So many actions of each replica in turn. -/
def alternating (counts : List (Bool × Nat)) : List (Bool × (Nat × World.Outside)) :=
  counts.flatMap fun c => List.replicate c.2 (c.1, (1, finishedTask))

/-- Both replicas read the attempt as finished; the second loses the compare-and-set. -/
def bothFinished : List (Bool × (Nat × World.Outside)) := alternating [(false, 6), (true, 6), (false, 1), (true, 1), (false, 5)]

/-- The second replica reads the attempt while the first is filing it. -/
def whileArchiving : List (Bool × (Nat × World.Outside)) := alternating [(false, 7), (true, 8)]

theorem archived_by_one_bothFinished :
    holds ((World.schedule bothFinished twoReplicas).world.history false) ("ABC-123", 1) = true ∧
      ArchivedByOne (World.schedule bothFinished twoReplicas) := by
  refine ⟨by decide, archived_by_one
    (Pool.reach_turnsOk (fun i w op _ _ => op.releases.all fun k => !holds (w.history !i) k) (fun i d w op h => ?_) ?_)⟩
  · refine ⟨World.turn_step trivial, fun k hk j hj => ?_⟩
    rw [hk] at h
    cases i <;> cases j <;> simp_all
  · decide

/-- A replica that reads the attempt as archiving releases the claim of the one filing
it and claims it itself: both file the same download. -/
theorem archived_by_two :
    ∃ c, Pool.Reach (World.Step fun _ _ => True) twoReplicas c ∧ ¬ ArchivedByOne c := by
  refine ⟨_, World.reach_schedule whileArchiving twoReplicas, fun h => ?_⟩
  have := h.1 false true ("ABC-123", 1) (by decide) (by decide)
  cases this

end EmbyxManager
