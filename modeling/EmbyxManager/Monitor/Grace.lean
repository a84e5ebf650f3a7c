import EmbyxManager.Monitor.Components
import EmbyxManager.Monitor.Effects
/-!
# A fresh submission and the sweep

The sweep measures the submit grace against a clock it reads after the joined
attempts are through, not when the listings were taken. An attempt submitted in
between is declared lost when the poll takes longer than the grace.

What is left when no grace ends between a listing and the sweep, and when a claim
is executed within the grace of the time it records: the sweep concludes only
what was in flight, and out of its grace, at every listing of its poll.
-/

namespace EmbyxManager
open Atom Prog AcquisitionRepository

/-! ## What a poll has seen -/

/-- The tasks by hash that the listings of a run add up to. -/
def tasksRead : List Event → Listing
  | [] => []
  | ⟨.ask (.listOfflineFiles taskDir), .ok tasks⟩ :: h => Tracker.mergeTasks (tasksRead h) taskDir tasks
  | _ :: h => tasksRead h

/-- The time a run last read. -/
def lastNow : List Event → Time
  | [] => 0
  | ⟨.now, .ok t⟩ :: _ => t
  | _ :: h => lastNow h

/-- The sweep of this run has come to conclude the attempt: it was in flight,
no listing held it, and its grace was over on the sweep's clock. -/
def Unseen (t : Tracker) : List Event → AttemptKey → Prop
  | [], _ => False
  | ⟨.sql .inFlightAttempts, .ok rows⟩ :: h, k =>
    ∃ r ∈ rows, r.key = k ∧ Tracker.listed (tasksRead h) r = false ∧ t.inGrace r (lastNow h) = false
  | e :: h, k => e.op.surveys = false ∧ Unseen t h k

section History
variable {op : Op} {r : Except Exn op.Res} {h : List Event}

theorem tasksRead_cons (hop : op.surveys = false) : tasksRead (⟨op, r⟩ :: h) = tasksRead h := by
  cases op with
  | ask q =>
    cases q with
    | listOfflineFiles taskDir => cases hop
    | _ => rfl
  | _ => rfl

theorem unseen_cons {t : Tracker} {k : AttemptKey} (hop : op.surveys = false) :
    Unseen t (⟨op, r⟩ :: h) k ↔ Unseen t h k := by
  have skip : op.surveys = false ∧ Unseen t h k ↔ Unseen t h k := ⟨fun h => h.2, fun h => ⟨hop, h⟩⟩
  cases op with
  | sql s =>
    cases s with
    | inFlightAttempts => cases hop
    | _ => exact skip
  | _ => exact skip

end History

/-! ## The guard of a poll -/

/-- An attempt is put in flight by no move, and declared lost only by a sweep that did not see it. -/
def Cautious (t : Tracker) (h : List Event) : Op → Prop
  | .sql (.casAttempt avid no _ target _ _) => target ∉ AttemptState.inFlight ∧ (target = .lost → Unseen t h (avid, no))
  | _ => True

theorem Busy.cautious {t : Tracker} {h : List Event} {op : Op} (hop : Busy op) : Cautious t h op := by
  cases op with
  | sql s =>
    cases s with
    | casAttempt avid no e target at_ error => exact ⟨hop.1, fun h => absurd h hop.2⟩
    | _ => trivial
  | _ => trivial

theorem Busy.surveys {op : Op} (h : Busy op) : op.surveys = false := by
  cases op with
  | sql s =>
    cases s with
    | casAttempt => rfl
    | _ => exact h
  | _ => exact h

namespace Tracker
variable (t : Tracker)

/-- What a busy program leaves of the history that matters. -/
theorem keeps_busy {α : Type} {p : M α} (hp : Uses Busy p) {I : List Event → Prop}
    (hI : ∀ op (r : Except Exn op.Res) h, op.surveys = false → I h → I (⟨op, r⟩ :: h)) :
    p.Keeps (recorded known) (Cautious t) I (fun _ _ => True) := by
  refine keeps_mono (keeps_of_uses hp (fun h op hop _ => hop.cautious) ?_) fun _ _ _ => trivial
  rintro h op r _ hop hh ⟨-, rfl⟩
  exact hI op r h hop.surveys hh

theorem wp_listTasks {Q : Listing → List Event → Prop} (hQ : ∀ h, Q (tasksRead h) h) :
    t.listTasks.wp (recorded known) (Cautious t) Q (fun _ _ => True) [] := by
  unfold listTasks
  refine wp_foldEach (fun _ byHash h => byHash = tasksRead h) ?_ (fun byHash h he => he ▸ hQ h) rfl
  rintro taskDir taskDirs byHash h rfl
  rw [wp_bind, wp_call_recorded]
  refine ⟨trivial, fun _ _ => ?_, fun _ _ => trivial⟩
  rw [wp_bind, wp_call_recorded]
  exact ⟨trivial, fun tasks _ => rfl, fun _ _ => trivial⟩

theorem keeps_sweepOne {byHash : Listing} {at_ : Time} {attempts : List MagnetAttemptRecord}
    {attempt : MagnetAttemptRecord} (ha : attempt ∈ attempts) :
    (t.sweepOne byHash at_ attempt).Keeps (recorded known) (Cautious t)
      (fun h => ∀ r ∈ attempts, Tracker.listed byHash r = false → t.inGrace r at_ = false → Unseen t h r.key)
      (fun _ _ => True) := by
  have frame : ∀ op (r : Except Exn op.Res) h, op.surveys = false →
      (∀ r ∈ attempts, Tracker.listed byHash r = false → t.inGrace r at_ = false → Unseen t h r.key) →
      ∀ r' ∈ attempts, Tracker.listed byHash r' = false → t.inGrace r' at_ = false → Unseen t (⟨op, r⟩ :: h) r'.key :=
    fun op r h hop hI r' hr' hl hg => (unseen_cons hop).2 (hI r' hr' hl hg)
  have busy : ∀ {α : Type} {p : M α}, Uses Busy p → _ := fun hp => t.keeps_busy hp frame
  unfold sweepOne
  refine keeps_bind (busy (uses_ok rfl)) fun _ => ?_
  split
  · exact keeps_pure _
  · split
    · exact keeps_pure _
    · rename_i hl hg
      refine keeps_bind (busy (uses_ok rfl)) fun located => ?_
      split
      · exact busy (uses_mono (t.uses_archiveOrphaned _ _ _) fun _ => Brisk.busy)
      · refine keeps_discard ?_
        unfold giveUp
        refine keeps_bind (busy (uses_ok rfl)) fun lostAt => keeps_bind ?_ fun won => ?_
        · unfold transitionAttempt
          split
          · -- the one place that declares an attempt lost
            refine keeps_call (fun h hI => ⟨by decide, fun _ => ?_⟩) ?_ fun _ _ _ _ _ => trivial
            · exact hI attempt ha (Bool.eq_false_iff.2 hl) (Bool.eq_false_iff.2 hg)
            · rintro h a _ hI ⟨-, rfl⟩
              exact frame _ _ _ rfl hI
          · exact keeps_raise fun _ _ => trivial
        · split
          · exact keeps_bind (busy (uses_mono (t.uses_tryNext _ _) fun _ h => h.1.busy)) fun _ => keeps_pure _
          · exact keeps_pure _

/-- The sweep and the clear-up, once the listings and the joined attempts are through. -/
theorem cautious_sweep {byHash : Listing} {h : List Event} (hb : tasksRead h = byHash) :
    (t.sweepLost byHash).wp (recorded known) (Cautious t)
      (fun _ h => (clearArchived byHash).wp (recorded known) (Cautious t) (fun _ _ => True) (fun _ _ => True) h)
      (fun _ _ => True) h := by
  have cleared : (clearArchived byHash).Keeps (recorded known) (Cautious t) (fun _ => True) (fun _ _ => True) :=
    t.keeps_busy (uses_mono (uses_clearArchived _) fun _ h => h.1.busy) fun _ _ _ _ _ => trivial
  rw [sweepLost, wp_bind, wp_call_recorded]
  refine ⟨trivial, fun at_ _ => ?_, fun _ _ => trivial⟩
  rw [wp_bind, wp_call_recorded]
  refine ⟨trivial, fun rows _ => ?_, fun _ _ => trivial⟩
  refine wp_mono (keeps_forEach (fun attempt ha => t.keeps_sweepOne ha) _ fun r hr hl hg => ?_)
    (fun _ h' _ => cleared h' trivial) fun _ _ _ => trivial
  exact ⟨r, hr, rfl, by rw [tasksRead_cons rfl, hb]; exact hl, hg⟩

theorem cautious_poll : t.poll.wp (recorded known) (Cautious t) (fun _ _ => True) (fun _ _ => True) [] := by
  unfold poll
  split
  · trivial
  rw [wp_bind]
  refine t.wp_listTasks fun h => ?_
  have kept : ∀ op (r : Except Exn op.Res) h', op.surveys = false → tasksRead h' = tasksRead h →
      tasksRead (⟨op, r⟩ :: h') = tasksRead h := fun op r h' hop he => (tasksRead_cons hop).trans he
  have join : Uses Busy (attemptsByInfoHash ((tasksRead h).map (·.1))) := by
    unfold attemptsByInfoHash
    split
    · trivial
    · exact uses_bind (uses_ok rfl) fun _ => trivial
  rw [wp_bind]
  refine wp_mono (t.keeps_busy join kept h rfl) (fun attempts h' he => ?_) fun _ _ _ => trivial
  rw [wp_bind]
  refine wp_mono (keeps_forEach (fun joined _ => t.keeps_busy (t.uses_consider _ joined) kept) h' he)
    (fun _ h' he => ?_) fun _ _ _ => trivial
  rw [wp_bind]
  exact t.cautious_sweep he

end Tracker

/-! ## Which runs are fair -/

section Fair
variable {ι : Type} [DecidableEq ι] (t : Tracker)

def Entry.isListing (e : Entry ι) : Bool :=
  match e.event.op with
  | .ask (.listOfflineFiles _) => true
  | _ => false

/-- The attempt this action declared lost. -/
def Entry.lost (e : Entry ι) : Option AttemptKey :=
  match e.event with
  | ⟨.sql (.casAttempt avid no _ .lost _ _), .ok true⟩ => some (avid, no)
  | _ => none

/-- When this action was taken, the attempt was in flight and its grace was over. -/
def OutOfGrace (k : AttemptKey) (e : Entry ι) : Prop :=
  ∃ r, e.before.att k = some r ∧ r.state ∈ AttemptState.inFlight ∧ t.inGrace r e.time = false

/-- An attempt is declared lost only when it was in flight, its grace over, at
every listing its poll had read. -/
def LostFairly (log : List (Entry ι)) : Prop :=
  ∀ e past k, e :: past <:+ log → e.lost = some k → ∀ e' ∈ past, e'.who = e.who → e'.isListing = true → OutOfGrace t k e'

/-- A claim is executed within the grace of the time it records, and no grace of
an unlisted attempt ends between a listing and the sweep's clock. -/
def timely (w : World ι) (i : ι) (clock : Time) : (op : Op) → Except Exn op.Res → Bool
  | .sql (.claimNextPending _ at_), _ | .sql (.claimAttempt _ _ at_), _ => clock - at_ < seconds t.submitGraceSeconds
  | .sql .inFlightAttempts, .ok rows =>
    rows.all fun r => Tracker.listed (tasksRead (w.history i)) r || t.inGrace r (lastNow (w.history i)) ||
      w.log.all fun e => e.who ≠ i || !e.isListing || !t.inGrace r e.time
  | _, _ => true

/-- The actions of a thread in a run that is fair to fresh submissions. -/
def TimelyStep (i : ι) : Env Op.Res Exn (World ι) := fun w op r w' =>
  World.Step (fun _ _ => True) i w op r w' ∧ timely t w i w'.clock op r = true

/-! ## The invariant -/

structure Fair (w : World ι) : Prop where
  past : ∀ e ∈ w.log, e.time ≤ w.clock
  flying : ∀ k r, w.ledger.att k = some r → r.state ∈ AttemptState.inFlight →
    ∀ e ∈ w.log, t.inGrace r e.time = false → OutOfGrace t k e
  unseen : ∀ i k, Unseen t (w.history i) k → ∀ e ∈ w.log, e.who = i → e.isListing = true → OutOfGrace t k e
  lost : LostFairly t w.log

theorem Tracker.inGrace_congr {r r' : MagnetAttemptRecord} (h : r.submittedAt = r'.submittedAt) (at_ : Time) :
    t.inGrace r at_ = t.inGrace r' at_ := by
  unfold Tracker.inGrace
  rw [h]

theorem Tracker.inGrace_earlier {r : MagnetAttemptRecord} {earlier at_ : Time} (h : t.inGrace r at_ = true)
    (hle : earlier ≤ at_) : t.inGrace r earlier = true := by
  unfold Tracker.inGrace at *
  simp only [Option.any_eq_true, decide_eq_true_eq] at *
  obtain ⟨s, hs, hlt⟩ := h
  exact ⟨s, hs, Int.lt_of_le_of_lt (Int.sub_le_sub_right hle s) hlt⟩

variable {t}

omit [DecidableEq ι] in
theorem isListing_surveys {e : Entry ι} (h : e.isListing = true) : e.event.op.surveys = true := by
  obtain ⟨who, time, before, op, r⟩ := e
  cases op with
  | ask q =>
    cases q with
    | listOfflineFiles taskDir => rfl
    | _ => cases h
  | _ => cases h

/-- An attempt in flight after an action was so before, or has just been claimed. -/
theorem inFlight_before {i : ι} {w w' : World ι} {op : Op} {a : Except Exn op.Res} {h : List Event} (hG : Cautious t h op)
    (hs : TimelyStep t i w op a w') {k : AttemptKey} {r' : MagnetAttemptRecord} (hr' : w'.ledger.att k = some r')
    (hf : r'.state ∈ AttemptState.inFlight) :
    (∃ r, w.ledger.att k = some r ∧ r.state ∈ AttemptState.inFlight ∧ r.submittedAt = r'.submittedAt) ∨
      t.inGrace r' w'.clock = true := by
  obtain ⟨⟨clock, l', -, -, hans, rfl⟩, htime⟩ := hs
  rcases answers_ledger hans with rfl | ⟨s, b, rfl, hg⟩
  · exact .inl ⟨r', hr', hf, rfl⟩
  · cases hr : w.ledger.att k with
    | none =>
      rw [Sql.att_new hg hr hr'] at hf
      exact absurd hf (by decide)
    | some r =>
      obtain ⟨r'', hr'', heff⟩ := Sql.att_effect hg hr
      cases hr'.symm.trans hr''
      cases heff with
      | same => exact .inl ⟨_, rfl, hf, rfl⟩
      | claimed at_ hs hp =>
        refine .inr ?_
        have : clock - at_ < seconds t.submitGraceSeconds := by
          rcases hs with rfl | rfl
          · exact of_decide_eq_true htime
          · exact of_decide_eq_true htime
        simpa [Tracker.inGrace, MagnetAttemptRecord.submittedBy] using this
      | moved hs he =>
        subst hs
        exact absurd hf hG.1
      | progressed hs he => exact .inl ⟨r, rfl, he, rfl⟩

/-- What the sweep finds in flight is out of its grace at every listing before, when no
grace ends in between. -/
theorem unseen_survey {i : ι} {w : World ι} {l' : Ledger} {clock : Time} {op : Op} {a : Except Exn op.Res} (hi : Fair t w)
    (hop : op.surveys = true) (hans : Answers clock w.ledger op a l') (htime : timely t w i clock op a = true)
    {k : AttemptKey} (hu : Unseen t (⟨op, a⟩ :: w.history i) k) {e : Entry ι}
    (he : e ∈ (⟨i, clock, w.ledger, op, a⟩ :: w.log : List (Entry ι))) (hw : e.who = i) (hl : e.isListing = true) :
    OutOfGrace t k e := by
  cases op with
  | sql s =>
    cases s with
    | inFlightAttempts =>
      cases a with
      | error e => cases hu.1
      | ok rows =>
        obtain ⟨r, hr, rfl, hlisted, hgrace⟩ := hu
        rcases List.mem_cons.1 he with rfl | he
        · cases hl
        · simp only [Answers, Sql.Gives, Sql.run, Except.ok.injEq, Prod.mk.injEq] at hans
          obtain ⟨hatt, hf⟩ := Ledger.mem_inFlightAttempts.1 (hans.1 ▸ hr)
          refine hi.flying r.key r hatt hf e he ?_
          have := List.all_eq_true.1 htime r hr
          rw [hlisted, hgrace] at this
          simpa [hw, hl] using List.all_eq_true.1 this e he
    | _ => cases hop
  | ask q =>
    cases q with
    | listOfflineFiles taskDir => cases hu.1
    | _ => cases hop
  | checkCancelled p =>
    cases p with
    | listing taskDir => cases hu.1
    | _ => cases hop
  | _ => cases hop

omit [DecidableEq ι] in
theorem lost_cautious {i : ι} {clock : Time} {l : Ledger} {op : Op} {a : Except Exn op.Res} {h : List Event} {k : AttemptKey}
    (hlost : (⟨i, clock, l, op, a⟩ : Entry ι).lost = some k) (hG : Cautious t h op) : Unseen t h k := by
  unfold Entry.lost at hlost
  split at hlost
  · rename_i avid no expected at_ error he
    cases he
    cases hlost
    exact hG.2 rfl
  · cases hlost

theorem fair_step {i : ι} {w w' : World ι} {op : Op} {a : Except Exn op.Res} (hi : Fair t w)
    (hG : Cautious t (w.history i) op) (hs : TimelyStep t i w op a w') : Fair t w' := by
  have before := fun k r' (hr' : w'.ledger.att k = some r') => inFlight_before hG hs hr'
  obtain ⟨⟨clock, l', hclock, -, hans, rfl⟩, htime⟩ := hs
  -- the clock does not go back, so the new action is the latest
  have past : ∀ e ∈ (⟨i, clock, w.ledger, op, a⟩ :: w.log : List (Entry ι)), e.time ≤ clock := by
    intro e he
    rcases List.mem_cons.1 he with rfl | he
    · exact Int.le_refl _
    · exact Int.le_trans (hi.past e he) hclock
  refine ⟨past, fun k r' hr' hf e he hg => ?_, fun j k hu e he hw hl => ?_, fun e post k hsuf hlost e' he' hw hl => ?_⟩
  · rcases before k r' hr' hf with ⟨r, hr, hrf, hsub⟩ | hgrace
    · rw [← t.inGrace_congr hsub] at hg
      rcases List.mem_cons.1 he with rfl | he
      · exact ⟨r, hr, hrf, hg⟩
      · exact hi.flying k r hr hrf e he hg
    · -- claimed within the grace of what it recorded, so no earlier action finds it out of grace
      rw [t.inGrace_earlier hgrace (past e he)] at hg
      cases hg
  · rw [World.history_cons] at hu
    by_cases hij : i = j
    · subst hij
      rw [if_pos rfl] at hu
      cases hop : op.surveys with
      | false =>
        rcases List.mem_cons.1 he with rfl | he
        · rw [isListing_surveys hl] at hop
          cases hop
        · exact hi.unseen i k ((unseen_cons hop).1 hu) e he hw hl
      | true => exact unseen_survey hi hop hans htime hu he hw hl
    · rw [if_neg hij] at hu
      rcases List.mem_cons.1 he with rfl | he
      · exact absurd hw hij
      · exact hi.unseen j k hu e he hw hl
  · rcases List.suffix_cons_iff.1 hsuf with heq | hsuf
    · cases heq
      exact hi.unseen i k (lost_cautious hlost hG) e' he' hw hl
    · exact hi.lost e post k hsuf hlost e' he' hw hl

/-- However long a poll takes and whatever is submitted meanwhile: in a timely run
the sweep declares lost only what its listings could have shown. -/
theorem lost_fairly {s : Setup} {component : ι → Component} {l : Ledger} {start : Time}
    {c : Pool Op.Res Exn Unit (World ι) ι}
    (h : Pool.Reach (TimelyStep s.tracker) ⟨⟨l, start, []⟩, fun i => (component i).prog s⟩ c) :
    LostFairly s.tracker c.world.log := by
  have step : ∀ (i : ι) w op a w', TimelyStep s.tracker i w op a w' → World.Step known i w op a w' := by
    rintro i w op a w' ⟨⟨clock, l', hc, -, ha, hw⟩, -⟩
    exact ⟨clock, l', hc, answers_known ha, ha, hw⟩
  have start_fair : Fair s.tracker (⟨l, start, []⟩ : World ι) := by
    refine ⟨by simp, by simp, fun i k hu => by simp [World.history, Unseen] at hu, fun e past k hsuf => ?_⟩
    simp at hsuf
  refine (World.reach_inv step (fun _ => Cautious s.tracker) (Fair s.tracker)
    (fun _ _ _ _ _ hi hG ht => fair_step hi hG ht) start_fair rfl (fun i => ?_) h).1.lost
  dsimp only
  by_cases hi : component i = .poll
  · rw [hi]
    exact s.tracker.cautious_poll
  · have hk : ((component i).prog s).Keeps (recorded known) (Cautious s.tracker) (fun _ => True) (fun _ _ => True) :=
      s.tracker.keeps_busy (uses_mono (Component.uses_prog s hi) fun _ => Mild.busy) fun _ _ _ _ _ => trivial
    exact hk [] trivial

end Fair

/-! ## A long poll -/

/-- The poll, and an operator's submission. -/
def pollAndEnqueue (operator : Bool) : Component :=
  if operator then .enqueue "ABC-123" "manual" "/inbox" none none else .poll

/-- CloudDrive lists nothing and takes every magnet; the resolvers know one. -/
def emptyListing : World.Outside
  | .listOfflineFiles _ => .ok []
  | .sukebei _ => .ok (some "magnet:AA")
  | .javbus _ => .ok []
  | .addOfflineFiles _ _ => .ok true
  | .findFolderFor _ => .ok none
  | _ => .error ⟨.failure "unreachable", trivial⟩

/-- So many actions of the operator or of the poll, each so many seconds after the last. -/
def stretch (operator : Bool) (n gap : Nat) : List (Bool × (Nat × World.Outside)) :=
  List.replicate n (operator, (gap * 1000000, emptyListing))

def atStart : Pool Op.Res Exn Unit (World Bool) Bool :=
  ⟨⟨.empty, 0, []⟩, fun i => (pollAndEnqueue i).prog smallSetup⟩

/-- The submission comes before the listing, by more than the grace. -/
def inTime : List (Bool × (Nat × World.Outside)) := stretch true 11 1 ++ stretch false 2 400 ++ stretch false 6 1

/-- The submission falls between the listing and the sweep, and the sweep comes late. -/
def overtaken : List (Bool × (Nat × World.Outside)) := stretch false 2 1 ++ stretch true 11 1 ++ stretch false 6 400

/-- A timely run, in which a submission CloudDrive dropped is declared lost. -/
theorem lost_fairly_inTime :
    (World.schedule inTime atStart).world.log.head?.bind Entry.lost = some ("ABC-123", 1) ∧
      LostFairly smallSetup.tracker (World.schedule inTime atStart).world.log := by
  refine ⟨by decide, lost_fairly (Pool.reach_turnsOk (fun i w op a w' => timely oneDirTracker w i w'.clock op a)
    (fun i d w op h => ⟨World.turn_step trivial, h⟩) ?_)⟩
  decide

/-- The last action declares an attempt lost that was not there when its poll read a listing. -/
def lostUnlisted {ι : Type} [DecidableEq ι] : List (Entry ι) → Bool
  | [] => false
  | e :: past => e.lost.any fun k => past.any fun e' => e'.who = e.who && e'.isListing && (e'.before.att k).isNone

theorem not_lostFairly {ι : Type} [DecidableEq ι] {t : Tracker} {log : List (Entry ι)} (h : lostUnlisted log = true) :
    ¬ LostFairly t log := by
  cases log with
  | nil => cases h
  | cons e past =>
    simp only [lostUnlisted, Option.any_eq_true, List.any_eq_true, Bool.and_eq_true, decide_eq_true_eq,
      Option.isNone_iff_eq_none] at h
    obtain ⟨k, hk, e', he', ⟨hw, hl⟩, hnone⟩ := h
    intro hf
    obtain ⟨r, hr, -⟩ := hf e past k (List.suffix_refl _) hk e' he' hw hl
    rw [hnone] at hr
    cases hr

/-- An operator submits after the listing was read; when the sweep comes, that was
long ago, and the fresh submission is declared lost. -/
theorem lost_overtaken :
    ∃ c, Pool.Reach (World.Step fun _ _ => True) atStart c ∧ ¬ LostFairly smallSetup.tracker c.world.log := by
  refine ⟨_, World.reach_schedule overtaken atStart, ?_⟩
  exact not_lostFairly (by decide)

end EmbyxManager
