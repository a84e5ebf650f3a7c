import EmbyxManager.Monitor.Components
import EmbyxManager.Monitor.Effects
/-!
# When an attempt has stalled

A poll that writes no progress takes the row its join read for the last word on
it. Another replica may have written in between: the same value, so that nothing
is left to write, or a newer one after the poll looked. The compare-and-set asks
for the state only, and the attempt is declared stalled although it moved.

What is left when the row a poll declares stalled is still the one it read, and
no write of it was executed in the stall window under an older time.
-/

namespace EmbyxManager
open Atom Prog AcquisitionRepository

/-! ## What a poll has read -/

/-- The rows a join answered. -/
def joinedRows : Event → List MagnetAttemptRecord
  | ⟨.sql (.attemptsByInfoHash _), .ok rows⟩ => rows
  | _ => []

/-- The time a look at the clock answered. -/
def timeRead : Event → Option Time
  | ⟨.now, .ok t⟩ => some t
  | _ => none

/-- The rows every join of a run has answered. -/
def joined (h : List Event) : List MagnetAttemptRecord := h.flatMap joinedRows

/-- The times a run has read. -/
def readings (h : List Event) : List Time := h.filterMap timeRead

theorem joined_cons (e : Event) (h : List Event) : joined h ⊆ joined (e :: h) := by
  intro r hr
  simp only [joined, List.flatMap_cons, List.mem_append]
  exact .inr hr

theorem readings_cons (e : Event) {h : List Event} {t : Time} (ht : t ∈ readings h) : t ∈ readings (e :: h) := by
  obtain ⟨e', he', ht'⟩ := List.mem_filterMap.1 ht
  exact List.mem_filterMap.2 ⟨e', List.mem_cons_of_mem _ he', ht'⟩

/-- An attempt is declared stalled only on a row that was joined, and a time that was read. -/
def Patient (t : Tracker) (h : List Event) : Op → Prop
  | .sql (.casAttempt avid no expected target _ _) => target = .stalled → expected ≠ .pending ∧
      ∃ attempt ∈ joined h, attempt.key = (avid, no) ∧
        ∃ at_ ∈ readings h, hours t.stallTimeoutHours ≤ at_ - attempt.updatedAt
  | _ => True

theorem Hopeful.patient {t : Tracker} {h : List Event} {op : Op} (hop : Hopeful op) : Patient t h op := by
  cases op with
  | sql s =>
    cases s with
    | casAttempt avid no expected target at_ error => exact fun h => absurd h hop
    | _ => trivial
  | _ => trivial

namespace Tracker
variable (t : Tracker)

/-- Nothing a program does makes it forget what it has read. -/
theorem keeps_hopeful {α : Type} {p : M α} (hp : Uses Hopeful p) (attempts : List MagnetAttemptRecord) :
    p.Keeps (recorded known) (Patient t) (fun h => attempts ⊆ joined h) (fun _ _ => True) := by
  refine keeps_mono (keeps_of_uses hp (fun h op hop _ => hop.patient) ?_) fun _ _ _ => trivial
  rintro h op r _ - hh ⟨-, rfl⟩
  exact fun _ hr => joined_cons _ _ (hh hr)

theorem hopeful_tryNext (avid : Avid) (limit : Nat) : Uses Hopeful (t.tryNext avid limit) :=
  uses_mono (t.uses_tryNext avid limit) fun _ h => h.1.brisk.hopeful

theorem hopeful_giveUp (attempt : MagnetAttemptRecord) {state : AttemptState} (h : state ≠ .stalled) (reason : String) :
    Uses Hopeful (t.giveUp attempt state reason) :=
  t.uses_giveUp (fun _ h => h.1.brisk.hopeful) attempt reason fun _ => h

theorem hopeful_removeIf (gaveUp : Bool) (infoHash : InfoHash) (taskDir : String) :
    Uses Hopeful (runIf gaveUp (removeTask infoHash taskDir)) :=
  uses_runIf (uses_mono (uses_removeTask _ _) fun _ h => h.1.brisk.hopeful)

/-- The one place that declares an attempt stalled. -/
theorem patient_refreshProgress {attempts : List MagnetAttemptRecord} {attempt : MagnetAttemptRecord}
    (ha : attempt ∈ attempts) (task : OfflineTask) (taskDir : String) :
    (t.refreshProgress attempt task taskDir).Keeps (recorded known) (Patient t) (fun h => attempts ⊆ joined h)
      (fun _ _ => True) := by
  have recorded (at_ : Time) : Uses Hopeful (recordProgress attempt.avid attempt.attemptNo .downloading
      (some task.progress) at_) := uses_recordProgress trivial
  intro h hh
  unfold refreshProgress
  rw [wp_bind, wp_call_recorded]
  refine ⟨trivial, fun at_ _ => ?_, fun _ _ => trivial⟩
  have read : ∀ op (r : Except Exn op.Res) h, attempts ⊆ joined h ∧ at_ ∈ readings h →
      attempts ⊆ joined (⟨op, r⟩ :: h) ∧ at_ ∈ readings (⟨op, r⟩ :: h) :=
    fun op r h hh => ⟨fun _ hr => joined_cons _ _ (hh.1 hr), readings_cons _ hh.2⟩
  have kept : ∀ {α : Type} {p : M α}, Uses Hopeful p → p.Keeps (Prog.recorded known) (Patient t)
      (fun h => attempts ⊆ joined h ∧ at_ ∈ readings h) (fun _ _ => True) := fun hp =>
    keeps_mono (keeps_of_uses hp (fun _ _ hop _ => hop.patient) fun h op r _ _ hh ⟨_, he⟩ => he ▸ read op r h hh)
      fun _ _ _ => trivial
  -- giving up comes after the row that was joined and a later reading of the clock
  have body : (do
      if ← recordProgress attempt.avid attempt.attemptNo .downloading (some task.progress) at_ then pure ()
      else
        let stalledFor := at_ - attempt.updatedAt
        if hours t.stallTimeoutHours ≤ stalledFor then do
          let gaveUp ← t.giveUp attempt .stalled (stallReason stalledFor attempt.progress)
          runIf gaveUp (removeTask task.infoHash taskDir)
        else pure () : M Unit).Keeps (Prog.recorded known) (Patient t)
        (fun h => attempts ⊆ joined h ∧ at_ ∈ readings h) (fun _ _ => True) := by
    refine keeps_bind (kept (recorded at_)) fun moved => ?_
    split
    · exact keeps_pure _
    · dsimp only
      split
      · rename_i hlong
        refine keeps_bind ?_ fun gaveUp => kept (hopeful_removeIf _ _ _)
        unfold giveUp
        refine keeps_bind (kept (uses_ok trivial)) fun stalledAt => keeps_bind ?_ fun won => ?_
        · unfold transitionAttempt
          split
          · rename_i hedge
            refine keeps_call (fun h hh _ => ⟨?_, attempt, hh.1 ha, rfl, at_, hh.2, hlong⟩) ?_ fun _ _ _ _ _ => trivial
            · intro hp
              rw [hp] at hedge
              exact absurd hedge (by decide)
            · rintro h a _ hh ⟨-, rfl⟩
              exact read _ _ h hh
          · exact keeps_raise fun _ _ => trivial
        · split
          · exact keeps_bind (kept (t.hopeful_tryNext _ _)) fun _ => keeps_pure _
          · exact keeps_pure _
      · exact keeps_pure _
  refine wp_mono (body _ ⟨fun _ hr => joined_cons _ _ (hh hr), ?_⟩) (fun _ _ h => h.1) fun _ _ _ => trivial
  simp [readings, timeRead]

theorem patient_consider {byHash : Listing} {attempts : List MagnetAttemptRecord} {x : InfoHash × MagnetAttemptRecord}
    (hx : x.2 ∈ attempts) :
    (t.consider byHash x).Keeps (recorded known) (Patient t) (fun h => attempts ⊆ joined h) (fun _ _ => True) := by
  unfold consider
  split
  · refine keeps_bind (t.keeps_hopeful (p := checkCancelled (.advance _ _)) (uses_ok trivial) _) fun _ => ?_
    unfold advance
    split
    · exact t.keeps_hopeful (uses_mono (t.uses_archiveFinished _ _ _) fun _ => Brisk.hopeful) _
    · exact t.keeps_hopeful (uses_bind (t.hopeful_giveUp _ (by decide) _) fun _ => hopeful_removeIf _ _ _) _
    · split
      · exact t.patient_refreshProgress hx _ _
      · exact keeps_pure _
  · exact keeps_raise fun _ _ => trivial

theorem hopeful_sweepLost (byHash : Listing) : Uses Hopeful (t.sweepLost byHash) := by
  unfold sweepLost
  refine uses_bind (uses_ok trivial) fun at_ => uses_bind (uses_ok trivial) fun attempts => uses_forEach fun attempt _ => ?_
  unfold sweepOne
  refine uses_bind (uses_ok trivial) fun _ => ?_
  split
  · trivial
  · split
    · trivial
    · refine uses_bind (uses_ok trivial) fun located => ?_
      split
      · exact uses_mono (t.uses_archiveOrphaned _ _ _) fun _ => Brisk.hopeful
      · exact uses_discard (t.hopeful_giveUp _ (by decide) _)

theorem patient_poll : t.poll.wp (recorded known) (Patient t) (fun _ _ => True) (fun _ _ => True) [] := by
  have anyway : ∀ {α : Type} {p : M α} {h : List Event}, Uses Hopeful p →
      p.wp (recorded known) (Patient t) (fun _ _ => True) (fun _ _ => True) h := fun hp =>
    wp_mono (t.keeps_hopeful hp [] _ (by simp)) (fun _ _ _ => trivial) fun _ _ _ => trivial
  unfold poll
  split
  · trivial
  · rw [wp_bind]
    have listing : Uses Hopeful t.listTasks := by
      unfold listTasks
      refine uses_foldEach (fun _ _ _ => uses_bind (uses_ok trivial) fun _ => ?_) _
      exact uses_bind (uses_ok trivial) fun _ => trivial
    refine wp_mono (anyway listing) (fun byHash h _ => ?_) fun _ _ _ => trivial
    have rest : Uses Hopeful (t.sweepLost byHash >>= fun _ => clearArchived byHash) :=
      uses_bind (t.hopeful_sweepLost byHash) fun _ => uses_mono (uses_clearArchived _) fun _ h => h.1.brisk.hopeful
    rw [wp_bind]
    unfold attemptsByInfoHash
    split
    · exact anyway rest
    · rw [wp_bind, wp_call_recorded]
      refine ⟨trivial, fun rows _ => ?_, fun _ _ => trivial⟩
      rw [wp_pure, wp_bind]
      have joins : ∀ x ∈ (rows : List MagnetAttemptRecord).filterMap fun row => row.infoHash.map (·, row), x.2 ∈ rows := by
        intro x hx
        obtain ⟨row, hrow, hr⟩ := List.mem_filterMap.1 hx
        obtain ⟨infoHash, -, rfl⟩ := Option.map_eq_some_iff.1 hr
        exact hrow
      exact wp_mono (keeps_forEach (fun x hx => t.patient_consider (joins x hx)) _ (List.subset_append_left _ _))
        (fun _ h _ => anyway rest) fun _ _ _ => trivial

end Tracker

/-! ## Which runs are sound -/

section Steadfast
variable {ι : Type} [DecidableEq ι] (t : Tracker)

/-- The attempt this action declared stalled. -/
def Entry.stalled (e : Entry ι) : Option AttemptKey :=
  match e.event with
  | ⟨.sql (.casAttempt avid no _ .stalled _ _), .ok true⟩ => some (avid, no)
  | _ => none

/-- The time a write would leave the attempt with, if it is one of this attempt. -/
def Entry.stamp (e : Entry ι) (k : AttemptKey) : Option Time :=
  match e.event.op with
  | .sql (.claimNextPending avid at_) => if avid = k.1 then some at_ else none
  | .sql (.claimAttempt avid no at_) | .sql (.casAttempt avid no _ _ at_ _) | .sql (.recordProgress avid no _ _ at_) =>
    if (avid, no) = k then some at_ else none
  | _ => none

/-- An attempt is declared stalled only when its recorded progress is what it was
throughout the stall timeout. -/
def StalledSoundly (log : List (Entry ι)) : Prop :=
  ∀ e past k, e :: past <:+ log → e.stalled = some k → ∀ e' ∈ past, e.time - hours t.stallTimeoutHours < e'.time →
    (e'.before.att k).map (·.progress) = (e.before.att k).map (·.progress)

/-- An attempt is declared stalled only while its row is the one the poll's join read, and
when no write of it was executed within the stall timeout under a time from before. -/
def undisturbed (w : World ι) (i : ι) (clock : Time) : Op → Bool
  | .sql (.casAttempt avid no _ .stalled _ _) =>
    (joined (w.history i)).all (fun attempt => attempt.key ≠ (avid, no) ||
      (w.ledger.att (avid, no)).all fun r => r.updatedAt = attempt.updatedAt) &&
    w.log.all fun e => (e.stamp (avid, no)).all fun u =>
      clock < u + hours t.stallTimeoutHours || e.time + hours t.stallTimeoutHours ≤ clock
  | _ => true

/-- The actions of a thread in a run whose stalls are undisturbed. -/
def UndisturbedStep (i : ι) : Env Op.Res Exn (World ι) := fun w op r w' =>
  World.Step (fun _ _ => True) i w op r w' ∧ undisturbed t w i w'.clock op = true

/-! ## The invariant -/

structure Steadfast (w : World ι) : Prop where
  past : ∀ e ∈ w.log, e.time ≤ w.clock
  read : ∀ i, ∀ u ∈ readings (w.history i), u ≤ w.clock
  /-- A row that is no longer what an action found was written since, and carries the time of a write. -/
  stamped : ∀ k r, w.ledger.att k = some r → r.state ≠ .pending → ∀ e' ∈ w.log, e'.before.att k ≠ some r →
    ∃ e ∈ w.log, e'.time ≤ e.time ∧ e.stamp k = some r.updatedAt
  stalled : StalledSoundly t w.log

variable {t}

omit [DecidableEq ι] in
/-- What an action makes of a row, it stamps. -/
theorem stamped_after {i : ι} {clock : Time} {l l' : Ledger} {op : Op} {a : Except Exn op.Res}
    (hans : Answers clock l op a l') {k : AttemptKey} {r' : MagnetAttemptRecord} (hr' : l'.att k = some r')
    (hp : r'.state ≠ .pending) :
    l.att k = some r' ∨ (⟨i, clock, l, op, a⟩ : Entry ι).stamp k = some r'.updatedAt := by
  rcases answers_ledger hans with rfl | ⟨s, b, rfl, hg⟩
  · exact .inl hr'
  · cases hr : l.att k with
    | none => exact absurd (Sql.att_new hg hr hr') hp
    | some r =>
      obtain ⟨r'', hr'', heff⟩ := Sql.att_effect hg hr
      cases hr'.symm.trans hr''
      cases heff with
      | same => exact .inl rfl
      | claimed at_ hs _ =>
        rcases hs with rfl | rfl
        · exact .inr (if_pos rfl)
        · exact .inr (if_pos rfl)
      | moved hs _ =>
        subst hs
        exact .inr (if_pos rfl)
      | progressed hs _ =>
        subst hs
        exact .inr (if_pos rfl)

/-- The row a poll declares stalled is as old as it says. -/
theorem stalled_soundly {i : ι} {w w' : World ι} {op : Op} {a : Except Exn op.Res} (hi : Steadfast t w)
    (hG : Patient t (w.history i) op) (hs : UndisturbedStep t i w op a w') {k : AttemptKey}
    (hk : (⟨i, w'.clock, w.ledger, op, a⟩ : Entry ι).stalled = some k) {e' : Entry ι} (he' : e' ∈ w.log)
    (hlate : w'.clock - hours t.stallTimeoutHours < e'.time) :
    (e'.before.att k).map (·.progress) = (w.ledger.att k).map (·.progress) := by
  obtain ⟨⟨clock, l', hclock, -, hans, rfl⟩, hund⟩ := hs
  unfold Entry.stalled at hk
  split at hk
  · rename_i avid no expected at_ error heq
    cases heq
    cases hk
    obtain ⟨hpending, attempt, hjoined, hkey, read, hread, hlong⟩ := hG rfl
    obtain ⟨r, hr, hstate⟩ := (Ledger.casAttempt_spec hans).2.2.1 rfl
    simp only [undisturbed, Bool.and_eq_true, List.all_eq_true, Bool.or_eq_true, decide_eq_true_eq, Option.all_eq_true,
      decide_not, Bool.not_eq_true', decide_eq_false_iff_not] at hund
    have hsame : r.updatedAt = attempt.updatedAt := ((hund.1 attempt hjoined).resolve_left (not_not.2 hkey)) r hr
    by_cases hrow : e'.before.att (avid, no) = some r
    · rw [hrow, hr]
    · obtain ⟨e, he, hle, hstamp⟩ := hi.stamped _ r hr (hstate ▸ hpending) e' he' hrow
      have hread := hi.read i read hread
      have young : ∀ {clock u timeout read : Int}, clock < u + timeout → timeout ≤ read - u → read ≤ clock → False := by
        omega
      have early : ∀ {clock timeout t t' : Int}, t + timeout ≤ clock → t' ≤ t → clock - timeout < t' → False := by
        omega
      rcases hund.2 e he r.updatedAt hstamp with h | h
      · rw [hsame] at h
        exact (young h hlong (Int.le_trans hread hclock)).elim
      · exact (early h hle hlate).elim
  · cases hk

theorem steadfast_step {i : ι} {w w' : World ι} {op : Op} {a : Except Exn op.Res} (hi : Steadfast t w)
    (hG : Patient t (w.history i) op) (hs : UndisturbedStep t i w op a w') : Steadfast t w' := by
  have soundly := fun k => stalled_soundly (k := k) hi hG hs
  obtain ⟨⟨clock, l', hclock, -, hans, rfl⟩, hund⟩ := hs
  refine ⟨fun e he => ?_, fun j u hu => ?_, fun k r hr hp e' he' hne => ?_, fun e post k hsuf hk e' he' hlate => ?_⟩
  · rcases List.mem_cons.1 he with rfl | he
    · exact Int.le_refl _
    · exact Int.le_trans (hi.past e he) hclock
  · rw [World.history_cons] at hu
    by_cases hij : i = j
    · subst hij
      rw [if_pos rfl] at hu
      obtain ⟨e, he, hu⟩ := List.mem_filterMap.1 hu
      rcases List.mem_cons.1 he with rfl | he
      · cases op with
        | now =>
          obtain ⟨rfl, -⟩ := hans
          cases hu
          exact Int.le_refl _
        | _ => cases hu
      · exact Int.le_trans (hi.read i u (List.mem_filterMap.2 ⟨e, he, hu⟩)) hclock
    · rw [if_neg hij] at hu
      exact Int.le_trans (hi.read j u hu) hclock
  · have written : (⟨i, clock, w.ledger, op, a⟩ : Entry ι).stamp k = some r.updatedAt → e'.time ≤ clock →
        ∃ e ∈ (⟨i, clock, w.ledger, op, a⟩ :: w.log : List (Entry ι)), e'.time ≤ e.time ∧ e.stamp k = some r.updatedAt :=
      fun hstamp hle => ⟨_, List.mem_cons_self, hle, hstamp⟩
    -- the stamp is the old one, or this very statement wrote it
    rcases stamped_after (i := i) hans hr hp with hold | hstamp
    · rcases List.mem_cons.1 he' with rfl | he'
      · exact absurd hold hne
      · obtain ⟨e, he, hle, hstamp⟩ := hi.stamped k r hold hp e' he' hne
        exact ⟨e, List.mem_cons_of_mem _ he, hle, hstamp⟩
    · rcases List.mem_cons.1 he' with rfl | he'
      · exact written hstamp (Int.le_refl _)
      · exact written hstamp (Int.le_trans (hi.past e' he') hclock)
  · rcases List.suffix_cons_iff.1 hsuf with heq | hsuf
    · cases heq
      exact soundly k hk he' hlate
    · exact hi.stalled e post k hsuf hk e' he' hlate

/-- Whatever polls and other components do at the same time, and whatever progress CloudDrive
reports: where every stall is undisturbed, an attempt is declared stalled only when its
recorded progress stood still for the stall timeout. -/
theorem stalled_soundly_of_undisturbed {s : Setup} {component : ι → Component} {l : Ledger} {start : Time}
    {c : Pool Op.Res Exn Unit (World ι) ι}
    (h : Pool.Reach (UndisturbedStep s.tracker) ⟨⟨l, start, []⟩, fun i => (component i).prog s⟩ c) :
    StalledSoundly s.tracker c.world.log := by
  have step : ∀ (i : ι) w op a w', UndisturbedStep s.tracker i w op a w' → World.Step known i w op a w' := by
    rintro i w op a w' ⟨⟨clock, l', hc, -, ha, hw⟩, -⟩
    exact ⟨clock, l', hc, answers_known ha, ha, hw⟩
  have start_steadfast : Steadfast s.tracker (⟨l, start, []⟩ : World ι) := by
    refine ⟨by simp, fun i u hu => by simp [World.history, readings] at hu, by simp, fun e past k hsuf => ?_⟩
    simp at hsuf
  refine (World.reach_inv step (fun _ => Patient s.tracker) (Steadfast s.tracker)
    (fun _ _ _ _ _ hi hG ht => steadfast_step hi hG ht) start_steadfast rfl (fun i => ?_) h).1.stalled
  dsimp only
  by_cases hi : component i = .poll
  · rw [hi]
    exact s.tracker.patient_poll
  · have hk := s.tracker.keeps_hopeful (uses_mono (Component.uses_prog s hi) fun _ h => h.brisk.hopeful) []
    exact wp_mono (hk [] (by simp)) (fun _ _ _ => trivial) fun _ _ _ => trivial

end Steadfast

/-! ## Two replicas and one download -/

/-- An attempt at half its size when the day begins. -/
def halfway : Ledger :=
  Ledger.after .empty (submittedAt "ABC-123" "AA" 0 ++ [.recordProgress "ABC-123" 1 .downloading (some 50) 0])

/-- CloudDrive lists that task, so far done. -/
def progressed (progress : Rat) : World.Outside
  | .listOfflineFiles _ => .ok [⟨"ABC-123", "AA", .downloading, progress⟩]
  | .removeOfflineFiles .. => .ok ()
  | _ => .error ⟨.failure "unreachable", trivial⟩

def twoPolls : Pool Op.Res Exn Unit (World Bool) Bool :=
  ⟨⟨halfway, 0, []⟩, fun _ => Component.poll.prog smallSetup⟩

/-- So many actions of one replica, the first so many hours after the last action. -/
def pollTurns (replica : Bool) (n gap : Nat) (progress : Rat) : List (Bool × (Nat × World.Outside)) :=
  (replica, (gap * 3600000000, progressed progress)) :: List.replicate (n - 1) (replica, (1000000, progressed progress))

/-- A day later the download has not moved, and one replica says so. -/
theorem stalled_soundly_day :
    (World.schedule (pollTurns true 8 25 50) twoPolls).world.log.head?.bind Entry.stalled = some ("ABC-123", 1) ∧
      StalledSoundly smallSetup.tracker (World.schedule (pollTurns true 8 25 50) twoPolls).world.log := by
  refine ⟨by decide, stalled_soundly_of_undisturbed (Pool.reach_turnsOk
    (fun i w op _ w' => undisturbed oneDirTracker w i w'.clock op) (fun i d w op h => ⟨World.turn_step trivial, h⟩) ?_)⟩
  decide

/-- The last action declares an attempt stalled whose progress another action found different
within the timeout. -/
def stalledMoved {ι : Type} (t : Tracker) : List (Entry ι) → Bool
  | [] => false
  | e :: past => e.stalled.any fun k => past.any fun e' =>
    e.time - hours t.stallTimeoutHours < e'.time &&
      (e'.before.att k).map (·.progress) ≠ (e.before.att k).map (·.progress)

theorem not_stalledSoundly {ι : Type} {t : Tracker} {log : List (Entry ι)} (h : stalledMoved t log = true) :
    ¬ StalledSoundly t log := by
  cases log with
  | nil => cases h
  | cons e past =>
    simp only [stalledMoved, Option.any_eq_true, List.any_eq_true, Bool.and_eq_true, decide_eq_true_eq] at h
    obtain ⟨k, hk, e', he', hlate, hne⟩ := h
    exact fun hf => hne (hf e past k (List.suffix_refl _) hk e' he' hlate)

/-- One replica has joined the attempt when the other records its progress; then it finds
nothing left to write, and declares the attempt stalled on the row it read. -/
theorem stalled_overtaken :
    ∃ c, Pool.Reach (World.Step fun _ _ => True) twoPolls c ∧ ¬ StalledSoundly smallSetup.tracker c.world.log := by
  refine ⟨_, World.reach_schedule (pollTurns true 3 25 51 ++ pollTurns false 6 0 51 ++ pollTurns true 5 0 51) twoPolls, ?_⟩
  exact not_stalledSoundly (by decide)

end EmbyxManager
