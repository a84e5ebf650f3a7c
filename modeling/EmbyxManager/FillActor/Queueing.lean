import EmbyxManager.Atom.Pool
import EmbyxManager.Atom.Tally
import EmbyxManager.FillActor.Scan
/-!
# Handing over what is missing

`_queue_missing`: the missing videos stand in one queue, a few workers take them out of it,
and each hands over what it has taken, keeps the answer under the video's id and counts it
under a lock. The workers take turns at every `await`; here they do at every action.

The semaphore a hand-over waits for is shared with other scans, and is granted at any time.
-/

namespace EmbyxManager.FillActor.Scan.Queueing

open Atom

/-! ## Actions -/

inductive Op where
  /-- `queue.get_nowait()`; none when the queue is empty. -/
  | getNowait
  | acquire
  | release
  | queueMissing (videoId : String) (releaseDate : Option Date)
  /-- `results[video_id] = ...`. -/
  | store (result : Submitted)
  | lock
  | unlock
  /-- `completed += 1`. -/
  | count
  | progress (event : JobProgressEvent)

def Res : Op → Type
  | .getNowait => Option String
  | .queueMissing .. => AcquisitionOutcome
  | .count => Nat
  | .acquire | .release | .store _ | .lock | .unlock | .progress _ => Unit

/-- What is raised; none when a worker has used up its rounds. -/
abbrev Raised := Option Exc

abbrev M := Prog Res Raised

def ask (op : Op) : M (Res op) := Prog.call op

/-- What the gateway's answer comes to. -/
def answered (videoId : String) : Except Raised AcquisitionOutcome → Submitted
  | .ok outcome => (videoId, outcome, outcome.warning)
  | .error _ => (videoId, .submitFailed, some "acquisition_failed")

section worker
-- `len(video_ids)`, and `release_dates`
variable (total : Nat) (releaseDates : List (String × Date))

def submit (videoId : String) : M Submitted := do
  ask .acquire
  let outcome ← (ask (.queueMissing videoId (releaseDates.lookup videoId))).attempt
  ask .release
  pure (answered videoId outcome)

def event (completed : Nat) (videoId : String) : JobProgressEvent :=
  ⟨.submitting, completed, some total, .videos, some videoId⟩

/-- Under `progress_lock`. -/
def countOne (videoId : String) : M Unit := do
  ask .lock
  let completed ← ask .count
  let reported ← (ask (.progress (event total completed videoId))).attempt
  ask .unlock
  match reported with
  | .ok _ => pure ()
  | .error e => .raise e

/-- `worker`; the rounds are more than there are ids. -/
def worker : Nat → M Unit
  | 0 => .raise none
  | rounds + 1 => do
    match ← ask .getNowait with
    | none => pure ()
    | some videoId =>
      let result ← submit releaseDates videoId
      ask (.store result)
      countOne total videoId
      worker rounds

end worker

/-! ## The world -/

/-- The queue, what has been handed over and with what answer, and what the workers share. -/
structure World where
  queue : List String
  submitted : List Submitted := []
  results : List Submitted := []
  locked : Option Nat := none
  completed : Nat := 0
  /-- The last one first. -/
  reports : List JobProgressEvent := []
  /-- The reports whose callback raised, with the worker that made them and what was raised. -/
  failures : List (Nat × JobProgressEvent × Raised) := []

/-- `results[video_id] = result`. -/
def put (results : List Submitted) (result : Submitted) : List Submitted :=
  result :: results.filter fun r => r.1 ≠ result.1

/-- `results[video_id]`. -/
def get (results : List Submitted) (videoId : String) : Option Submitted := results.find? fun r => r.1 = videoId

variable {workers : Nat}

/-- A report that raised, if it did. -/
def failed (i : Nat) (e : JobProgressEvent) : Except Raised Unit → List (Nat × JobProgressEvent × Raised)
  | .ok _ => []
  | .error raised => [(i, e, raised)]

/-- What an action of a worker does. The gateway may answer or raise anything, and so may the callback. -/
def acts (i : Fin workers) : Env Res Raised World := fun w op r w' =>
  match op, r with
  | .getNowait, r =>
    (w.queue = [] ∧ r = .ok none ∧ w' = w) ∨
      ∃ videoId rest, w.queue = videoId :: rest ∧ r = .ok (some videoId) ∧ w' = { w with queue := rest }
  | .acquire, r | .release, r => r = .ok () ∧ w' = w
  | .queueMissing videoId _, r => r ≠ .error none ∧ w' = { w with submitted := w.submitted ++ [answered videoId r] }
  | .store result, r => r = .ok () ∧ w' = { w with results := put w.results result }
  | .lock, r => r = .ok () ∧ w.locked = none ∧ w' = { w with locked := some i }
  | .unlock, r => r = .ok () ∧ w' = { w with locked := none }
  | .count, r => r = .ok (w.completed + 1) ∧ w' = { w with completed := w.completed + 1 }
  | .progress e, r => r ≠ .error none ∧ w' = { w with reports := e :: w.reports, failures := failed i e r ++ w.failures }

/-- `worker_count`. -/
def workerCount (magnetConcurrency : Nat) (videoIds : List String) : Nat := min magnetConcurrency videoIds.length

/-- The workers as they are started. -/
def started (magnetConcurrency : Nat) (videoIds : List String) (releaseDates : List (String × Date)) :
    Pool Res Raised Unit World (Fin (workerCount magnetConcurrency videoIds)) where
  world := { queue := videoIds }
  prog _ := worker videoIds.length releaseDates (videoIds.length + 1)

/-- What `_queue_missing` returns once every worker has. -/
def gathered (videoIds : List String) (results : List Submitted) : Option (List Submitted) := videoIds.mapM (get results)

/-! ## One worker -/

/-- Where a worker is. -/
inductive Phase where
  | idle
  | holding (videoId : String)
  | handedOver (result : Submitted)
  | stored (videoId : String)
  | locking (videoId : String)
  | counted (videoId : String) (completed : Nat)
  | reported
  | ended

structure Turn where
  phase : Phase
  rounds : Nat

section wp
variable {total : Nat} {releaseDates : List (String × Date)}

/-- What a worker asks for, and where the answer takes it. -/
inductive Goes (total : Nat) (releaseDates : List (String × Date)) : Turn → (op : Op) → Except Raised (Res op) → Turn → Prop
  | empty {n} : Goes total releaseDates ⟨.idle, n⟩ .getNowait (.ok none) ⟨.ended, n⟩
  | take {n} (videoId : String) : Goes total releaseDates ⟨.idle, n + 1⟩ .getNowait (.ok (some videoId)) ⟨.holding videoId, n⟩
  | acquire {n videoId} : Goes total releaseDates ⟨.holding videoId, n⟩ .acquire (.ok ()) ⟨.holding videoId, n⟩
  | queueMissing {n videoId} (r) : Goes total releaseDates ⟨.holding videoId, n⟩
      (.queueMissing videoId (releaseDates.lookup videoId)) r ⟨.handedOver (answered videoId r), n⟩
  | release {n result} : Goes total releaseDates ⟨.handedOver result, n⟩ .release (.ok ()) ⟨.handedOver result, n⟩
  | store {n result} : Goes total releaseDates ⟨.handedOver result, n⟩ (.store result) (.ok ()) ⟨.stored result.1, n⟩
  | lock {n videoId} : Goes total releaseDates ⟨.stored videoId, n⟩ .lock (.ok ()) ⟨.locking videoId, n⟩
  | count {n videoId} (completed : Nat) : Goes total releaseDates ⟨.locking videoId, n⟩ .count (.ok completed)
      ⟨.counted videoId completed, n⟩
  | progress {n videoId completed} (r) : r ≠ .error none → Goes total releaseDates ⟨.counted videoId completed, n⟩
      (.progress (event total completed videoId)) r ⟨.reported, n⟩
  | unlock {n} : Goes total releaseDates ⟨.reported, n⟩ .unlock (.ok ()) ⟨.idle, n⟩

/-- What a worker may ask for where it is. -/
def Asks (total : Nat) (releaseDates : List (String × Date)) : Turn → Op → Prop
  | ⟨.idle, _⟩, op => op = .getNowait
  | ⟨.holding videoId, _⟩, op => op = .acquire ∨ op = .queueMissing videoId (releaseDates.lookup videoId)
  | ⟨.handedOver result, _⟩, op => op = .release ∨ op = .store result
  | ⟨.stored _, _⟩, op => op = .lock
  | ⟨.locking _, _⟩, op => op = .count
  | ⟨.counted videoId completed, _⟩, op => op = .progress (event total completed videoId)
  | ⟨.reported, _⟩, op => op = .unlock
  | ⟨.ended, _⟩, _ => False

open Prog

theorem wp_submit {X : Raised → Turn → Prop} {n : Nat} (videoId : String) :
    (submit releaseDates videoId).wp (Goes total releaseDates) (Asks total releaseDates)
      (fun result q => result.1 = videoId ∧ q = ⟨.handedOver result, n⟩) X ⟨.holding videoId, n⟩ := by
  refine (wp_bind _ _).2 ((wp_call _).2 ⟨.inl rfl, ?_, ?_⟩)
  · rintro _ q ⟨⟩
    refine (wp_bind _ _).2 ((wp_attempt _).2 ((wp_call _).2 ⟨.inr rfl, ?_, ?_⟩))
    · rintro outcome q ⟨⟩
      refine (wp_bind _ _).2 ((wp_call _).2 ⟨.inl rfl, ?_, ?_⟩)
      · rintro _ q ⟨⟩
        exact ⟨rfl, rfl⟩
      · rintro _ q ⟨⟩
    · rintro e q ⟨⟩
      refine (wp_bind _ _).2 ((wp_call _).2 ⟨.inl rfl, ?_, ?_⟩)
      · rintro _ q ⟨⟩
        exact ⟨rfl, rfl⟩
      · rintro _ q ⟨⟩
  · rintro _ q ⟨⟩

theorem wp_countOne {n : Nat} (videoId : String) :
    (countOne total videoId).wp (Goes total releaseDates) (Asks total releaseDates)
      (fun _ q => q = ⟨.idle, n⟩) (fun e _ => e ≠ none) ⟨.stored videoId, n⟩ := by
  refine (wp_bind _ _).2 ((wp_call _).2 ⟨rfl, ?_, ?_⟩)
  · rintro _ q ⟨⟩
    refine (wp_bind _ _).2 ((wp_call _).2 ⟨rfl, ?_, ?_⟩)
    · rintro completed q ⟨⟩
      refine (wp_bind _ _).2 ((wp_attempt _).2 ((wp_call _).2 ⟨rfl, ?_, ?_⟩))
      · rintro _ q ⟨⟩
        refine (wp_bind _ _).2 ((wp_call _).2 ⟨rfl, ?_, ?_⟩)
        · rintro _ q ⟨⟩
          rfl
        · rintro _ q ⟨⟩
      · rintro e q hgoes
        cases hgoes with
        | progress _ he =>
          refine (wp_bind _ _).2 ((wp_call _).2 ⟨rfl, ?_, ?_⟩)
          · rintro _ q ⟨⟩
            rintro rfl
            exact he rfl
          · rintro _ q ⟨⟩
    · rintro _ q ⟨⟩
  · rintro _ q ⟨⟩

/-- A worker, by induction on its rounds: it ends when it has found the queue empty, and it
only runs out of rounds where it has none left. -/
theorem wp_worker (n : Nat) :
    (worker total releaseDates n).wp (Goes total releaseDates) (Asks total releaseDates)
      (fun _ q => q.phase = .ended) (fun e q => e = none → q = ⟨.idle, 0⟩) ⟨.idle, n⟩ := by
  induction n with
  | zero => exact fun _ => rfl
  | succ n ih =>
    refine (wp_bind _ _).2 ((wp_call _).2 ⟨rfl, ?_, ?_⟩)
    · intro found q hgoes
      cases hgoes with
      | empty => rfl
      | take videoId =>
        refine (wp_bind _ _).2 (wp_mono (wp_submit videoId) ?_ fun e q h => h)
        rintro result q ⟨rfl, rfl⟩
        refine (wp_bind _ _).2 ((wp_call _).2 ⟨.inr rfl, ?_, ?_⟩)
        · rintro _ q ⟨⟩
          refine (wp_bind _ _).2 (wp_mono (wp_countOne result.1) ?_ fun e q he h => absurd h he)
          rintro _ q rfl
          exact ih
        · rintro _ q ⟨⟩
    · rintro _ q ⟨⟩

end wp

/-! ### What it raises -/

section raises
variable {total : Nat} {releaseDates : List (String × Date)}

/-- The last report of a worker that its callback did not take, and what was raised. -/
abbrev Heard := Option (JobProgressEvent × Raised)

/-- What a worker hears: only a hand-over and a report raise, and a report that does is remembered. -/
inductive Hears : Heard → (op : Op) → Except Raised (Res op) → Heard → Prop
  | ok {heard op} (a : Res op) : Hears heard op (.ok a) heard
  | refused {heard videoId releaseDate} (raised : Raised) : Hears heard (.queueMissing videoId releaseDate) (.error raised) heard
  | report {heard} (e : JobProgressEvent) (raised : Raised) : Hears heard (.progress e) (.error raised) (some (e, raised))

open Prog

/-- The workers' own steps raise nothing. -/
theorem hears_ask (op : Op) {Q : Res op → Heard → Prop} {X : Raised → Heard → Prop} {heard : Heard}
    (hop : ∀ raised heard', ¬ Hears heard op (.error raised) heard') (h : ∀ a, Q a heard) :
    (ask op).wp Hears (fun _ _ => True) Q X heard := by
  refine (wp_call _).2 ⟨trivial, fun a heard' hears => ?_, fun raised heard' hears => absurd hears (hop raised heard')⟩
  cases hears
  exact h a

theorem submit_raises {X : Raised → Heard → Prop} {heard : Heard} (videoId : String) :
    (submit releaseDates videoId).wp Hears (fun _ _ => True) (fun _ _ => True) X heard := by
  refine (wp_bind _ _).2 (hears_ask _ (by rintro _ _ ⟨⟩) fun _ => ?_)
  refine (wp_bind _ _).2 ((wp_attempt _).2 ((wp_call _).2 ⟨trivial, ?_, ?_⟩))
  · exact fun _ _ _ => (wp_bind _ _).2 (hears_ask _ (by rintro _ _ ⟨⟩) fun _ => trivial)
  · exact fun _ _ _ => (wp_bind _ _).2 (hears_ask _ (by rintro _ _ ⟨⟩) fun _ => trivial)

theorem countOne_raises {heard : Heard} (videoId : String) :
    (countOne total videoId).wp Hears (fun _ _ => True) (fun _ _ => True)
      (fun raised heard' => ∃ e, heard' = some (e, raised)) heard := by
  refine (wp_bind _ _).2 (hears_ask _ (by rintro _ _ ⟨⟩) fun _ => ?_)
  refine (wp_bind _ _).2 (hears_ask _ (by rintro _ _ ⟨⟩) fun completed => ?_)
  refine (wp_bind _ _).2 ((wp_attempt _).2 ((wp_call _).2 ⟨trivial, ?_, ?_⟩))
  · exact fun _ _ _ => (wp_bind _ _).2 (hears_ask _ (by rintro _ _ ⟨⟩) fun _ => trivial)
  · intro raised heard' hears
    cases hears
    exact (wp_bind _ _).2 (hears_ask _ (by rintro _ _ ⟨⟩) fun _ => ⟨_, rfl⟩)

/-- By induction on the rounds: a worker that has rounds left raises what a report of its own was answered. -/
theorem worker_raises (n : Nat) {heard : Heard} :
    (worker total releaseDates n).wp Hears (fun _ _ => True) (fun _ _ => True)
      (fun raised heard' => raised = none ∨ ∃ e, heard' = some (e, raised)) heard := by
  induction n generalizing heard with
  | zero => exact .inl rfl
  | succ n ih =>
    refine (wp_bind _ _).2 (hears_ask _ (by rintro _ _ ⟨⟩) fun found => ?_)
    cases found with
    | none => trivial
    | some videoId =>
      refine (wp_bind _ _).2 (wp_mono (submit_raises videoId) (fun result heard₁ _ => ?_) fun _ _ h => h)
      refine (wp_bind _ _).2 (hears_ask _ (by rintro _ _ ⟨⟩) fun _ => ?_)
      exact (wp_bind _ _).2 (wp_mono (countOne_raises videoId) (fun _ _ _ => ih) fun _ _ h => .inr h)

end raises

/-! ## All of them -/

section run
variable {videoIds : List String} {releaseDates : List (String × Date)} {w w' : World} {q : Fin workers → Turn} {i : Fin workers}
  {t t' : Turn} {op : Op} {r : Except Raised (Res op)}

/-- One of the actions a worker may ask for is answered, and it goes on. -/
theorem exists_goes (hrounds : w.queue.length < t.rounds) (hasks : Asks videoIds.length releaseDates t op) (hacts : acts i w op r w') :
    ∃ t', Goes videoIds.length releaseDates t op r t' := by
  obtain ⟨phase, n⟩ := t
  cases phase with
  | idle =>
    obtain rfl : op = .getNowait := hasks
    rcases hacts with ⟨-, rfl, -⟩ | ⟨videoId, rest, hqueue, rfl, -⟩
    · exact ⟨_, .empty⟩
    · -- the queue still holds an id, so the worker has rounds left
      obtain ⟨n, rfl⟩ : ∃ m, n = m + 1 := ⟨n - 1, by simp [hqueue] at hrounds; omega⟩
      exact ⟨_, .take videoId⟩
  | holding videoId =>
    rcases hasks with rfl | rfl
    · obtain ⟨rfl, -⟩ := hacts
      exact ⟨_, .acquire⟩
    · exact ⟨_, .queueMissing r⟩
  | handedOver result =>
    rcases hasks with rfl | rfl
    · obtain ⟨rfl, -⟩ := hacts
      exact ⟨_, .release⟩
    · obtain ⟨rfl, -⟩ := hacts
      exact ⟨_, .store⟩
  | stored videoId =>
    obtain rfl : op = .lock := hasks
    obtain ⟨rfl, -⟩ := hacts
    exact ⟨_, .lock⟩
  | locking videoId =>
    obtain rfl : op = .count := hasks
    obtain ⟨rfl, -⟩ := hacts
    exact ⟨_, .count _⟩
  | counted videoId completed =>
    obtain rfl : op = .progress _ := hasks
    exact ⟨_, .progress r hacts.1⟩
  | reported =>
    obtain rfl : op = .unlock := hasks
    obtain ⟨rfl, -⟩ := hacts
    exact ⟨_, .unlock⟩
  | ended => exact hasks.elim

/-! ### What stands where -/

def Phase.holds (videoId : String) : Phase → Bool
  | holding id => id = videoId
  | _ => false

def holding (videoId : String) (q : Fin workers → Turn) : Nat := tally (fun t : Turn => t.phase.holds videoId) q

/-- Every id stands in the queue, is held by a worker or has been handed over, as often as it is listed. -/
structure Once (videoIds : List String) (w : World) (q : Fin workers → Turn) : Prop where
  once : ∀ videoId, w.queue.count videoId + holding videoId q + (w.submitted.map (·.1)).count videoId = videoIds.count videoId
  rounds : ∀ i, w.queue.length < (q i).rounds
  drained : ∀ i, (q i).phase = .ended → w.queue = []

/-- Only the worker that goes on and the queue it takes from are to be looked at. -/
theorem Once.move (h : Once videoIds w q) (hq : q i = t)
    (hcount : ∀ videoId, w'.queue.count videoId + (t'.phase.holds videoId).toNat + (w'.submitted.map (·.1)).count videoId =
      w.queue.count videoId + (t.phase.holds videoId).toNat + (w.submitted.map (·.1)).count videoId)
    (hqueue : w'.queue.length ≤ w.queue.length) (hrounds : w'.queue.length < t'.rounds) (hover : t'.phase = .ended → w'.queue = []) :
    Once videoIds w' (Function.update q i t') := by
  subst hq
  refine ⟨fun videoId => ?_, fun j => ?_, fun j hj => ?_⟩
  · have hbefore := h.once videoId
    have hstep := hcount videoId
    have htally := tally_update (fun t : Turn => t.phase.holds videoId) q i t'
    unfold holding at hbefore ⊢
    omega
  · by_cases hji : j = i
    · subst hji
      rwa [Function.update_self]
    · rw [Function.update_of_ne hji]
      exact hqueue.trans_lt (h.rounds j)
  · by_cases hji : j = i
    · subst hji
      rw [Function.update_self] at hj
      exact hover hj
    · rw [Function.update_of_ne hji] at hj
      rw [h.drained j hj, List.length_nil, Nat.le_zero] at hqueue
      exact List.length_eq_zero_iff.1 hqueue

theorem Once.step (h : Once videoIds w q) (hq : q i = t) (hgoes : Goes videoIds.length releaseDates t op r t')
    (hacts : acts i w op r w') : Once videoIds w' (Function.update q i t') := by
  have hrounds : w.queue.length < t.rounds := hq ▸ h.rounds i
  cases hgoes with
  | empty =>
    rcases hacts with ⟨hqueue, -, rfl⟩ | ⟨videoId, rest, -, hr, -⟩
    · exact h.move hq (fun _ => rfl) le_rfl hrounds fun _ => hqueue
    · cases hr
  | take videoId =>
    rcases hacts with ⟨-, hr, -⟩ | ⟨_, rest, hqueue, hr, rfl⟩
    · cases hr
    · cases hr
      rw [hqueue] at hrounds
      refine h.move hq (fun id => ?_) (by simp [hqueue]) ?_ (by simp)
      · by_cases hid : videoId = id <;> simp [hqueue, Phase.holds, hid]
      · simp at hrounds
        omega
  | acquire =>
    obtain ⟨-, rfl⟩ := hacts
    exact h.move hq (fun _ => rfl) le_rfl hrounds (by simp)
  | queueMissing r =>
    obtain ⟨-, rfl⟩ := hacts
    refine h.move hq (fun id => ?_) le_rfl hrounds (by simp)
    -- the id goes from the worker's hand to what was handed over
    rename_i n videoId
    have hid : (answered videoId r).1 = videoId := by cases r <;> rfl
    simp only [List.map_append, List.map_cons, List.map_nil, List.count_append, hid, Phase.holds]
    by_cases hsame : videoId = id
    · simp [hsame]
      omega
    · simp [hsame]
  | release =>
    obtain ⟨-, rfl⟩ := hacts
    exact h.move hq (fun _ => rfl) le_rfl hrounds (by simp)
  | store =>
    obtain ⟨-, rfl⟩ := hacts
    exact h.move hq (fun _ => rfl) le_rfl hrounds (by simp)
  | lock =>
    obtain ⟨-, -, rfl⟩ := hacts
    exact h.move hq (fun _ => rfl) le_rfl hrounds (by simp)
  | count completed =>
    obtain ⟨-, rfl⟩ := hacts
    exact h.move hq (fun _ => rfl) le_rfl hrounds (by simp)
  | progress r hr =>
    obtain ⟨-, rfl⟩ := hacts
    exact h.move hq (fun _ => rfl) le_rfl hrounds (by simp)
  | unlock =>
    obtain ⟨-, rfl⟩ := hacts
    exact h.move hq (fun _ => rfl) le_rfl hrounds (by simp)

/-! ### What is counted and reported -/

/-- Handed over, and not counted yet. -/
def Phase.pending : Phase → Bool
  | handedOver _ | stored _ | locking _ => true
  | _ => false

/-- Inside the lock. -/
def Phase.inside : Phase → Bool
  | locking _ | counted _ _ | reported => true
  | _ => false

def pending (q : Fin workers → Turn) : Nat := tally (fun t : Turn => t.phase.pending) q

/-- The count goes with what has been handed over, and the reports with the count. -/
structure Counted (total : Nat) (w : World) (q : Fin workers → Turn) : Prop where
  counted : w.submitted.length = pending q + w.completed
  inside : ∀ i, (q i).phase.inside = true → w.locked = some i.val
  level : (∀ i videoId n, (q i).phase ≠ .counted videoId n) → w.reports.length = w.completed
  behind : ∀ i videoId n, (q i).phase = .counted videoId n → n = w.completed ∧ w.reports.length + 1 = w.completed
  numbered : ∀ (k : Nat) e, w.reports.reverse[k]? = some e → ∃ videoId, e = event total (k + 1) videoId

namespace Counted
variable {total : Nat}

theorem unique (h : Counted total w q) {i j : Fin workers} (hi : (q i).phase.inside = true) (hj : (q j).phase.inside = true) : i = j :=
  Fin.ext (Option.some.inj ((h.inside i hi).symm.trans (h.inside j hj)))

/-- Where nobody else is inside the lock, only what the worker does there matters. -/
theorem alone (h : Counted total w q) (hq : q i = t) (hi : t.phase.inside = true ∨ w.locked = none)
    (hcount : w'.submitted.length + t.phase.pending.toNat + w.completed = w.submitted.length + t'.phase.pending.toNat + w'.completed)
    (hinside : t'.phase.inside = true → w'.locked = some i.val)
    (hlevel : (∀ videoId n, t'.phase ≠ .counted videoId n) → w'.reports.length = w'.completed)
    (hbehind : ∀ videoId n, t'.phase = .counted videoId n → n = w'.completed ∧ w'.reports.length + 1 = w'.completed)
    (hnumbered : ∀ (k : Nat) e, w'.reports.reverse[k]? = some e → ∃ videoId, e = event total (k + 1) videoId) :
    Counted total w' (Function.update q i t') := by
  subst hq
  have hout : ∀ j, j ≠ i → (q j).phase.inside = false := by
    intro j hj
    by_contra hin
    have hin : (q j).phase.inside = true := by simpa using hin
    rcases hi with hi | hi
    · exact hj (h.unique hin hi)
    · rw [h.inside j hin] at hi
      cases hi
  refine ⟨?_, fun j hj => ?_, fun hnone => ?_, fun j videoId n hj => ?_, hnumbered⟩
  · have htally := tally_update (fun t : Turn => t.phase.pending) q i t'
    have hcounted := h.counted
    unfold pending at hcounted ⊢
    omega
  · by_cases hji : j = i
    · subst hji
      exact hinside (by rwa [Function.update_self] at hj)
    · rw [Function.update_of_ne hji, hout j hji] at hj
      cases hj
  · refine hlevel fun videoId n => ?_
    simpa using hnone i videoId n
  · by_cases hji : j = i
    · subst hji
      exact hbehind videoId n (by rwa [Function.update_self] at hj)
    · rw [Function.update_of_ne hji] at hj
      have hin := hout j hji
      rw [hj] at hin
      cases hin

/-- Outside the lock a worker only adds to what is pending. -/
theorem outside (h : Counted total w q) (hq : q i = t) (ht : t.phase.inside = false) (ht' : t'.phase.inside = false)
    (hcount : w'.submitted.length + t.phase.pending.toNat = w.submitted.length + t'.phase.pending.toNat)
    (hlocked : w'.locked = w.locked) (hcompleted : w'.completed = w.completed) (hreports : w'.reports = w.reports) :
    Counted total w' (Function.update q i t') := by
  subst hq
  have hcounted : ∀ t : Turn, t.phase.inside = false → ∀ videoId n, t.phase ≠ .counted videoId n := by
    intro t ht videoId n hphase
    rw [hphase] at ht
    cases ht
  refine ⟨?_, fun j hj => ?_, fun hnone => ?_, fun j videoId n hj => ?_, ?_⟩
  · have htally := tally_update (fun t : Turn => t.phase.pending) q i t'
    have hcounted := h.counted
    unfold pending at hcounted ⊢
    omega
  · by_cases hji : j = i
    · subst hji
      rw [Function.update_self, ht'] at hj
      cases hj
    · rw [Function.update_of_ne hji] at hj
      rw [hlocked]
      exact h.inside j hj
  · rw [hreports, hcompleted]
    refine h.level fun j videoId n hj => ?_
    by_cases hji : j = i
    · subst hji
      exact hcounted _ ht videoId n hj
    · refine hnone j videoId n ?_
      rwa [Function.update_of_ne hji]
  · rw [hreports, hcompleted]
    by_cases hji : j = i
    · subst hji
      rw [Function.update_self] at hj
      exact absurd hj (hcounted _ ht' videoId n)
    · rw [Function.update_of_ne hji] at hj
      exact h.behind j videoId n hj
  · rw [hreports]
    exact h.numbered

theorem step (h : Counted total w q) (hq : q i = t) (hgoes : Goes total releaseDates t op r t') (hacts : acts i w op r w') :
    Counted total w' (Function.update q i t') := by
  cases hgoes with
  | empty =>
    rcases hacts with ⟨-, -, rfl⟩ | ⟨videoId, rest, -, hr, -⟩
    · exact h.outside hq rfl rfl rfl rfl rfl rfl
    · cases hr
  | take videoId =>
    rcases hacts with ⟨-, hr, -⟩ | ⟨_, rest, -, hr, rfl⟩
    · cases hr
    · exact h.outside hq rfl rfl rfl rfl rfl rfl
  | acquire =>
    obtain ⟨-, rfl⟩ := hacts
    exact h.outside hq rfl rfl rfl rfl rfl rfl
  | queueMissing r =>
    obtain ⟨-, rfl⟩ := hacts
    exact h.outside hq rfl rfl (by simp [Phase.pending]) rfl rfl rfl
  | release =>
    obtain ⟨-, rfl⟩ := hacts
    exact h.outside hq rfl rfl rfl rfl rfl rfl
  | store =>
    obtain ⟨-, rfl⟩ := hacts
    exact h.outside hq rfl rfl rfl rfl rfl rfl
  | lock =>
    obtain ⟨-, hlocked, rfl⟩ := hacts
    refine h.alone hq (.inr hlocked) rfl (fun _ => rfl) (fun _ => h.level fun j videoId n hj => ?_) (fun _ _ hphase => ?_) h.numbered
    · -- who is counted is inside, and the lock is free
      have hin := h.inside j (by rw [hj]; rfl)
      rw [hlocked] at hin
      cases hin
    · cases hphase
  | count completed =>
    obtain ⟨hr, rfl⟩ := hacts
    cases hr
    have hin : (q i).phase.inside = true := by rw [hq]; rfl
    refine h.alone hq (.inl rfl) ?_ (fun _ => h.inside i hin) (fun hphase => ?_) (fun videoId n hphase => ?_) h.numbered
    · simp [Phase.pending]
      omega
    · exact absurd rfl (hphase _ _)
    · obtain ⟨rfl, rfl⟩ := Phase.counted.inj hphase
      refine ⟨rfl, congrArg (· + 1) (h.level fun j videoId n hj => ?_)⟩
      obtain rfl := h.unique hin (j := j) (by rw [hj]; rfl)
      rw [hq] at hj
      cases hj
  | progress r hr =>
    obtain ⟨-, rfl⟩ := hacts
    have hin : (q i).phase.inside = true := by rw [hq]; rfl
    obtain ⟨rfl, hreports⟩ := h.behind i _ _ (by rw [hq])
    refine h.alone hq (.inl rfl) rfl (fun _ => h.inside i hin) (fun _ => hreports) (fun _ _ hphase => ?_) fun k e he => ?_
    · cases hphase
    · -- the reports so far are numbered, and the new one is the next
      rw [List.reverse_cons] at he
      rcases Nat.lt_trichotomy k w.reports.length with hk | hk | hk
      · rw [List.getElem?_append_left (by simpa using hk)] at he
        exact h.numbered k e he
      · rw [hk, List.getElem?_append_right (by simp)] at he
        simp at he
        subst he
        exact ⟨_, by rw [hk, hreports]⟩
      · rw [List.getElem?_eq_none (by simp; omega)] at he
        cases he
  | unlock =>
    obtain ⟨-, rfl⟩ := hacts
    have hin : (q i).phase.inside = true := by rw [hq]; rfl
    refine h.alone hq (.inl rfl) rfl (fun hphase => ?_) (fun _ => h.level fun j videoId n hj => ?_) (fun _ _ hphase => ?_) h.numbered
    · cases hphase
    · obtain rfl := h.unique hin (j := j) (by rw [hj]; rfl)
      rw [hq] at hj
      cases hj
    · cases hphase

end Counted

/-! ### What is kept -/

theorem get_put (results : List Submitted) (result : Submitted) (videoId : String) :
    get (put results result) videoId = if result.1 = videoId then some result else get results videoId := by
  unfold get put
  by_cases hid : result.1 = videoId
  · simp [hid]
  · rw [List.find?_cons_of_neg (by simpa using hid), if_neg hid, List.find?_filter]
    congr 1
    funext r
    by_cases hr : r.1 = videoId
    · simp [hr, Ne.symm hid]
    · simp [hr]

/-- The answer of every hand-over is with the worker that got it, or the results have an answer for its id. -/
structure Kept (w : World) (q : Fin workers → Turn) : Prop where
  held : ∀ i result, (q i).phase = .handedOver result → result ∈ w.submitted
  results : ∀ videoId result, get w.results videoId = some result → result ∈ w.submitted ∧ result.1 = videoId
  kept : ∀ s ∈ w.submitted, (∃ i, (q i).phase = .handedOver s) ∨ (get w.results s.1).isSome = true

namespace Kept

/-- A worker that has no answer, and still has none. -/
theorem pass (h : Kept w q) (hq : q i = t) (ht : ∀ result, t.phase ≠ .handedOver result)
    (ht' : ∀ result, t'.phase ≠ .handedOver result) (hsubmitted : w'.submitted = w.submitted) (hresults : w'.results = w.results) :
    Kept w' (Function.update q i t') := by
  subst hq
  obtain ⟨hheld, hget, hkept⟩ := h
  rw [← hsubmitted] at hheld hget hkept
  rw [← hresults] at hget hkept
  refine ⟨fun j result hj => ?_, hget, fun s hs => (hkept s hs).imp_left ?_⟩
  · by_cases hji : j = i
    · subst hji
      rw [Function.update_self] at hj
      exact absurd hj (ht' result)
    · rw [Function.update_of_ne hji] at hj
      exact hheld j result hj
  · rintro ⟨j, hj⟩
    refine ⟨j, ?_⟩
    rw [Function.update_of_ne]
    · exact hj
    · rintro rfl
      exact ht s hj

theorem step {total : Nat} (h : Kept w q) (hq : q i = t) (hgoes : Goes total releaseDates t op r t') (hacts : acts i w op r w') :
    Kept w' (Function.update q i t') := by
  cases hgoes with
  | empty =>
    rcases hacts with ⟨-, -, rfl⟩ | ⟨videoId, rest, -, hr, -⟩
    · exact h.pass hq (by simp) (by simp) rfl rfl
    · cases hr
  | take videoId =>
    rcases hacts with ⟨-, hr, -⟩ | ⟨_, rest, -, hr, rfl⟩
    · cases hr
    · exact h.pass hq (by simp) (by simp) rfl rfl
  | acquire =>
    obtain ⟨-, rfl⟩ := hacts
    exact h.pass hq (by simp) (by simp) rfl rfl
  | @queueMissing n videoId r =>
    obtain ⟨-, rfl⟩ := hacts
    refine ⟨fun j result hj => ?_, fun videoId' result hget => ?_, fun s hs => ?_⟩
    · by_cases hji : j = i
      · subst hji
        rw [Function.update_self] at hj
        obtain rfl := Phase.handedOver.inj hj
        simp
      · rw [Function.update_of_ne hji] at hj
        exact List.mem_append_left _ (h.held j result hj)
    · exact (h.results videoId' result hget).imp_left fun hmem => List.mem_append_left _ hmem
    · rcases List.mem_append.1 hs with hs | hs
      · refine (h.kept s hs).imp_left ?_
        rintro ⟨j, hj⟩
        refine ⟨j, ?_⟩
        rw [Function.update_of_ne]
        · exact hj
        · rintro rfl
          rw [hq] at hj
          cases hj
      · obtain rfl := List.mem_singleton.1 hs
        exact .inl ⟨i, by rw [Function.update_self]⟩
  | release =>
    obtain ⟨-, rfl⟩ := hacts
    rw [← hq, Function.update_eq_self]
    exact h
  | @store n result =>
    obtain ⟨-, rfl⟩ := hacts
    have hresult : result ∈ w.submitted := h.held i result (by rw [hq])
    refine ⟨fun j r hj => ?_, fun videoId r hget => ?_, fun s hs => ?_⟩
    · by_cases hji : j = i
      · subst hji
        rw [Function.update_self] at hj
        cases hj
      · rw [Function.update_of_ne hji] at hj
        exact h.held j r hj
    · rw [get_put] at hget
      split at hget
      · rename_i hid
        obtain rfl := Option.some.inj hget
        exact ⟨hresult, hid⟩
      · exact h.results videoId r hget
    · change _ ∨ (get (put w.results result) s.1).isSome = true
      rw [get_put]
      by_cases hid : result.1 = s.1
      · exact .inr (by rw [if_pos hid]; rfl)
      · rw [if_neg hid]
        -- this worker held the result that is stored now, so another one holds it
        refine (h.kept s hs).imp_left ?_
        rintro ⟨j, hj⟩
        refine ⟨j, ?_⟩
        rw [Function.update_of_ne]
        · exact hj
        · rintro rfl
          rw [hq] at hj
          obtain rfl := Phase.handedOver.inj hj
          exact hid rfl
  | lock =>
    obtain ⟨-, -, rfl⟩ := hacts
    exact h.pass hq (by simp) (by simp) rfl rfl
  | count completed =>
    obtain ⟨-, rfl⟩ := hacts
    exact h.pass hq (by simp) (by simp) rfl rfl
  | progress r hr =>
    obtain ⟨-, rfl⟩ := hacts
    exact h.pass hq (by simp) (by simp) rfl rfl
  | unlock =>
    obtain ⟨-, rfl⟩ := hacts
    exact h.pass hq (by simp) (by simp) rfl rfl

end Kept

/-! ## The hand-over as a whole -/

/-- What holds whatever turns the workers have taken. -/
structure Inv (videoIds : List String) (w : World) (q : Fin workers → Turn) : Prop where
  once : Once videoIds w q
  counted : Counted videoIds.length w q
  kept : Kept w q

theorem Inv.step {s : World} (h : Inv videoIds s q) (hasks : Asks videoIds.length releaseDates (q i) op) (hacts : acts i s op r w') :
    ∃ t', Goes videoIds.length releaseDates (q i) op r t' ∧ Inv videoIds w' (Function.update q i t') := by
  obtain ⟨t', hgoes⟩ := exists_goes (h.once.rounds i) hasks hacts
  exact ⟨t', hgoes, h.once.step rfl hgoes hacts, h.counted.step rfl hgoes hacts, h.kept.step rfl hgoes hacts⟩

/-- Every action is heard as it is answered, and a report that raises is among the failures. -/
theorem hears_of_acts {heard : Fin workers → Heard} (hinv : ∀ i e raised, heard i = some (e, raised) → (↑i, e, raised) ∈ w.failures)
    (hacts : acts i w op r w') :
    ∃ heard', Hears (heard i) op r heard' ∧
      ∀ j e raised, Function.update heard i heard' j = some (e, raised) → (↑j, e, raised) ∈ w'.failures := by
  have hkeep : w'.failures = w.failures → ∀ j e raised, Function.update heard i (heard i) j = some (e, raised) → (↑j, e, raised) ∈ w'.failures := by
    intro hsame j e raised hj
    rw [Function.update_eq_self] at hj
    exact hsame ▸ hinv j e raised hj
  cases op with
  | getNowait =>
    rcases hacts with ⟨-, rfl, rfl⟩ | ⟨videoId, rest, -, rfl, rfl⟩
    · exact ⟨_, .ok _, hkeep rfl⟩
    · exact ⟨_, .ok _, hkeep rfl⟩
  | queueMissing videoId releaseDate =>
    obtain ⟨-, rfl⟩ := hacts
    cases r with
    | ok outcome => exact ⟨_, .ok _, hkeep rfl⟩
    | error raised => exact ⟨_, .refused raised, hkeep rfl⟩
  | progress e =>
    obtain ⟨-, rfl⟩ := hacts
    cases r with
    | ok a => exact ⟨_, .ok a, hkeep rfl⟩
    | error raised =>
      refine ⟨_, .report e raised, fun j e' raised' hj => ?_⟩
      by_cases hji : j = i
      · subst hji
        rw [Function.update_self] at hj
        obtain ⟨rfl, rfl⟩ := Prod.mk.inj (Option.some.inj hj)
        exact List.mem_cons_self
      · rw [Function.update_of_ne hji] at hj
        exact List.mem_cons_of_mem _ (hinv j e' raised' hj)
  | lock =>
    obtain ⟨rfl, -, rfl⟩ := hacts
    exact ⟨_, .ok _, hkeep rfl⟩
  | acquire | release | store | unlock | count =>
    obtain ⟨rfl, rfl⟩ := hacts
    exact ⟨_, .ok _, hkeep rfl⟩

variable {magnetConcurrency : Nat}

abbrev Workers (magnetConcurrency : Nat) (videoIds : List String) : Type :=
  Pool Res Raised Unit World (Fin (workerCount magnetConcurrency videoIds))

/-- The workers, after some turns. -/
def Reached (magnetConcurrency : Nat) (videoIds : List String) (releaseDates : List (String × Date))
    (c : Workers magnetConcurrency videoIds) : Prop :=
  Pool.Reach acts (started magnetConcurrency videoIds releaseDates) c

theorem Reached.inv {c : Workers magnetConcurrency videoIds} (h : Reached magnetConcurrency videoIds releaseDates c) :
    ∃ q, Inv videoIds c.world q ∧ ∀ i, (c.prog i).wp (Goes videoIds.length releaseDates) (Asks videoIds.length releaseDates)
      (fun _ t => t.phase = .ended) (fun e t => e = none → t = ⟨.idle, 0⟩) (q i) := by
  have hstart : Inv videoIds (started magnetConcurrency videoIds releaseDates).world
      fun _ : Fin (workerCount magnetConcurrency videoIds) => ⟨.idle, videoIds.length + 1⟩ := by
    have hzero : ∀ P : Turn → Bool, P ⟨.idle, videoIds.length + 1⟩ = false →
        tally P (fun _ : Fin (workerCount magnetConcurrency videoIds) => (⟨.idle, videoIds.length + 1⟩ : Turn)) = 0 :=
      fun P hP => tally_eq_zero.2 fun _ => hP
    refine ⟨⟨fun videoId => ?_, fun i => ?_, ?_⟩, ⟨?_, ?_, ?_, ?_, ?_⟩, ⟨?_, ?_, ?_⟩⟩
    · rw [holding, hzero _ rfl]
      rfl
    · exact Nat.lt_succ_self _
    · rintro i ⟨⟩
    · rw [pending, hzero _ rfl]
      rfl
    · rintro i ⟨⟩
    · exact fun _ => rfl
    · rintro i videoId n ⟨⟩
    · rintro k e ⟨⟩
    · rintro i result ⟨⟩
    · rintro videoId result ⟨⟩
    · rintro s ⟨⟩
  exact Pool.reach_inv_ends (fun _ => Goes videoIds.length releaseDates) (fun _ => Asks videoIds.length releaseDates) (Inv videoIds)
    (fun _ _ t => t.phase = .ended) (fun _ e t => e = none → t = ⟨.idle, 0⟩)
    (fun s q i op r s' hinv hasks hacts => hinv.step hasks hacts) hstart (fun i => wp_worker _) h

namespace Reached
variable {c : Workers magnetConcurrency videoIds}

/-- Only what is listed is handed over, and no more often than it is listed. -/
theorem at_most_once (h : Reached magnetConcurrency videoIds releaseDates c) : (c.world.submitted.map (·.1)).Subperm videoIds := by
  obtain ⟨q, hinv, -⟩ := h.inv
  refine List.subperm_iff_count.2 fun videoId => ?_
  have := hinv.once.once videoId
  omega

theorem submitted_length_le (h : Reached magnetConcurrency videoIds releaseDates c) : c.world.submitted.length ≤ videoIds.length := by
  simpa using h.at_most_once.length_le

/-- The reports count from one, and never past the number of ids. -/
theorem reports_numbered (h : Reached magnetConcurrency videoIds releaseDates c) :
    c.world.reports.length ≤ videoIds.length ∧
      ∀ (k : Nat) e, c.world.reports.reverse[k]? = some e → ∃ videoId, e = event videoIds.length (k + 1) videoId := by
  obtain ⟨q, hinv, -⟩ := h.inv
  refine ⟨?_, hinv.counted.numbered⟩
  have hsubmitted := h.submitted_length_le
  have hcounted := hinv.counted.counted
  by_cases hlevel : ∀ i videoId n, (q i).phase ≠ .counted videoId n
  · have := hinv.counted.level hlevel
    omega
  · push Not at hlevel
    obtain ⟨i, videoId, n, hphase⟩ := hlevel
    have := (hinv.counted.behind i videoId n hphase).2
    omega

/-- The rounds are enough. -/
theorem prog_ne_raise_none (h : Reached magnetConcurrency videoIds releaseDates c) (i) : c.prog i ≠ .raise none := by
  intro hraise
  obtain ⟨q, hinv, hprog⟩ := h.inv
  have hwp := hprog i
  rw [hraise] at hwp
  have hrounds := hinv.once.rounds i
  rw [hwp rfl] at hrounds
  exact Nat.not_lt_zero _ hrounds

/-- Whatever a worker raises, the callback has raised at a report of its own. -/
theorem raises_failed (h : Reached magnetConcurrency videoIds releaseDates c) {i} {raised : Raised}
    (hraise : c.prog i = .raise raised) : ∃ e, (↑i, e, raised) ∈ c.world.failures := by
  have hnothing : ∀ (i : Fin (workerCount magnetConcurrency videoIds)) e raised, (none : Heard) = some (e, raised) →
      (↑i, e, raised) ∈ (started magnetConcurrency videoIds releaseDates).world.failures := by
    intro _ _ _ hheard
    cases hheard
  obtain ⟨heard, hfailures, hprog⟩ := Pool.reach_inv_ends (fun _ => Hears) (fun _ _ _ => True)
    (fun (w : World) (heard : Fin (workerCount magnetConcurrency videoIds) → Heard) =>
      ∀ i e raised, heard i = some (e, raised) → (↑i, e, raised) ∈ w.failures) (fun _ _ _ => True)
    (fun _ raised heard => raised = none ∨ ∃ e, heard = some (e, raised)) (fun _ _ _ _ _ _ hinv _ hacts => hears_of_acts hinv hacts)
    hnothing (fun _ => worker_raises _) h
  have hwp := hprog i
  rw [hraise] at hwp
  rcases hwp with rfl | ⟨e, he⟩
  · exact absurd hraise (h.prog_ne_raise_none i)
  · exact ⟨e, hfailures i e raised he⟩

/-- Once every worker has returned, nothing is left anywhere. -/
theorem ended (hconcurrency : 0 < magnetConcurrency) (h : Reached magnetConcurrency videoIds releaseDates c)
    (hreturned : ∀ i, (c.prog i).result = some ()) :
    ∃ q : Fin (workerCount magnetConcurrency videoIds) → Turn,
      Inv videoIds c.world q ∧ c.world.queue = [] ∧ ∀ i, (q i).phase = .ended := by
  obtain ⟨q, hinv, hprog⟩ := h.inv
  have hover : ∀ i, (q i).phase = .ended := by
    intro i
    have hwp := hprog i
    rw [Prog.result_eq_some.1 (hreturned i)] at hwp
    exact hwp
  refine ⟨q, hinv, ?_, hover⟩
  cases videoIds with
  | nil =>
    have hempty := hinv.once.once
    refine List.eq_nil_iff_forall_not_mem.2 fun videoId hmem => ?_
    have hcount := hempty videoId
    have hpos := List.count_pos_iff.2 hmem
    simp at hcount
    omega
  | cons videoId rest =>
    have hpos : 0 < workerCount magnetConcurrency (videoId :: rest) := by
      simp [workerCount, hconcurrency]
    exact hinv.once.drained ⟨0, hpos⟩ (hover _)

/-- Once every worker has returned, everything listed has been handed over as often as it is listed, and counted. -/
theorem all_submitted (hconcurrency : 0 < magnetConcurrency) (h : Reached magnetConcurrency videoIds releaseDates c)
    (hreturned : ∀ i, (c.prog i).result = some ()) :
    (c.world.submitted.map (·.1)).Perm videoIds ∧ c.world.reports.length = videoIds.length := by
  obtain ⟨q, hinv, hqueue, hover⟩ := h.ended hconcurrency hreturned
  have hzero : ∀ P : Phase → Bool, P .ended = false → tally (fun t : Turn => P t.phase) q = 0 := by
    intro P hP
    refine tally_eq_zero.2 fun i => ?_
    rw [hover i, hP]
  have hperm : (c.world.submitted.map (·.1)).Perm videoIds := by
    refine List.perm_iff_count.2 fun videoId => ?_
    have hcount := hinv.once.once videoId
    rw [hqueue, holding, hzero _ rfl] at hcount
    simpa using hcount
  refine ⟨hperm, ?_⟩
  have hlength : c.world.submitted.length = videoIds.length := by simpa using hperm.length_eq
  have hcounted := hinv.counted.counted
  rw [pending, hzero _ rfl] at hcounted
  have hlevel := hinv.counted.level fun i videoId n hphase => by
    rw [hover i] at hphase
    cases hphase
  omega

theorem gathered_of {ids : List String} {results : List Submitted} {P : Submitted → Prop}
    (h : ∀ videoId ∈ ids, ∃ r, get results videoId = some r ∧ r.1 = videoId ∧ P r) :
    ∃ rs, gathered ids results = some rs ∧ rs.map (·.1) = ids ∧ ∀ r ∈ rs, P r := by
  unfold gathered
  induction ids with
  | nil => exact ⟨[], rfl, rfl, by simp⟩
  | cons videoId ids ih =>
    obtain ⟨r, hget, hid, hr⟩ := h videoId (by simp)
    obtain ⟨rs, hrest, hids, hrs⟩ := ih fun id hmem => h id (by simp [hmem])
    refine ⟨r :: rs, by simp [hget, hrest], by simp [hid, hids], fun x hx => ?_⟩
    rcases List.mem_cons.1 hx with rfl | hx
    · exact hr
    · exact hrs x hx

/-- What is returned: an answer for each id, in the ids' order, each of them an answer that id got. -/
theorem gathered_eq (hconcurrency : 0 < magnetConcurrency) (h : Reached magnetConcurrency videoIds releaseDates c)
    (hreturned : ∀ i, (c.prog i).result = some ()) :
    ∃ results, gathered videoIds c.world.results = some results ∧ results.map (·.1) = videoIds ∧
      ∀ s ∈ results, s ∈ c.world.submitted := by
  obtain ⟨q, hinv, -, hover⟩ := h.ended hconcurrency hreturned
  have hperm := (h.all_submitted hconcurrency hreturned).1
  refine gathered_of fun videoId hid => ?_
  obtain ⟨s, hs, rfl⟩ := List.mem_map.1 (hperm.mem_iff.2 hid)
  rcases hinv.kept.kept s hs with ⟨i, hphase⟩ | hsome
  · rw [hover i] at hphase
    cases hphase
  · obtain ⟨r, hget⟩ := Option.isSome_iff_exists.1 hsome
    obtain ⟨hr, hrid⟩ := hinv.kept.results _ r hget
    exact ⟨r, hget, hrid, hr⟩

/-- Whatever turns the workers take, nothing is handed over more often than it is listed, the reports
count one by one, and a worker raises what a report of its own was answered; once all have returned, everything has been handed over and the answers line up with the ids. -/
theorem handed_over (hconcurrency : 0 < magnetConcurrency) (h : Reached magnetConcurrency videoIds releaseDates c) :
    (c.world.submitted.map (·.1)).Subperm videoIds ∧
      (∀ (k : Nat) e, c.world.reports.reverse[k]? = some e →
        k < videoIds.length ∧ ∃ videoId, e = event videoIds.length (k + 1) videoId) ∧
      (∀ i raised, c.prog i = .raise raised → raised ≠ none ∧ ∃ e, (↑i, e, raised) ∈ c.world.failures) ∧
      ((∀ i, (c.prog i).result = some ()) →
        (c.world.submitted.map (·.1)).Perm videoIds ∧ c.world.reports.length = videoIds.length ∧
          ∃ results, gathered videoIds c.world.results = some results ∧ results.map (·.1) = videoIds ∧
            ∀ s ∈ results, s ∈ c.world.submitted) := by
  refine ⟨h.at_most_once, fun k e he => ⟨?_, h.reports_numbered.2 k e he⟩, fun i raised hraise => ⟨?_, h.raises_failed hraise⟩, fun hreturned => ?_⟩
  · have hk : k < c.world.reports.reverse.length := (List.getElem?_eq_some_iff.1 he).1
    have := h.reports_numbered.1
    rw [List.length_reverse] at hk
    omega
  · rintro rfl
    exact h.prog_ne_raise_none i hraise
  · obtain ⟨hperm, hreports⟩ := h.all_submitted hconcurrency hreturned
    exact ⟨hperm, hreports, h.gathered_eq hconcurrency hreturned⟩

end Reached

/-! ### The rows of the plan -/

/-- What a hand-over came to, as its row shows it. -/
def Shows (v : VideoPlan) (s : Submitted) : Prop := v.state = s.2.1.state ∧ v.warnings = s.2.2.toList

theorem foldl_withOutcome_keeps {s : Submitted} {results : List Submitted} (hnone : ∀ x ∈ results, x.1 ≠ s.1) {videos : List VideoPlan}
    (h : ∀ v ∈ videos, v.videoId = s.1 → Shows v s) : ∀ v ∈ results.foldl withOutcome videos, v.videoId = s.1 → Shows v s := by
  induction results generalizing videos with
  | nil => exact h
  | cons x results ih =>
    refine ih (fun y hy => hnone y (List.mem_cons_of_mem x hy)) fun v hv hid => ?_
    obtain ⟨v₀, hv₀, rfl⟩ := List.mem_map.1 hv
    by_cases hx : v₀.videoId = x.1
    · rw [if_pos hx] at hid
      exact absurd (hx.symm.trans hid) (hnone x List.mem_cons_self)
    · rw [if_neg hx] at hid ⊢
      exact h v₀ hv₀ hid

theorem foldl_withOutcome_shows {results : List Submitted} (hids : (results.map (·.1)).Nodup) {s : Submitted} (hs : s ∈ results)
    (videos : List VideoPlan) : ∀ v ∈ results.foldl withOutcome videos, v.videoId = s.1 → Shows v s := by
  induction results generalizing videos with
  | nil => cases hs
  | cons x results ih =>
    rw [List.map_cons, List.nodup_cons] at hids
    rcases List.mem_cons.1 hs with rfl | hs
    · refine foldl_withOutcome_keeps (fun y hy hsame => hids.1 (hsame ▸ List.mem_map_of_mem hy)) fun v hv hid => ?_
      obtain ⟨v₀, -, rfl⟩ := List.mem_map.1 hv
      by_cases hx : v₀.videoId = s.1
      · rw [if_pos hx]
        exact ⟨rfl, rfl⟩
      · rw [if_neg hx] at hid
        exact absurd hid hx
    · exact ih hids.2 hs (withOutcome videos x)

/-- Where no id is missing twice, every missing video's row shows what its own hand-over came to. -/
theorem Reached.rows {c : Workers magnetConcurrency videoIds} (hconcurrency : 0 < magnetConcurrency) (hids : videoIds.Nodup)
    (h : Reached magnetConcurrency videoIds releaseDates c) (hreturned : ∀ i, (c.prog i).result = some ()) :
    ∃ results, gathered videoIds c.world.results = some results ∧
      ∀ videos, ∀ v ∈ results.foldl withOutcome videos, ∀ s ∈ c.world.submitted, v.videoId = s.1 → Shows v s := by
  obtain ⟨results, hresults, hlined, hmem⟩ := h.gathered_eq hconcurrency hreturned
  refine ⟨results, hresults, fun videos v hv s hs => ?_⟩
  have hperm := (h.all_submitted hconcurrency hreturned).1
  -- an id that is handed over once has one answer
  have hs : s ∈ results := by
    obtain ⟨s', hs', hsame⟩ := List.mem_map.1 (hlined.symm ▸ hperm.mem_iff.1 (List.mem_map_of_mem hs))
    rwa [← List.inj_on_of_nodup_map (hperm.nodup_iff.2 hids) (hmem s' hs') hs hsame]
  exact foldl_withOutcome_shows (hlined.symm ▸ hids) hs videos v hv

end run

/-! ## Two workers with three videos -/

section sample

def sampleIds : List String := ["AB-1", "AB-2", "CD-3"]

/-- The gateway raises for one of them. -/
def samplePick (i : Fin (workerCount 2 sampleIds)) (_ : Unit) (w : World) : (op : Op) → Except Raised (Res op) × World
  | .getNowait =>
    match w.queue with
    | [] => (.ok none, w)
    | videoId :: rest => (.ok (some videoId), { w with queue := rest })
  | .acquire | .release => (.ok (), w)
  | .queueMissing videoId _ =>
    let r : Except Raised AcquisitionOutcome := if videoId = "AB-2" then .error (some (.other "RuntimeError")) else .ok .queued
    (r, { w with submitted := w.submitted ++ [answered videoId r] })
  | .store result => (.ok (), { w with results := put w.results result })
  | .lock => (.ok (), { w with locked := some i })
  | .unlock => (.ok (), { w with locked := none })
  | .count => (.ok (w.completed + 1), { w with completed := w.completed + 1 })
  | .progress e => (.ok (), { w with reports := e :: w.reports, failures := failed i e (.ok ()) ++ w.failures })

/-- The lock is only taken when it is free. -/
def sampleFree (_ : Fin (workerCount 2 sampleIds)) (w : World) (op : Op) (_ : Except Raised (Res op)) (_ : World) : Bool :=
  match op with
  | .lock => w.locked.isNone
  | _ => true

def sampleFirst : Fin (workerCount 2 sampleIds) := ⟨0, by decide⟩

def sampleSecond : Fin (workerCount 2 sampleIds) := ⟨1, by decide⟩

/-- The two take turns until each has an answer, and count one after the other; the first one then takes
what is left. -/
def sampleTurns : List (Fin (workerCount 2 sampleIds) × Unit) :=
  ((List.replicate 5 [sampleFirst, sampleSecond]).flatten ++ List.replicate 4 sampleSecond ++ List.replicate 14 sampleFirst ++
    [sampleSecond]).map fun i => (i, ())

def sampleEnd : Workers 2 sampleIds := sampleTurns.foldl (Pool.turn samplePick) (started 2 sampleIds [])

theorem sampleReached : Reached 2 sampleIds [] sampleEnd := by
  refine Pool.reach_turnsOk sampleFree ?_ (by decide)
  intro i t w op hfree
  cases op with
  | getNowait =>
    unfold samplePick
    cases hqueue : w.queue with
    | nil => exact .inl ⟨hqueue, rfl, rfl⟩
    | cons videoId rest => exact .inr ⟨videoId, rest, hqueue, rfl, rfl⟩
  | queueMissing videoId releaseDate =>
    refine ⟨?_, rfl⟩
    change (if videoId = "AB-2" then (.error (some (.other "RuntimeError")) : Except Raised AcquisitionOutcome) else .ok .queued) ≠ .error none
    split <;> simp
  | lock => exact ⟨rfl, by simpa [sampleFree] using hfree, rfl⟩
  | progress e => exact ⟨by simp [samplePick], rfl⟩
  | acquire => exact ⟨rfl, rfl⟩
  | release => exact ⟨rfl, rfl⟩
  | store result => exact ⟨rfl, rfl⟩
  | unlock => exact ⟨rfl, rfl⟩
  | count => exact ⟨rfl, rfl⟩

theorem sample_returned : ∀ i, (sampleEnd.prog i).result = some () := by decide

theorem sample_handed_over : sampleEnd.world.submitted.map (·.1) = ["AB-1", "AB-2", "CD-3"] ∧
    ∃ results, gathered sampleIds sampleEnd.world.results = some results ∧ results.map (·.1) = sampleIds := by
  obtain ⟨-, -, -, hreturned⟩ := sampleReached.handed_over (by decide)
  obtain ⟨-, -, results, hgathered, hids, -⟩ := hreturned sample_returned
  exact ⟨by decide, results, hgathered, hids⟩

theorem sample_rows : ∃ results, gathered sampleIds sampleEnd.world.results = some results ∧
    ∀ videos, ∀ v ∈ results.foldl withOutcome videos, ∀ s ∈ sampleEnd.world.submitted, v.videoId = s.1 → Shows v s :=
  sampleReached.rows (by decide) (by decide) sample_returned

end sample

end EmbyxManager.FillActor.Scan.Queueing
