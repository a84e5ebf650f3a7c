import EmbyxManager.FillActor.Postgres
import Mathlib.Logic.Relation
/-!
# Who may write a job

Any number of job managers, each under an owner id of its own and with a clock of
its own, call one repository in any order. `Change` says what a single call can
do to a single job; the rest of the module is about runs and only uses that.
-/

namespace EmbyxManager.FillActor

open Atom (Table)

/-! ## The calls of a manager -/

inductive JobCall where
  /-- `enqueue_job`. -/
  | enqueue (record : JobRecord)
  /-- `enqueue_apply_job`. -/
  | enqueueApply (record : ApplyJobRecord)
  /-- `claim_next_job`; other transactions hold locks on some rows. -/
  | claim (leaseExpiresAt : Time) (locked : String → Bool)
  /-- `renew_owned_job_lease`. -/
  | renew (jobId : String) (leaseExpiresAt : Time)
  /-- `update_owned_job_progress`. -/
  | report (jobId : String) (progress : JobProgress)
  /-- `finish_owned_job`. -/
  | finish (jobId : String) (state : JobState) (errorCode : Option String) (progress : JobProgress)
      (applyResult : Option ApplyResult)
  /-- `cancel_job`. -/
  | cancel (jobId : String)
  /-- `fail_expired_jobs`. -/
  | failExpired (errorCode : String)

inductive Answer where
  | enqueued (admitted : Bool)
  | enqueuedApply (result : EnqueueApplyJobResult)
  | claimed (job : Option JobRecord)
  | written (owned : Bool)
  | cancelled (result : CancelJobResult)
  | failed (count : Nat)
  | raised (e : RepositoryError)

/-- The job of a write that only its owner may make. -/
def JobCall.ownedJob : JobCall → Option String
  | .renew jobId _ => some jobId
  | .report jobId _ => some jobId
  | .finish jobId _ _ _ _ => some jobId
  | _ => none

/-- The job a call may add. -/
def JobCall.admits : JobCall → Option String
  | .enqueue record => some record.jobId
  | .enqueueApply record => some record.job.jobId
  | _ => none

/-- A job as `start_plan` and `start_apply` build it. -/
structure JobRecord.Fresh (j : JobRecord) : Prop where
  queued : j.state = .queued
  unowned : j.ownerId = none
  unleased : j.leaseExpiresAt = none

/-- The job `start_plan` enqueues. -/
def planJob (planId : String) (actorIds : List String) (now : Time) : JobRecord :=
  ⟨planId, .createPlan, .queued, now, now, some planId, none, none, none, actorIds,
    ⟨.queued, 0, some actorIds.length, .actors, none, now, now, by simp⟩⟩

/-- The job `start_apply` enqueues. -/
def applyJob (requestId planId : String) (candidateIds : List String) (now : Time) : JobRecord :=
  ⟨requestId, .apply, .queued, now, now, some planId, none, none, none, [],
    ⟨.queued, 0, some candidateIds.length, .items, none, now, now, by simp⟩⟩

theorem started_fresh (requestId planId : String) (actorIds candidateIds : List String) (now : Time) :
    (planJob planId actorIds now).Fresh ∧ (applyJob requestId planId candidateIds now).Fresh :=
  ⟨⟨rfl, rfl, rfl⟩, rfl, rfl, rfl⟩

/-- What a job manager asks: it admits fresh jobs, and finishes one in a terminal state. -/
def JobCall.Proper : JobCall → Prop
  | .enqueue record => record.Fresh
  | .enqueueApply record => record.job.Fresh
  | .finish _ state _ _ _ => state.active = false
  | _ => True

def Memory.serve (maxActive : Nat) (owner : String) (now : Time) : JobCall → Memory → Answer × Memory
  | .enqueue record, m => (m.enqueueJob record maxActive).map .enqueued id
  | .enqueueApply record, m =>
    match m.enqueueApplyJob record maxActive with
    | (.ok r, m) => (.enqueuedApply r, m)
    | (.error e, m) => (.raised e, m)
  | .claim lease _, m => (m.claimNextJob owner now lease).map .claimed id
  | .renew jobId lease, m => (m.renewOwnedJobLease jobId owner now lease).map .written id
  | .report jobId progress, m => (m.updateOwnedJobProgress jobId owner progress now).map .written id
  | .finish jobId state errorCode progress applyResult, m =>
    match m.finishOwnedJob jobId owner state errorCode now progress applyResult with
    | (.ok r, m) => (.written r, m)
    | (.error e, m) => (.raised e, m)
  | .cancel jobId, m => (m.cancelJob jobId now).map .cancelled id
  | .failExpired errorCode, m => (m.failExpiredJobs now errorCode).map .failed id

/-- The transaction commits, or is rolled back. -/
def Postgres.commit {α : Type} (answer : α → Answer) (s : Postgres) : Except RepositoryError (α × Postgres) → Answer × Postgres
  | .ok (a, s') => (answer a, s')
  | .error e => (.raised e, s)

def Postgres.serve (le : String → String → Bool) (maxActive : Nat) (owner : String) (now : Time) (call : JobCall)
    (s : Postgres) : Answer × Postgres :=
  match call with
  | .enqueue record => s.commit .enqueued (s.enqueueJob record maxActive)
  | .enqueueApply record => s.commit .enqueuedApply (s.enqueueApplyJob record maxActive)
  | .claim lease locked => s.commit .claimed (s.claimNextJob le locked owner now lease)
  | .renew jobId lease => s.commit .written (s.renewOwnedJobLease jobId owner now lease)
  | .report jobId progress => s.commit .written (s.updateOwnedJobProgress jobId owner progress now)
  | .finish jobId state errorCode progress applyResult =>
    s.commit .written (s.finishOwnedJob jobId owner state errorCode now progress applyResult)
  | .cancel jobId => s.commit .cancelled (s.cancelJob jobId now)
  | .failExpired errorCode => s.commit .failed (s.failExpiredJobs now errorCode)

/-- The two implementations of the contract; a database orders texts in its own way. -/
inductive Backend where
  | memory
  | postgres (collation : String → String → Bool)

namespace Backend

def Store : Backend → Type
  | memory => Memory
  | postgres _ => Postgres

def empty : (b : Backend) → b.Store
  | memory => Memory.empty
  | postgres _ => Postgres.empty

def jobs : (b : Backend) → b.Store → JobTable
  | memory => Memory.jobs
  | postgres _ => Postgres.jobs

/-- The stored result of an apply job. -/
def result : (b : Backend) → b.Store → String → Option ApplyResult
  | memory => fun m jobId => (m.applyJobs.find jobId).bind (·.result)
  | postgres _ => fun s jobId => (s.applyJobs.find jobId).bind (·.result)

def serve : (b : Backend) → Nat → String → Time → JobCall → b.Store → Answer × b.Store
  | memory => Memory.serve
  | postgres le => Postgres.serve le

end Backend

/-! ## What a call does to one job -/

/-- A job and its result, before and after a call; `room` says that the cap is not reached. -/
inductive Change (owner : String) (now : Time) (call : JobCall) (room : Prop) (jobId : String) :
    Option JobRecord → Option ApplyResult → Option JobRecord → Option ApplyResult → Prop
  | same {j x} : Change owner now call room jobId j x j x
  | admitted {j x y} (admits : call.admits = some jobId) (spare : room) (fresh : j.Fresh) :
      Change owner now call room jobId none x (some j) y
  | claimed {j x j'} (queued : j.state = .queued) (running : j'.state = .running) (owned : j'.ownerId = some owner)
      (leased : j'.leaseExpiresAt.isSome) : Change owner now call room jobId (some j) x (some j') x
  | held {j x j'} (holds : j.owned owner now) (running : j'.state = .running) (owned : j'.ownerId = some owner)
      (leased : j'.leaseExpiresAt.isSome) : Change owner now call room jobId (some j) x (some j') x
  | ended {j x j' y} (active : j.active) (terminal : j'.active = false) (unowned : j'.ownerId = none)
      (unleased : j'.leaseExpiresAt = none) : Change owner now call room jobId (some j) x (some j') y

theorem owned_iff {owner : String} {now : Time} {j : JobRecord} :
    j.owned owner now = true ↔ j.ownerId = some owner ∧ j.state = .running ∧ ∃ t, j.leaseExpiresAt = some t ∧ now < t := by
  simp [JobRecord.owned, Option.any_eq_true, and_assoc]

theorem active_of_owned {owner : String} {now : Time} {j : JobRecord} (h : j.owned owner now = true) : j.active = true := by
  unfold JobRecord.active
  rw [(owned_iff.1 h).2.1]
  rfl

theorem active_of_expired {now : Time} {j : JobRecord} (h : j.expired now = true) : j.active = true := by
  simp only [JobRecord.expired, Bool.and_eq_true, decide_eq_true_eq] at h
  unfold JobRecord.active
  rw [h.1]
  rfl

/-- The oldest queued job is a queued job of the table. -/
theorem mem_queued {le : String → String → Bool} {t : JobTable} {j : JobRecord} (h : j ∈ t.queued le) :
    t.find j.jobId = some j ∧ j.state = .queued := by
  have := List.mem_filter.1 ((List.mem_insertionSort _).1 h)
  exact ⟨Table.find_eq_some.2 ⟨this.1, rfl⟩, of_decide_eq_true this.2⟩

theorem active_of_queued {j : JobRecord} (h : j.state = .queued) : j.active = true := by
  unfold JobRecord.active
  rw [h]
  rfl

/-- The job has an owner and a lease exactly while it runs. -/
def JobRecord.Leased (j : JobRecord) : Prop :=
  (j.ownerId.isSome ↔ j.state = .running) ∧ (j.leaseExpiresAt.isSome ↔ j.state = .running)

section Changes
variable {owner : String} {now : Time} {call : JobCall} {room : Prop} {jobId : String}
  {o o' : Option JobRecord} {x y : Option ApplyResult} {j j' : JobRecord}

/-- A job that is over stays as it is, and so does its result. -/
theorem Change.final (h : Change owner now call room jobId (some j) x o' y) (hover : j.active = false) :
    o' = some j ∧ y = x := by
  cases h with
  | same => exact ⟨rfl, rfl⟩
  | claimed queued =>
    rw [active_of_queued queued] at hover
    cases hover
  | held holds =>
    rw [active_of_owned holds] at hover
    cases hover
  | ended active =>
    rw [active] at hover
    cases hover

/-- A job that has been handed out does not go back to the queue. -/
theorem Change.begun (h : Change owner now call room jobId (some j) x o' y) (hj : j.state ≠ .queued) :
    ∃ j', o' = some j' ∧ j'.state ≠ .queued := by
  cases h with
  | same => exact ⟨j, rfl, hj⟩
  | claimed queued => exact absurd queued hj
  | held _ running =>
    refine ⟨_, rfl, ?_⟩
    rw [running]
    decide
  | ended _ terminal =>
    refine ⟨_, rfl, fun hq => ?_⟩
    rw [active_of_queued hq] at terminal
    cases terminal

theorem Change.leased (h : Change owner now call room jobId o x (some j') y) (ho : ∀ j, o = some j → j.Leased) :
    j'.Leased := by
  have runs : ∀ {j' : JobRecord}, j'.state = .running → j'.ownerId = some owner → j'.leaseExpiresAt.isSome → j'.Leased := by
    intro j' running owned leased
    simp [JobRecord.Leased, running, owned, leased]
  cases h with
  | same => exact ho j' rfl
  | admitted _ _ fresh => simp [JobRecord.Leased, fresh.queued, fresh.unowned, fresh.unleased]
  | claimed _ running owned leased => exact runs running owned leased
  | held _ running owned leased => exact runs running owned leased
  | ended _ terminal unowned unleased =>
    have hnot : j'.state ≠ .running := by
      intro hr
      simp [JobRecord.active, hr, JobState.active] at terminal
    simp [JobRecord.Leased, unowned, unleased, hnot]

/-- An active job was active, or came in because there was room. -/
theorem Change.active (h : Change owner now call room jobId o x (some j') y) (hactive : j'.active = true) :
    (∃ j, o = some j ∧ j.active = true) ∨ call.admits = some jobId ∧ room := by
  cases h with
  | same => exact .inl ⟨j', rfl, hactive⟩
  | admitted admits spare => exact .inr ⟨admits, spare⟩
  | claimed queued => exact .inl ⟨_, rfl, active_of_queued queued⟩
  | held holds => exact .inl ⟨_, rfl, active_of_owned holds⟩
  | ended active => exact .inl ⟨_, rfl, active⟩

end Changes

section Writes
variable {owner : String} {now : Time} {call : JobCall} {room : Prop} {t : JobTable} {x y : String → Option ApplyResult}

/-- One job is written in place. -/
theorem change_put {j r : JobRecord} (hj : t.find r.jobId = some j) (hxy : ∀ k, k ≠ r.jobId → y k = x k)
    (hc : Change owner now call room r.jobId (some j) (x r.jobId) (some r) (y r.jobId)) (k : String) :
    Change owner now call room k (t.find k) (x k) ((t.put r).find k) (y k) := by
  rw [Table.find_put]
  split
  · rename_i hk
    rw [← hk, hj]
    exact hc
  · rename_i hk
    rw [hxy k (Ne.symm hk)]
    exact .same

/-- A fresh job comes in. -/
theorem change_admitted {r : JobRecord} (hr : t.find r.jobId = none) (hxy : ∀ k, k ≠ r.jobId → y k = x k)
    (hadmits : call.admits = some r.jobId) (hroom : room) (hfresh : r.Fresh) (k : String) :
    Change owner now call room k (t.find k) (x k) ((t.put r).find k) (y k) := by
  rw [Table.find_put]
  split
  · rename_i hk
    rw [← hk, hr]
    exact .admitted hadmits hroom hfresh
  · rename_i hk
    rw [hxy k (Ne.symm hk)]
    exact .same

/-- `UPDATE … WHERE job_id = …`. -/
theorem change_modify {jobId : String} {p : JobRecord → Bool} {f : JobRecord → JobRecord} (hf : ∀ j, (f j).jobId = j.jobId)
    (hxy : ∀ k, k ≠ jobId → y k = x k)
    (hc : ∀ j, t.find jobId = some j → p j = true → Change owner now call room jobId (some j) (x jobId) (some (f j)) (y jobId))
    (hsame : t.matched jobId p = false → y jobId = x jobId) (k : String) :
    Change owner now call room k (t.find k) (x k) ((t.modify jobId p f hf).find k) (y k) := by
  by_cases hk : k = jobId
  · subst hk
    cases hm : t.matched k p with
    | false =>
      rw [Table.find_modify_of_not hm, hsame hm]
      exact .same
    | true =>
      obtain ⟨j, hj, hp⟩ := Table.matched_iff.1 hm
      rw [Table.find_modify, hj]
      simpa [hp] using hc j hj hp
  · have hfind : (t.modify jobId p f hf).find k = t.find k := by
      rw [Table.find_modify]
      cases t.find k <;> simp [hk]
    rw [hfind, hxy k hk]
    exact .same

/-- `UPDATE … WHERE …`. -/
theorem change_update {p : JobRecord → Bool} {f : JobRecord → JobRecord} (hf : ∀ j, (f j).jobId = j.jobId)
    (hc : ∀ k j, p j = true → Change owner now call room k (some j) (x k) (some (f j)) (x k)) (k : String) :
    Change owner now call room k (t.find k) (x k) ((t.update p f hf).find k) (x k) := by
  rw [Table.find_update]
  cases h : t.find k with
  | none => exact .same
  | some j =>
    by_cases hp : p j = true
    · simpa [hp] using hc k j hp
    · simpa [hp] using Change.same

end Writes

/-! ### The memory repository, call by call -/

namespace Memory
variable {maxActive : Nat} {owner : String} {now : Time} (m : Memory) (k : String)

/-- What the call makes of a job and its result is a change it may make. -/
abbrev Changes (maxActive : Nat) (owner : String) (now : Time) (m : Memory) (k : String) (call : JobCall) : Prop :=
  Change owner now call (m.jobs.active < maxActive) k (m.jobs.find k) (Backend.result .memory m k)
    ((m.serve maxActive owner now call).2.jobs.find k)
    (Backend.result .memory (m.serve maxActive owner now call).2 k)

theorem enqueue_change {record : JobRecord} (hp : (JobCall.enqueue record).Proper) :
    Changes maxActive owner now m k (.enqueue record) := by
  simp only [Changes, serve, enqueueJob]
  split
  · exact .same
  · rename_i hadmit
    rw [not_or, Nat.not_le, Option.not_isSome_iff_eq_none] at hadmit
    exact change_admitted hadmit.2 (fun _ _ => rfl) rfl hadmit.1 hp k

theorem enqueueApply_change {record : ApplyJobRecord} (hp : (JobCall.enqueueApply record).Proper) :
    Changes maxActive owner now m k (.enqueueApply record) := by
  simp only [Changes, serve, enqueueApplyJob]
  cases hj : m.jobs.find record.job.jobId with
  | some existingJob =>
    cases hx : m.applyJobs.find record.job.jobId with
    | none => exact .same
    | some existing =>
      dsimp only
      by_cases hsame : existing.job.planId = record.job.planId ∧ existing.revision = record.revision ∧
          existing.candidateIds = record.candidateIds
      · rw [if_pos hsame]
        cases ApplyJobRecord.make existingJob existing.revision existing.candidateIds existing.result <;> exact .same
      · rw [if_neg hsame]
        exact .same
  | none =>
    dsimp only
    by_cases hfull : maxActive ≤ m.jobs.active
    · rw [if_pos hfull]
      exact .same
    · rw [if_neg hfull]
      refine change_admitted hj (fun k hk => ?_) rfl (Nat.not_le.1 hfull) hp k
      simp only [Backend.result, Table.find_put, if_neg (Ne.symm hk)]

theorem claim_change (lease : Time) (locked : String → Bool) : Changes maxActive owner now m k (.claim lease locked) := by
  simp only [Changes, serve, claimNextJob]
  cases hq : m.jobs.queued codePointLe with
  | nil => exact .same
  | cons current rest =>
    obtain ⟨hj, hqueued⟩ := mem_queued (hq ▸ List.mem_cons_self)
    exact change_put (r := replaceJob current .running now none (some owner) (some lease) none) hj (fun _ _ => rfl)
      (.claimed hqueued rfl rfl rfl) k

theorem renew_change (jobId : String) (lease : Time) : Changes maxActive owner now m k (.renew jobId lease) := by
  simp only [Changes, serve, renewOwnedJobLease]
  cases hw : (m.jobs.find jobId).filter (·.owned owner now) with
  | none => exact .same
  | some current =>
    obtain ⟨hj, hown⟩ := Option.filter_eq_some_iff.1 hw
    exact change_put (Table.find_key hj ▸ hj) (fun _ _ => rfl) (.held hown rfl rfl rfl) k

theorem report_change (jobId : String) (progress : JobProgress) :
    Changes maxActive owner now m k (.report jobId progress) := by
  simp only [Changes, serve, updateOwnedJobProgress]
  cases hw : (m.jobs.find jobId).filter (·.owned owner now) with
  | none => exact .same
  | some current =>
    obtain ⟨hj, hown⟩ := Option.filter_eq_some_iff.1 hw
    obtain ⟨-, -, t, ht, -⟩ := owned_iff.1 hown
    exact change_put (Table.find_key hj ▸ hj) (fun _ _ => rfl) (.held hown rfl rfl (ht ▸ rfl)) k

theorem finish_change {jobId : String} {state : JobState} {errorCode : Option String} {progress : JobProgress}
    {applyResult : Option ApplyResult} (hp : state.active = false) :
    Changes maxActive owner now m k (.finish jobId state errorCode progress applyResult) := by
  simp only [Changes, serve, finishOwnedJob]
  cases hw : (m.jobs.find jobId).filter (·.owned owner now) with
  | none => exact .same
  | some current =>
    obtain ⟨hj, hown⟩ := Option.filter_eq_some_iff.1 hw
    have hid := Table.find_key hj
    cases applyResult with
    | none =>
      exact change_put (r := replaceJob current state now errorCode none none (some progress)) (hid ▸ hj) (fun _ _ => rfl)
        (.ended (active_of_owned hown) hp rfl rfl) k
    | some result =>
      cases hx : m.applyJobs.find jobId with
      | none => exact .same
      | some applyJob =>
        dsimp only
        cases hmake : ApplyJobRecord.make (replaceJob current state now errorCode none none (some progress))
            applyJob.revision applyJob.candidateIds (some result) with
        | error e => exact .same
        | ok finished =>
          refine change_put (r := replaceJob current state now errorCode none none (some progress)) (hid ▸ hj)
            (fun k hk => ?_) (.ended (active_of_owned hown) hp rfl rfl) k
          have hkey : finished.job.jobId ≠ k := by
            rw [(ApplyJobRecord.make_ok hmake).1]
            exact Ne.symm hk
          simp only [Backend.result, Table.find_put, if_neg hkey]

theorem cancel_change (jobId : String) : Changes maxActive owner now m k (.cancel jobId) := by
  simp only [Changes, serve, cancelJob]
  cases hj : m.jobs.find jobId with
  | none => exact .same
  | some current =>
    dsimp only
    split
    · exact .same
    · split
      · exact .same
      · split
        · exact .same
        · rename_i hactive
          have hactive : current.active = true := by simpa using hactive
          exact change_put (Table.find_key hj ▸ hj) (fun _ _ => rfl) (.ended hactive rfl rfl rfl) k

theorem failExpired_change (errorCode : String) : Changes maxActive owner now m k (.failExpired errorCode) :=
  change_update (by exact fun _ => rfl) (fun k j hexp => .ended (active_of_expired hexp) rfl rfl rfl) k

theorem serve_change {call : JobCall} (hp : call.Proper) : Changes maxActive owner now m k call := by
  cases call with
  | enqueue record => exact m.enqueue_change k hp
  | enqueueApply record => exact m.enqueueApply_change k hp
  | claim lease locked => exact m.claim_change k lease locked
  | renew jobId lease => exact m.renew_change k jobId lease
  | report jobId progress => exact m.report_change k jobId progress
  | finish jobId state errorCode progress applyResult => exact m.finish_change k hp
  | cancel jobId => exact m.cancel_change k jobId
  | failExpired errorCode => exact m.failExpired_change k errorCode

end Memory

/-! ### The PostgreSQL repository, call by call -/

/-- A value that does not fit its column ends the transaction. -/
theorem Postgres.commit_fit {α : Type} {answer : α → Answer} {s : Postgres} {fits : Bool}
    {f : Unit → Except RepositoryError (α × Postgres)} {P : Answer × Postgres → Prop} (hraised : ∀ e, P (.raised e, s))
    (hfits : P (s.commit answer (f ()))) : P (s.commit answer (requireFit fits >>= f)) := by
  cases fits with
  | false => exact hraised _
  | true => exact hfits

theorem Postgres.commit_pure {α : Type} (answer : α → Answer) (s s' : Postgres) (a : α) :
    s.commit answer (pure (a, s')) = (answer a, s') := rfl

namespace Postgres
variable {le : String → String → Bool} {maxActive : Nat} {owner : String} {now : Time} (s : Postgres) (k : String)

/-- What the call makes of a job and its result is a change it may make. -/
abbrev Changes (le : String → String → Bool) (maxActive : Nat) (owner : String) (now : Time) (s : Postgres) (k : String)
    (call : JobCall) : Prop :=
  Change owner now call (s.jobs.active < maxActive) k (s.jobs.find k) (Backend.result (.postgres le) s k)
    ((s.serve le maxActive owner now call).2.jobs.find k)
    (Backend.result (.postgres le) (s.serve le maxActive owner now call).2 k)

/-- A call whose values fit is one transaction; where they do not, nothing changes. -/
theorem change_fit {α : Type} {answer : α → Answer} {fits : Bool} {f : Unit → Except RepositoryError (α × Postgres)}
    {call : JobCall} {room : Prop}
    (hfits : Change owner now call room k (s.jobs.find k) (Backend.result (.postgres le) s k)
      ((s.commit answer (f ())).2.jobs.find k) (Backend.result (.postgres le) (s.commit answer (f ())).2 k)) :
    Change owner now call room k (s.jobs.find k) (Backend.result (.postgres le) s k)
      ((s.commit answer (requireFit fits >>= f)).2.jobs.find k)
      (Backend.result (.postgres le) (s.commit answer (requireFit fits >>= f)).2 k) :=
  commit_fit (P := fun r => Change owner now call room k _ _ (r.2.jobs.find k) (Backend.result (.postgres le) r.2 k))
    (fun _ => .same) hfits

theorem enqueue_change {record : JobRecord} (hp : (JobCall.enqueue record).Proper) :
    Changes le maxActive owner now s k (.enqueue record) := by
  refine s.change_fit k ?_
  split
  · exact .same
  · rename_i hadmit
    rw [not_or, Nat.not_le, Option.not_isSome_iff_eq_none] at hadmit
    cases hfit : record.fits with
    | false =>
      simp only [executeSaveJob, requireFit, hfit]
      exact .same
    | true =>
      simp only [executeSaveJob, requireFit, hfit]
      exact change_admitted hadmit.2 (fun _ _ => rfl) rfl hadmit.1 hp k

/-- The two inserts of an apply job, with room for it and no job of its id. -/
theorem enqueueApply_inserted {record : ApplyJobRecord} (hp : (JobCall.enqueueApply record).Proper)
    (hj : s.jobs.find record.job.jobId = none) : Changes le maxActive owner now s k (.enqueueApply record) := by
  refine s.change_fit k ?_
  rw [hj]
  dsimp only
  by_cases hfull : maxActive ≤ s.jobs.active
  · rw [if_pos hfull]
    exact .same
  · rw [if_neg hfull]
    cases hfit : record.job.fits with
    | false =>
      simp only [executeSaveJob, requireFit, hfit]
      exact .same
    | true =>
      simp only [executeSaveJob, requireFit, hfit, if_true, ok_bind, pure_bind]
      cases hrev : textFits record.revision with
      | false => exact .same
      | true =>
        simp only [if_true, ok_bind]
        by_cases hx : (s.applyJobs.find record.job.jobId).isSome = true
        · rw [if_pos hx]
          exact .same
        · rw [if_neg hx]
          refine change_admitted hj (fun k hk => ?_) rfl (Nat.not_le.1 hfull) hp k
          simp only [Backend.result, commit_pure, Table.find_put, if_neg (Ne.symm hk)]

theorem enqueueApply_change {record : ApplyJobRecord} (hp : (JobCall.enqueueApply record).Proper) :
    Changes le maxActive owner now s k (.enqueueApply record) := by
  cases hj : s.jobs.find record.job.jobId with
  | none => exact s.enqueueApply_inserted k hp hj
  | some existingJob =>
    refine s.change_fit k ?_
    rw [hj]
    cases s.applyJobs.find record.job.jobId with
    | none => exact .same
    | some row =>
      dsimp only
      by_cases hsame : existingJob.planId = record.job.planId ∧ row.revision = record.revision ∧
          row.candidateIds = record.candidateIds
      · rw [if_pos hsame]
        cases applyJobFromRow existingJob row <;> exact .same
      · rw [if_neg hsame]
        exact .same

theorem claim_change (lease : Time) (locked : String → Bool) :
    Changes le maxActive owner now s k (.claim lease locked) := by
  simp only [Changes, serve, claimNextJob]
  cases hq : (s.jobs.queued le).filter fun j => !locked j.jobId with
  | nil => exact .same
  | cons row rest =>
    refine s.change_fit k ?_
    refine change_modify (by exact fun _ => rfl) (fun _ _ => rfl) (fun j _ hqueued => ?_) (fun _ => rfl) k
    exact .claimed (of_decide_eq_true hqueued) rfl rfl rfl

theorem renew_change (jobId : String) (lease : Time) : Changes le maxActive owner now s k (.renew jobId lease) := by
  refine s.change_fit k ?_
  refine change_modify (by exact fun _ => rfl) (fun _ _ => rfl) (fun j _ hown => ?_) (fun _ => rfl) k
  exact .held hown (owned_iff.1 hown).2.1 (owned_iff.1 hown).1 rfl

theorem report_change (jobId : String) (progress : JobProgress) :
    Changes le maxActive owner now s k (.report jobId progress) := by
  refine s.change_fit k ?_
  refine change_modify (by exact fun _ => rfl) (fun _ _ => rfl) (fun j _ hown => ?_) (fun _ => rfl) k
  obtain ⟨howner, hrun, t, ht, -⟩ := owned_iff.1 hown
  exact .held hown hrun howner (ht ▸ rfl)

theorem finish_change {jobId : String} {state : JobState} {errorCode : Option String} {progress : JobProgress}
    {applyResult : Option ApplyResult} (hp : state.active = false) :
    Changes le maxActive owner now s k (.finish jobId state errorCode progress applyResult) := by
  refine s.change_fit k ?_
  simp only [updateOwned]
  cases hm : s.jobs.matched jobId (·.owned owner now) with
  | false => exact .same
  | true =>
    have ended : ∀ {y : String → Option ApplyResult}, (∀ k, k ≠ jobId → y k = Backend.result (.postgres le) s k) →
        Change owner now (.finish jobId state errorCode progress applyResult) (s.jobs.active < maxActive) k (s.jobs.find k)
          (Backend.result (.postgres le) s k)
          ((s.jobs.modify jobId (·.owned owner now) (fun j => { j with
            state, updatedAt := now, errorCode, ownerId := none, leaseExpiresAt := none, progress }) fun _ => rfl).find k)
          (y k) := by
      intro y hy
      refine change_modify (by exact fun _ => rfl) hy (fun j _ hown => ?_) (fun h => by rw [hm] at h; cases h) k
      exact .ended (active_of_owned hown) hp rfl rfl
    cases applyResult with
    | none => exact ended fun _ _ => rfl
    | some result =>
      dsimp only
      split
      · rename_i row job _ _
        cases ApplyJobRecord.make job row.revision row.candidateIds (some result) with
        | error e => exact .same
        | ok _ =>
          refine ended fun k hk => ?_
          simp only [Backend.result, ok_bind, commit_pure, Table.find_modify]
          cases s.applyJobs.find k with
          | none => rfl
          | some _ => simp [hk]
      · exact .same

theorem cancel_change (jobId : String) : Changes le maxActive owner now s k (.cancel jobId) := by
  refine s.change_fit k ?_
  cases hj : s.jobs.find jobId with
  | none => exact .same
  | some current =>
    dsimp only
    split
    · exact .same
    · split
      · exact .same
      · split
        · exact .same
        · exact change_modify (by exact fun _ => rfl) (fun _ _ => rfl) (fun j _ hactive => .ended hactive rfl rfl rfl)
            (fun _ => rfl) k

theorem failExpired_change (errorCode : String) : Changes le maxActive owner now s k (.failExpired errorCode) :=
  s.change_fit k (change_update (by exact fun _ => rfl) (fun k j hexp => .ended (active_of_expired hexp) rfl rfl rfl) k)

theorem serve_change {call : JobCall} (hp : call.Proper) : Changes le maxActive owner now s k call := by
  cases call with
  | enqueue record => exact s.enqueue_change k hp
  | enqueueApply record => exact s.enqueueApply_change k hp
  | claim lease locked => exact s.claim_change k lease locked
  | renew jobId lease => exact s.renew_change k jobId lease
  | report jobId progress => exact s.report_change k jobId progress
  | finish jobId state errorCode progress applyResult => exact s.finish_change k hp
  | cancel jobId => exact s.cancel_change k jobId
  | failExpired errorCode => exact s.failExpired_change k errorCode

end Postgres

theorem Memory.claimed_queued {maxActive : Nat} {owner : String} {now : Time} {call : JobCall} {m : Memory} {r : JobRecord}
    (h : (m.serve maxActive owner now call).1 = .claimed (some r)) :
    (∃ j, m.jobs.find r.jobId = some j ∧ j.state = .queued) ∧
      ∃ j, (m.serve maxActive owner now call).2.jobs.find r.jobId = some j ∧ j.state = .running := by
  cases call with
  | claim lease locked =>
    simp only [serve, claimNextJob] at h ⊢
    cases hq : m.jobs.queued codePointLe with
    | nil => simp [hq] at h
    | cons current rest =>
      simp only [hq, Prod.map, id, Answer.claimed.injEq, Option.some.injEq] at h ⊢
      subst h
      refine ⟨⟨current, mem_queued (hq ▸ List.mem_cons_self)⟩,
        replaceJob current .running now none (some owner) (some lease) none, ?_, rfl⟩
      rw [Table.find_put, if_pos rfl]
  | enqueueApply record =>
    simp only [serve] at h
    split at h <;> cases h
  | finish jobId state errorCode progress applyResult =>
    simp only [serve] at h
    split at h <;> cases h
  | enqueue record => cases h
  | renew jobId lease => cases h
  | report jobId progress => cases h
  | cancel jobId => cases h
  | failExpired errorCode => cases h

/-- A call answers in its own way, or raises. -/
theorem Postgres.commit_eq {α : Type} {answer : α → Answer} {s : Postgres} {x : Except RepositoryError (α × Postgres)}
    {a : Answer} (h : (s.commit answer x).1 = a) :
    (∃ v s', x = .ok (v, s') ∧ a = answer v) ∨ ∃ e, x = .error e ∧ a = .raised e := by
  cases x with
  | ok p => exact .inl ⟨p.1, p.2, rfl, h.symm⟩
  | error e => exact .inr ⟨e, rfl, h.symm⟩

theorem Postgres.claimed_queued {le : String → String → Bool} {maxActive : Nat} {owner : String} {now : Time} {call : JobCall}
    {s : Postgres} {r : JobRecord} (h : (s.serve le maxActive owner now call).1 = .claimed (some r)) :
    (∃ j, s.jobs.find r.jobId = some j ∧ j.state = .queued) ∧
      ∃ j, (s.serve le maxActive owner now call).2.jobs.find r.jobId = some j ∧ j.state = .running := by
  cases call with
  | claim lease locked =>
    simp only [serve, claimNextJob] at h ⊢
    cases hq : (s.jobs.queued le).filter fun j => !locked j.jobId with
    | nil => simp [hq, commit] at h
    | cons row rest =>
      obtain ⟨hfind, hqueued⟩ := mem_queued (List.mem_filter.1 (hq ▸ List.mem_cons_self)).1
      cases hfit : textFits owner with
      | false => simp [hq, hfit, requireFit, commit] at h
      | true =>
        simp only [hq, hfit, requireFit, if_true, ok_bind, commit_pure, Answer.claimed.injEq, Option.some.injEq] at h ⊢
        subst h
        refine ⟨⟨row, hfind, hqueued⟩, { row with
          state := .running, updatedAt := now, ownerId := some owner, leaseExpiresAt := some lease }, ?_, rfl⟩
        rw [Table.find_modify, hfind]
        simp [hqueued]
  | enqueue record => rcases commit_eq h with ⟨_, _, _, h⟩ | ⟨_, _, h⟩ <;> cases h
  | enqueueApply record => rcases commit_eq h with ⟨_, _, _, h⟩ | ⟨_, _, h⟩ <;> cases h
  | renew jobId lease => rcases commit_eq h with ⟨_, _, _, h⟩ | ⟨_, _, h⟩ <;> cases h
  | report jobId progress => rcases commit_eq h with ⟨_, _, _, h⟩ | ⟨_, _, h⟩ <;> cases h
  | finish jobId state errorCode progress applyResult => rcases commit_eq h with ⟨_, _, _, h⟩ | ⟨_, _, h⟩ <;> cases h
  | cancel jobId => rcases commit_eq h with ⟨_, _, _, h⟩ | ⟨_, _, h⟩ <;> cases h
  | failExpired errorCode => rcases commit_eq h with ⟨_, _, _, h⟩ | ⟨_, _, h⟩ <;> cases h

theorem Memory.unowned_refused {maxActive : Nat} {owner : String} {now : Time} {call : JobCall} {m : Memory} {jobId : String}
    (hc : call.ownedJob = some jobId) (h : ∀ j, m.jobs.find jobId = some j → j.owned owner now = false) :
    (m.serve maxActive owner now call).2 = m ∧ (m.serve maxActive owner now call).1 ≠ .written true := by
  have hnone : (m.jobs.find jobId).filter (·.owned owner now) = none := by
    rw [Option.filter_eq_none_iff]
    intro j hj
    simp [h j hj]
  cases call with
  | renew jobId' lease =>
    cases hc
    simp [serve, renewOwnedJobLease, hnone]
  | report jobId' progress =>
    cases hc
    simp [serve, updateOwnedJobProgress, hnone]
  | finish jobId' state errorCode progress applyResult =>
    cases hc
    simp [serve, finishOwnedJob, hnone]
  | _ => cases hc

theorem Postgres.unowned_refused {le : String → String → Bool} {maxActive : Nat} {owner : String} {now : Time} {call : JobCall}
    {s : Postgres} {jobId : String} (hc : call.ownedJob = some jobId)
    (h : ∀ j, s.jobs.find jobId = some j → j.owned owner now = false) :
    (s.serve le maxActive owner now call).2 = s ∧ (s.serve le maxActive owner now call).1 ≠ .written true := by
  have hmatch : s.jobs.matched jobId (·.owned owner now) = false := by
    cases hm : s.jobs.matched jobId (·.owned owner now) with
    | false => rfl
    | true =>
      obtain ⟨j, hj, ho⟩ := Table.matched_iff.1 hm
      rw [h j hj] at ho
      cases ho
  have raised : ∀ e, s = s ∧ Answer.raised e ≠ .written true := fun _ => ⟨rfl, by simp⟩
  cases call with
  | renew jobId' lease =>
    cases hc
    refine commit_fit (P := fun r => r.2 = s ∧ r.1 ≠ .written true) raised ?_
    simp [updateOwned, hmatch, commit_pure, Table.modify_of_not _ hmatch]
  | report jobId' progress =>
    cases hc
    refine commit_fit (P := fun r => r.2 = s ∧ r.1 ≠ .written true) raised ?_
    simp [updateOwned, hmatch, commit_pure, Table.modify_of_not _ hmatch]
  | finish jobId' state errorCode progress applyResult =>
    cases hc
    refine commit_fit (P := fun r => r.2 = s ∧ r.1 ≠ .written true) raised ?_
    simp [updateOwned, hmatch, commit_pure]
  | _ => cases hc

namespace Backend
variable (b : Backend) {maxActive : Nat} {owner : String} {now : Time} {call : JobCall}

/-- What a call of either backend does to any job. -/
theorem serve_change (hp : call.Proper) (s : b.Store) (k : String) :
    Change owner now call ((b.jobs s).active < maxActive) k ((b.jobs s).find k) (b.result s k)
      ((b.jobs (b.serve maxActive owner now call s).2).find k) (b.result (b.serve maxActive owner now call s).2 k) := by
  cases b with
  | memory => exact Memory.serve_change s k hp
  | postgres le => exact Postgres.serve_change s k hp

/-- A job is handed out when it is queued, and runs from then on. -/
theorem claimed_queued {s : b.Store} {r : JobRecord} (h : (b.serve maxActive owner now call s).1 = .claimed (some r)) :
    (∃ j, (b.jobs s).find r.jobId = some j ∧ j.state = .queued) ∧
      ∃ j, (b.jobs (b.serve maxActive owner now call s).2).find r.jobId = some j ∧ j.state = .running := by
  cases b with
  | memory => exact Memory.claimed_queued h
  | postgres le => exact Postgres.claimed_queued h

/-- A write of anyone but the owner, or past the lease, does nothing. -/
theorem unowned_refused {s : b.Store} {jobId : String} (hc : call.ownedJob = some jobId)
    (h : ∀ j, (b.jobs s).find jobId = some j → j.owned owner now = false) :
    (b.serve maxActive owner now call s).2 = s ∧ (b.serve maxActive owner now call s).1 ≠ .written true := by
  cases b with
  | memory => exact Memory.unowned_refused hc h
  | postgres le => exact Postgres.unowned_refused hc h

end Backend

/-! ## Runs -/

/-- The ids a call has handed out. -/
def Answer.claims : Answer → List String
  | .claimed (some job) => [job.jobId]
  | _ => []

/-- A repository in use: its store, the clock of each manager, and every claim so far. -/
structure Service (b : Backend) where
  store : b.Store
  clock : String → Time
  claims : List String

namespace Service
variable {b : Backend}

def start (b : Backend) (clock : String → Time) : Service b := ⟨b.empty, clock, []⟩

def next (maxActive : Nat) (owner : String) (now : Time) (call : JobCall) (w : Service b) : Service b where
  store := (b.serve maxActive owner now call w.store).2
  clock := Function.update w.clock owner now
  claims := w.claims ++ (b.serve maxActive owner now call w.store).1.claims

/-- Some manager reads its clock, which does not go back, and makes a call. -/
inductive Step (maxActive : Nat) : Service b → Service b → Prop
  | call {w} (owner : String) {now : Time} {c : JobCall} (clock : w.clock owner ≤ now) (proper : c.Proper) :
      Step maxActive w (w.next maxActive owner now c)

abbrev Steps (maxActive : Nat) : Service b → Service b → Prop := Relation.ReflTransGen (Step maxActive)

def find (w : Service b) (jobId : String) : Option JobRecord := (b.jobs w.store).find jobId

/-- The job is over, or the lease of its owner has expired by the owner's own clock. -/
def Lapsed (w : Service b) (owner jobId : String) : Prop :=
  ∃ j, w.find jobId = some j ∧
    (j.active = false ∨ j.ownerId = some owner ∧ ∃ t, j.leaseExpiresAt = some t ∧ t ≤ w.clock owner)

/-- Job ownership is fenced, now and in every run from here. -/
structure Fenced (maxActive : Nat) (w : Service b) : Prop where
  claimedOnce : w.claims.Nodup
  held : ∀ jobId j, w.find jobId = some j → j.Leased
  capped : (b.jobs w.store).active ≤ maxActive
  final : ∀ w', Steps maxActive w w' → ∀ jobId j, w.find jobId = some j → j.active = false →
    w'.find jobId = some j ∧ b.result w'.store jobId = b.result w.store jobId
  owned : ∀ (owner : String) (now : Time) (c : JobCall) (jobId : String), c.ownedJob = some jobId →
    (w.next maxActive owner now c).store ≠ w.store ∨ (b.serve maxActive owner now c w.store).1 = .written true →
    ∃ j, w.find jobId = some j ∧ j.owned owner now
  fenced : ∀ w', Steps maxActive w w' → ∀ (owner jobId : String), w.Lapsed owner jobId →
    ∀ (now : Time) (c : JobCall), c.ownedJob = some jobId → w'.clock owner ≤ now →
    (w'.next maxActive owner now c).store = w'.store ∧ (b.serve maxActive owner now c w'.store).1 ≠ .written true

/-! ## The invariant -/

structure Inv (maxActive : Nat) (w : Service b) : Prop where
  nodup : w.claims.Nodup
  begun : ∀ jobId ∈ w.claims, ∃ j, w.find jobId = some j ∧ j.state ≠ .queued
  held : ∀ jobId j, w.find jobId = some j → j.Leased
  capped : (b.jobs w.store).active ≤ maxActive

variable {maxActive : Nat} {w w' : Service b} {owner : String} {now : Time} {c : JobCall}

theorem next_change (hp : c.Proper) (w : Service b) (owner : String) (now : Time) (k : String) :
    Change owner now c ((b.jobs w.store).active < maxActive) k (w.find k) (b.result w.store k)
      ((w.next maxActive owner now c).find k) (b.result (w.next maxActive owner now c).store k) :=
  b.serve_change hp w.store k

theorem inv_start (clock : String → Time) : Inv maxActive (start b clock) := by
  have nothing : ∀ k, (start b clock).find k = none := by
    intro k
    cases b <;> rfl
  refine ⟨List.nodup_nil, fun _ h => (by cases h), fun k j h => ?_, ?_⟩
  · rw [nothing] at h
    cases h
  · cases b <;> exact Nat.zero_le _

theorem capped_next (hi : Inv maxActive w) (hp : c.Proper) (owner : String) (now : Time) :
    (b.jobs (w.next maxActive owner now c).store).active ≤ maxActive := by
  have before : ∀ k j', (w.next maxActive owner now c).find k = some j' → j'.active = true →
      (∃ j, w.find k = some j ∧ j.active = true) ∨ c.admits = some k ∧ (b.jobs w.store).active < maxActive :=
    fun k j' hj' hactive => (hj' ▸ next_change hp w owner now k).active hactive
  by_cases hroom : (b.jobs w.store).active < maxActive
  · refine Nat.le_trans (Table.countP_le_succ (c.admits.getD "") fun k j' hk hj' hactive => ?_) hroom
    refine (before k j' hj' hactive).resolve_right fun ⟨hadmits, _⟩ => hk ?_
    rw [hadmits]
    rfl
  · refine Nat.le_trans (Table.countP_le fun k j' hj' hactive => ?_) hi.capped
    exact (before k j' hj' hactive).resolve_right fun ⟨_, h⟩ => hroom h

theorem inv_next (hi : Inv maxActive w) (hp : c.Proper) (owner : String) (now : Time) :
    Inv maxActive (w.next maxActive owner now c) := by
  have begun : ∀ jobId ∈ w.claims, ∃ j, (w.next maxActive owner now c).find jobId = some j ∧ j.state ≠ .queued := by
    intro jobId h
    obtain ⟨j, hj, hstate⟩ := hi.begun jobId h
    exact (hj ▸ next_change hp w owner now jobId).begun hstate
  have leased : ∀ jobId j, (w.next maxActive owner now c).find jobId = some j → j.Leased := fun jobId j hj =>
    (hj ▸ next_change hp w owner now jobId).leased (hi.held jobId)
  -- a call that hands out a job took it from the queue, so nobody had it before
  cases ha : (b.serve maxActive owner now c w.store).1.claims with
  | nil =>
    have hclaims : (w.next maxActive owner now c).claims = w.claims := by simp [next, ha]
    exact ⟨hclaims ▸ hi.nodup, hclaims ▸ begun, leased, capped_next hi hp owner now⟩
  | cons jobId rest =>
    obtain ⟨r, hr, rfl, rfl⟩ : ∃ r, (b.serve maxActive owner now c w.store).1 = .claimed (some r) ∧ r.jobId = jobId ∧ [] = rest := by
      unfold Answer.claims at ha
      split at ha
      · rename_i r hr
        cases ha
        exact ⟨r, hr, rfl, rfl⟩
      · cases ha
    obtain ⟨⟨j, hj, hqueued⟩, j', hj', hrunning⟩ := b.claimed_queued hr
    have hclaims : (w.next maxActive owner now c).claims = w.claims ++ [r.jobId] := by simp [next, ha]
    have fresh : r.jobId ∉ w.claims := by
      intro h
      obtain ⟨j₀, hj₀, hstate⟩ := hi.begun _ h
      cases hj₀.symm.trans hj
      exact hstate hqueued
    refine ⟨?_, fun jobId h => ?_, leased, capped_next hi hp owner now⟩
    · rw [hclaims]
      exact List.nodup_append_comm.1 (List.nodup_cons.2 ⟨fresh, hi.nodup⟩)
    · rw [hclaims] at h
      rcases List.mem_append.1 h with h | h
      · exact begun jobId h
      · cases List.mem_singleton.1 h
        refine ⟨j', hj', ?_⟩
        rw [hrunning]
        decide

/-! ## What holds in every run -/

theorem inv_steps (hi : Inv maxActive w) (h : Steps maxActive w w') : Inv maxActive w' := by
  induction h with
  | refl => exact hi
  | tail _ hs ih =>
    obtain ⟨owner, -, hp⟩ := hs
    exact inv_next ih hp owner _

/-- A job that is over stays as it is. -/
theorem final_steps (h : Steps maxActive w w') {jobId : String} {j : JobRecord} (hj : w.find jobId = some j)
    (hover : j.active = false) : w'.find jobId = some j ∧ b.result w'.store jobId = b.result w.store jobId := by
  induction h with
  | refl => exact ⟨hj, rfl⟩
  | @tail v v' _ hs ih =>
    obtain ⟨owner, -, hp⟩ := hs
    obtain ⟨hfind, hresult⟩ := (ih.1 ▸ next_change hp v owner _ jobId).final hover
    exact ⟨hfind, hresult.trans ih.2⟩

/-- A lease that has expired by its owner's clock is not renewed. -/
theorem lapsed_steps (hi : Inv maxActive w) (h : Steps maxActive w w') {owner jobId : String} (hl : w.Lapsed owner jobId) : w'.Lapsed owner jobId := by
  induction h with
  | refl => exact hl
  | @tail v v' hv hs ih =>
    obtain ⟨o, hclock, hp⟩ := hs
    rename_i now c
    have hi := inv_steps hi hv
    obtain ⟨j, hj, hover | ⟨howner, t, ht, hpast⟩⟩ := ih
    · exact ⟨j, ((hj ▸ next_change hp v o now jobId).final hover).1, .inl hover⟩
    · have later : v.clock owner ≤ (v.next maxActive o now c).clock owner := by
        by_cases ho : owner = o
        · subst ho
          simpa [next] using hclock
        · simp [next, ho]
      have hc : Change o now c ((b.jobs v.store).active < maxActive) jobId (some j) _ _ _ := hj ▸ next_change hp v o now jobId
      generalize hj' : (v.next maxActive o now c).find jobId = o' at hc
      generalize b.result v.store jobId = x at hc
      generalize b.result (v.next maxActive o now c).store jobId = y at hc
      cases hc with
      | same => exact ⟨j, hj', .inr ⟨howner, t, ht, Int.le_trans hpast later⟩⟩
      | claimed queued =>
        have := (hi.held jobId j hj).1.1 (howner ▸ rfl)
        rw [queued] at this
        cases this
      | held holds =>
        obtain ⟨ho, -, t', ht', hlive⟩ := owned_iff.1 holds
        cases howner.symm.trans ho
        cases ht.symm.trans ht'
        exact absurd (Int.le_trans hpast hclock) (Int.not_le.2 hlive)
      | ended _ terminal => exact ⟨_, hj', .inl terminal⟩

/-- However many managers call a repository in whatever order, in memory or over a database, job
ownership is fenced. -/
theorem jobs_fenced (b : Backend) (maxActive : Nat) (clock : String → Time) {w : Service b}
    (h : Steps maxActive (start b clock) w) : Fenced maxActive w where
  claimedOnce := (inv_steps (inv_start clock) h).nodup
  held := (inv_steps (inv_start clock) h).held
  capped := (inv_steps (inv_start clock) h).capped
  final _ h' _ _ hj hover := final_steps h' hj hover
  owned owner now c jobId hc he := by
    by_contra hnone
    have hnot : ∀ j, (b.jobs w.store).find jobId = some j → j.owned owner now = false := fun j hj => by
      cases ho : j.owned owner now with
      | false => rfl
      | true => exact absurd ⟨j, hj, ho⟩ hnone
    exact he.elim (fun he => he (b.unowned_refused hc hnot).1) fun he => (b.unowned_refused hc hnot).2 he
  fenced w' h' owner jobId hl now c hc hclock := by
    obtain ⟨j, hj, hl⟩ := lapsed_steps (inv_steps (inv_start clock) h) h' hl
    refine b.unowned_refused hc fun j' hj' => ?_
    cases hj.symm.trans hj'
    cases ho : j.owned owner now with
    | false => rfl
    | true =>
      rcases hl with hover | ⟨-, t, ht, hpast⟩
      · rw [active_of_owned ho] at hover
        cases hover
      · obtain ⟨-, -, t', ht', hlive⟩ := owned_iff.1 ho
        cases ht.symm.trans ht'
        exact absurd (Int.le_trans hpast hclock) (Int.not_le.2 hlive)

/-- Two managers over one repository: one admits a job, the other claims it. -/
def handedOver : Service .memory :=
  ((start .memory fun _ => 0).next 1 "a" 5 (.enqueue (planJob "p" ["x"] 5))).next 1 "b" 7 (.claim 37 fun _ => false)

theorem jobs_fenced_handedOver : handedOver.claims = ["p"] ∧ Fenced 1 handedOver := by
  refine ⟨by decide, jobs_fenced .memory 1 (fun _ => 0) ?_⟩
  have admitted : JobCall.Proper (.enqueue (planJob "p" ["x"] 5)) :=
    (started_fresh "r" "p" ["x"] [] 5).1
  refine .tail (.single (.call "a" (by simp [start]) admitted)) (.call "b" ?_ trivial)
  simp [next, start]

end Service

end EmbyxManager.FillActor
