import EmbyxManager.FillActor.Fencing
/-!
# The database mirrors the dictionaries

`PostgresFillActorRepository` "mirrors the semantics of
`MemoryFillActorRepository` (the executable specification)". `Mirror` relates the
six dictionaries to the seven tables; every call that does not reach a difference
between the two keeps it, and gives the same reply.
-/

namespace EmbyxManager.FillActor

open Atom (Table)

/-- The calls that change a repository; those on jobs are a manager's. -/
inductive RepositoryCall where
  | savePlan (record : PlanRecord)
  | deletePlan (planId : String)
  | purgeExpiredPlans (now : Time)
  | saveMoveResult (planId : String) (result : MoveResult)
  | saveJob (record : JobRecord)
  | job (owner : String) (now : Time) (maxActive : Nat) (call : JobCall)
  | saveMoveJournal (record : MoveJournalRecord)
  | saveCloudMoveOperation (record : CloudMoveOperationRecord)
  | finalizeCloudMove (operation : CloudMoveOperationRecord) (result : MoveResult)

/-- What a caller sees of a call. -/
inductive Reply where
  | done
  | deleted (removed : Bool)
  | purged (count : Nat)
  | job (answer : Answer)
  | raised

def Answer.reply : Answer → Reply
  | .raised _ => .raised
  | a => .job a

def Memory.call : RepositoryCall → Memory → Reply × Memory
  | .savePlan record, m => (.done, m.savePlan record)
  | .deletePlan planId, m =>
    match m.deletePlan planId with
    | (.ok removed, m) => (.deleted removed, m)
    | (.error _, m) => (.raised, m)
  | .purgeExpiredPlans now, m =>
    match m.purgeExpiredPlans now with
    | (.ok count, m) => (.purged count, m)
    | (.error _, m) => (.raised, m)
  | .saveMoveResult planId result, m => wrote m (m.saveMoveResult planId result)
  | .saveJob record, m => (.done, m.saveJob record)
  | .job owner now maxActive call, m => (m.serve maxActive owner now call).map Answer.reply id
  | .saveMoveJournal record, m => wrote m (m.saveMoveJournal record)
  | .saveCloudMoveOperation record, m => wrote m (m.saveCloudMoveOperation record)
  | .finalizeCloudMove operation result, m => wrote m (m.finalizeCloudMove operation result)
where
  /-- A call that writes, or raises before it writes. -/
  wrote (m : Memory) : Except RepositoryError Memory → Reply × Memory
    | .ok m => (.done, m)
    | .error _ => (.raised, m)

/-- The transaction commits, or is rolled back. -/
def Postgres.transact {α : Type} (reply : α → Reply) (s : Postgres) : Except RepositoryError (α × Postgres) → Reply × Postgres
  | .ok (a, s) => (reply a, s)
  | .error _ => (.raised, s)

def Postgres.wrote (s : Postgres) (r : Except RepositoryError Postgres) : Reply × Postgres :=
  s.transact (fun _ : Unit => .done) (r.map fun s => ((), s))

def Postgres.call (le : String → String → Bool) (call : RepositoryCall) (s : Postgres) : Reply × Postgres :=
  match call with
  | .savePlan record => s.wrote (s.savePlan record)
  | .deletePlan planId => s.transact .deleted (s.deletePlan planId)
  | .purgeExpiredPlans now => s.transact .purged (s.purgeExpiredPlans now)
  | .saveMoveResult planId result => s.wrote (s.saveMoveResult planId result)
  | .saveJob record => s.wrote (s.saveJob record)
  | .job owner now maxActive call => (s.serve le maxActive owner now call).map Answer.reply id
  | .saveMoveJournal record => s.wrote (s.saveMoveJournal record)
  | .saveCloudMoveOperation record => s.wrote (s.saveCloudMoveOperation record)
  | .finalizeCloudMove operation result => s.wrote (s.finalizeCloudMove operation result)

/-! ## Where the two agree -/

/-- An active job carries no error code. -/
def JobRecord.Clear (j : JobRecord) : Prop := j.active = true → j.errorCode = none

/-- The job can take the place of the job of this apply record. -/
def ApplyJobRecord.Suits (r : ApplyJobRecord) (j : JobRecord) : Prop :=
  ApplyJobRecord.Valid j r.revision r.candidateIds r.result ∧ j.planId = r.job.planId

/-- The paths of the stored operation are those of the record. -/
def Memory.SamePaths (m : Memory) (record : CloudMoveOperationRecord) : Prop :=
  ∀ row, m.cloudMoveOperations.find (record.planId, record.candidateId) = some row →
    row.sourcePath = record.sourcePath ∧ row.destinationDir = record.destinationDir

/-- A call that does not reach a difference: its values fit their columns, and

- a plan that is deleted is stored, or no job refers to it;
- an active job that comes in has no error code, and one saved over the job of an apply record suits it;
- a cloud operation keeps its paths;
- nobody else has jobs locked. -/
def Memory.Agreeable (m : Memory) : RepositoryCall → Prop
  | .savePlan record => record.fits
  | .deletePlan planId => textFits planId ∧
      (m.busy planId = false → m.plans.find planId = none → ∀ j ∈ m.jobs.rows, j.planId ≠ some planId)
  | .purgeExpiredPlans _ => True
  | .saveMoveResult planId result => textFits planId ∧ textFits result.candidateId
  | .saveJob record => record.fits ∧ record.Clear ∧ ∀ r, m.applyJobs.find record.jobId = some r → r.Suits record
  | .job owner _ _ call => textFits owner ∧
      match call with
      | .enqueue record => record.fits ∧ record.Clear
      | .enqueueApply record => record.job.fits ∧ textFits record.revision ∧ record.job.Clear
      | .claim _ locked => ∀ jobId, locked jobId = false
      | .renew jobId _ => textFits jobId
      | .report jobId progress => textFits jobId ∧ progress.fits
      | .finish jobId state errorCode progress _ => textFits jobId ∧ errorCode.all textFits ∧ progress.fits ∧
          (state.active = true → errorCode = none)
      | .cancel jobId => textFits jobId
      | .failExpired errorCode => textFits errorCode
  | .saveMoveJournal record => textFits record.planId ∧ textFits record.candidateId
  | .saveCloudMoveOperation record => record.fits ∧ m.SamePaths record
  | .finalizeCloudMove operation _ => operation.fits ∧ m.SamePaths operation

/-! ## The relation -/

def planRow (r : PlanRecord) : PlanRow := ⟨r.plan, r.configVersion⟩

def applyRow (r : ApplyJobRecord) : ApplyJobRow := ⟨r.job.jobId, r.revision, r.candidateIds, r.result⟩

structure Mirror (m : Memory) (s : Postgres) : Prop where
  plans : s.plans.rows = m.plans.rows.map planRow
  candidates : ∀ p c, (s.candidates.find (p, c)).map (·.2) = m.getCandidate p c
  moveResults : s.moveResults = m.moveResults
  jobs : s.jobs = m.jobs
  applyJobs : s.applyJobs.rows = m.applyJobs.rows.map applyRow
  moveJournal : s.moveJournal = m.moveJournal
  cloudMoveOperations : s.cloudMoveOperations = m.cloudMoveOperations
  resultKept : ∀ r ∈ m.moveResults.rows, (m.getCandidate r.1 r.2.candidateId).isSome
  journalKept : ∀ r ∈ m.moveJournal.rows, (m.getCandidate r.planId r.candidateId).isSome
  operationKept : ∀ r ∈ m.cloudMoveOperations.rows, (m.getCandidate r.planId r.candidateId).isSome
  suited : ∀ r ∈ m.applyJobs.rows, ∃ j, m.jobs.find r.job.jobId = some j ∧ r.Suits j
  clear : ∀ j ∈ m.jobs.rows, j.Clear

theorem Mirror.find_applyJobs {m : Memory} {s : Postgres} (h : Mirror m s) (jobId : String) :
    s.applyJobs.find jobId = (m.applyJobs.find jobId).map applyRow := Table.find_image (fun _ => rfl) h.applyJobs jobId

theorem Mirror.find_plans {m : Memory} {s : Postgres} (h : Mirror m s) (planId : String) :
    s.plans.find planId = (m.plans.find planId).map planRow := Table.find_image (fun _ => rfl) h.plans planId

theorem mirror_empty : Mirror .empty .empty := by
  refine ⟨rfl, fun _ _ => rfl, rfl, rfl, rfl, rfl, rfl, ?_, ?_, ?_, ?_, ?_⟩ <;> exact fun _ h => by cases h

/-- The two give the same reply and mirror each other afterwards. -/
def Agrees (le : String → String → Bool) (call : RepositoryCall) (m : Memory) (s : Postgres) : Prop :=
  (s.call le call).1 = (m.call call).1 ∧ Mirror (m.call call).2 (s.call le call).2

-- the equations of both sides, made once for all the lemmas below
attribute [local simp] Agrees Memory.call Postgres.call Memory.serve Postgres.serve

/-! ## Jobs -/

section Jobs
variable {m : Memory} {s : Postgres}

theorem suits_of_active {a : ApplyJobRecord} {j j' : JobRecord} (h : a.Suits j) (hactive : j.active = true)
    (hop : j'.operation = j.operation) (hplan : j'.planId = j.planId) : a.Suits j' := by
  obtain ⟨hv, hp⟩ := h
  have hnone : a.result = none := by
    by_contra hr
    have := hv.completed (Option.isSome_iff_ne_none.2 hr)
    simp [JobRecord.active, this, JobState.active] at hactive
  refine ⟨⟨hop.trans hv.operation, hv.revised, hv.unique, ?_, ?_, ?_⟩, hplan.trans hp⟩ <;> simp [hnone]

/-- The jobs of both become these. -/
theorem Mirror.withJobs (h : Mirror m s) {jobs : JobTable}
    (hsuited : ∀ r ∈ m.applyJobs.rows, ∃ j, jobs.find r.job.jobId = some j ∧ r.Suits j) (hclear : ∀ j ∈ jobs.rows, j.Clear) :
    Mirror { m with jobs } { s with jobs } :=
  ⟨h.plans, h.candidates, h.moveResults, rfl, h.applyJobs, h.moveJournal, h.cloudMoveOperations, h.resultKept, h.journalKept,
    h.operationKept, hsuited, hclear⟩

theorem mem_put {t : JobTable} {r j : JobRecord} (h : j ∈ (t.put r).rows) : j = r ∨ j ∈ t.rows := by
  have hfind := Table.find_eq_some.2 ⟨h, rfl⟩
  rw [Table.find_put] at hfind
  split at hfind
  · exact .inl (Option.some.inj hfind).symm
  · exact .inr (Table.mem_of_find hfind)

/-- One job is written; an apply record of it still suits. -/
theorem Mirror.putJob (h : Mirror m s) {r : JobRecord} (hclear : r.Clear)
    (hsuit : ∀ a ∈ m.applyJobs.rows, ∀ j, m.jobs.find r.jobId = some j → a.job.jobId = r.jobId → a.Suits j → a.Suits r) :
    Mirror { m with jobs := m.jobs.put r } { s with jobs := m.jobs.put r } := by
  refine h.withJobs (fun a ha => ?_) fun j hj => ?_
  · obtain ⟨j, hj, hs⟩ := h.suited a ha
    rw [Table.find_put]
    split
    · rename_i hk
      exact ⟨r, rfl, hsuit a ha j (hk ▸ hj) hk.symm hs⟩
    · exact ⟨j, hj, hs⟩
  · rcases mem_put hj with rfl | hj
    · exact hclear
    · exact h.clear j hj

/-- An active job is written in place, for the same operation and plan. -/
theorem Mirror.putActive (h : Mirror m s) {j r : JobRecord} (hj : m.jobs.find r.jobId = some j) (hactive : j.active = true)
    (hclear : r.Clear) (hop : r.operation = j.operation) (hplan : r.planId = j.planId) :
    Mirror { m with jobs := m.jobs.put r } { s with jobs := m.jobs.put r } := by
  refine h.putJob hclear fun a _ j' hj' _ hs => ?_
  cases hj.symm.trans hj'
  exact suits_of_active hs hactive hop hplan

/-- A write of the owner finds its job, or nothing. -/
theorem owned_cases (t : JobTable) (jobId owner : String) (now : Time) :
    ((t.find jobId).filter (·.owned owner now) = none ∧ t.matched jobId (·.owned owner now) = false) ∨
      ∃ j, (t.find jobId).filter (·.owned owner now) = some j ∧ t.find jobId = some j ∧ j.owned owner now = true ∧
        t.matched jobId (·.owned owner now) = true := by
  cases hj : t.find jobId with
  | none => exact .inl ⟨rfl, by simp [Table.matched, hj]⟩
  | some j =>
    cases ho : j.owned owner now with
    | false => exact .inl ⟨by simp [ho], by simp [Table.matched, hj, ho]⟩
    | true => exact .inr ⟨j, by simp [ho], rfl, ho, by simp [Table.matched, hj, ho]⟩

/-- An apply job is written with its record. -/
theorem Mirror.putApply (h : Mirror m s) {record : ApplyJobRecord}
    (hclear : record.job.Clear) :
    Mirror { m with jobs := m.jobs.put record.job, applyJobs := m.applyJobs.put record }
      { s with jobs := m.jobs.put record.job, applyJobs := s.applyJobs.put (applyRow record) } := by
  refine ⟨h.plans, h.candidates, h.moveResults, rfl, ?_, h.moveJournal, h.cloudMoveOperations, h.resultKept,
    h.journalKept, h.operationKept, fun a ha => ?_, fun j hj' => ?_⟩
  · exact Table.put_image (g := applyRow) (fun _ => rfl) h.applyJobs record
  · have hfind : (m.applyJobs.put record).find a.job.jobId = some a := Table.find_eq_some.2 ⟨ha, rfl⟩
    rw [Table.find_put] at hfind ⊢
    split at hfind
    · cases hfind
      exact ⟨_, if_pos rfl, record.valid, rfl⟩
    · rename_i hk
      obtain ⟨j, hj', hs⟩ := h.suited a (Table.mem_of_find hfind)
      exact ⟨j, (if_neg hk).trans hj', hs⟩
  · rcases mem_put hj' with rfl | hj'
    · exact hclear
    · exact h.clear j hj'

variable {le : String → String → Bool} {owner : String} {now : Time} {maxActive : Nat}

theorem agrees_enqueue (h : Mirror m s) {record : JobRecord} (hfits : record.fits = true) (hclear : record.Clear) :
    Agrees le (.job owner now maxActive (.enqueue record)) m s := by
  have hid : textFits record.jobId = true := by
    simp only [JobRecord.fits, Bool.and_eq_true] at hfits
    exact hfits.1.1.1.1
  simp only [Agrees, Memory.call, Postgres.call, Memory.serve, Postgres.serve, Memory.enqueueJob, Postgres.enqueueJob,
    Postgres.executeSaveJob, requireFit, hid, hfits, if_true, ok_bind, pure_bind, h.jobs]
  split
  · exact ⟨rfl, h⟩
  · rename_i hrefused
    rw [not_or, Option.not_isSome_iff_eq_none] at hrefused
    refine ⟨rfl, h.putJob hclear fun a _ j hj => ?_⟩
    rw [hrefused.2] at hj
    cases hj

theorem agrees_claim (h : Mirror m s) (hle : le = codePointLe) (howner : textFits owner = true) {lease : Time}
    {locked : String → Bool} (hlocked : ∀ jobId, locked jobId = false) :
    Agrees le (.job owner now maxActive (.claim lease locked)) m s := by
  subst hle
  have hall : (m.jobs.queued codePointLe).filter (fun j => !locked j.jobId) = m.jobs.queued codePointLe := by
    simp [hlocked]
  simp only [Agrees, Memory.call, Postgres.call, Memory.serve, Postgres.serve, Memory.claimNextJob, Postgres.claimNextJob,
    h.jobs, hall]
  cases hq : m.jobs.queued codePointLe with
  | nil => exact ⟨rfl, h⟩
  | cons row rest =>
    obtain ⟨hj, hqueued⟩ := mem_queued (hq ▸ List.mem_cons_self)
    have hactive := active_of_queued hqueued
    have hnone : row.errorCode = none := h.clear row (Table.mem_of_find hj) hactive
    have hclaimed : replaceJob row .running now none (some owner) (some lease) none =
        { row with state := .running, updatedAt := now, ownerId := some owner, leaseExpiresAt := some lease } := by
      simp [replaceJob, hnone]
    simp only [requireFit, howner, if_true, ok_bind]
    rw [Table.modify_eq_put _ hj (by simp [hqueued]), hclaimed]
    exact ⟨rfl, h.putActive hj hactive (fun _ => hnone) rfl rfl⟩

theorem agrees_enqueueApply (h : Mirror m s) {record : ApplyJobRecord} (hfits : record.job.fits = true)
    (hrev : textFits record.revision = true) (hclear : record.job.Clear) :
    Agrees le (.job owner now maxActive (.enqueueApply record)) m s := by
  have hid : textFits record.job.jobId = true := by
    simp only [JobRecord.fits, Bool.and_eq_true] at hfits
    exact hfits.1.1.1.1
  simp only [Agrees, Memory.call, Postgres.call, Memory.serve, Postgres.serve, Memory.enqueueApplyJob,
    Postgres.enqueueApplyJob, Postgres.executeSaveJob, requireFit, hid, hfits, hrev, if_true, ok_bind, pure_bind, h.jobs, h.find_applyJobs]
  cases hj : m.jobs.find record.job.jobId with
  | some existingJob =>
    cases ha : m.applyJobs.find record.job.jobId with
    | none => exact ⟨rfl, h⟩
    | some existing =>
      obtain ⟨ha, hkey⟩ := Table.find_eq_some.1 ha
      obtain ⟨j, hj', -, hplan⟩ := h.suited existing ha
      cases (hkey ▸ hj').symm.trans hj
      simp only [Option.map_some, applyRow, hplan]
      split
      · cases hmake : ApplyJobRecord.make existingJob existing.revision existing.candidateIds existing.result with
        | error e => simp only [Postgres.applyJobFromRow, hmake]; exact ⟨rfl, h⟩
        | ok r => simp only [Postgres.applyJobFromRow, hmake]; exact ⟨rfl, h⟩
      · exact ⟨rfl, h⟩
  | none =>
    have hno : m.applyJobs.find record.job.jobId = none := by
      rw [Table.find_eq_none]
      intro a ha hk
      obtain ⟨j, hj', -⟩ := h.suited a ha
      rw [hk, hj] at hj'
      cases hj'
    simp only [hno, Option.map_none]
    split
    · exact ⟨rfl, h⟩
    · exact ⟨rfl, h.putApply hclear⟩

theorem agrees_renew (h : Mirror m s) (howner : textFits owner = true) {jobId : String} (hid : textFits jobId = true)
    {lease : Time} : Agrees le (.job owner now maxActive (.renew jobId lease)) m s := by
  simp only [Agrees, Memory.call, Postgres.call, Memory.serve, Postgres.serve, Memory.renewOwnedJobLease,
    Postgres.renewOwnedJobLease, Postgres.updateOwned, requireFit, howner, hid, Bool.and_self, if_true, ok_bind, h.jobs]
  rcases owned_cases m.jobs jobId owner now with ⟨hnone, hm⟩ | ⟨j, hsome, hj, ho, hm⟩
  · rw [hnone, hm, Table.modify_of_not _ hm, ← h.jobs]
    exact ⟨rfl, h⟩
  · obtain ⟨howned, hrunning, -⟩ := owned_iff.1 ho
    have hclear : j.errorCode = none := h.clear j (Table.mem_of_find hj) (active_of_owned ho)
    have hrenewed : replaceJob j .running now none (some owner) (some lease) (some j.progress) =
        { j with updatedAt := now, leaseExpiresAt := some lease } := by
      simp [replaceJob, hclear, howned, hrunning]
    rw [hsome, hm, Table.modify_eq_put _ hj ho]
    simp only [hrenewed]
    exact ⟨rfl, h.putActive (Table.find_key hj ▸ hj) (active_of_owned ho) (fun _ => hclear) rfl rfl⟩

theorem agrees_report (h : Mirror m s) (howner : textFits owner = true) {jobId : String} (hid : textFits jobId = true)
    {progress : JobProgress} (hfits : progress.fits = true) :
    Agrees le (.job owner now maxActive (.report jobId progress)) m s := by
  simp only [Agrees, Memory.call, Postgres.call, Memory.serve, Postgres.serve, Memory.updateOwnedJobProgress,
    Postgres.updateOwnedJobProgress, Postgres.updateOwned, requireFit, howner, hid, hfits, Bool.and_self, if_true, ok_bind,
    h.jobs]
  rcases owned_cases m.jobs jobId owner now with ⟨hnone, hm⟩ | ⟨j, hsome, hj, ho, hm⟩
  · rw [hnone, hm, Table.modify_of_not _ hm, ← h.jobs]
    exact ⟨rfl, h⟩
  · obtain ⟨howned, hrunning, -⟩ := owned_iff.1 ho
    have hclear : j.errorCode = none := h.clear j (Table.mem_of_find hj) (active_of_owned ho)
    have hreported : replaceJob j .running j.updatedAt none (some owner) j.leaseExpiresAt (some progress) =
        { j with progress } := by
      simp [replaceJob, hclear, howned, hrunning]
    rw [hsome, hm, Table.modify_eq_put _ hj ho]
    simp only [hreported]
    exact ⟨rfl, h.putActive (Table.find_key hj ▸ hj) (active_of_owned ho) (fun _ => hclear) rfl rfl⟩

theorem agrees_cancel (h : Mirror m s) {jobId : String} (hid : textFits jobId = true) :
    Agrees le (.job owner now maxActive (.cancel jobId)) m s := by
  simp only [Agrees, Memory.call, Postgres.call, Memory.serve, Postgres.serve, Memory.cancelJob, Postgres.cancelJob,
    requireFit, hid, if_true, ok_bind, h.jobs]
  cases hj : m.jobs.find jobId with
  | none => exact ⟨rfl, h⟩
  | some j =>
    dsimp only
    split
    · exact ⟨rfl, h⟩
    · split
      · exact ⟨rfl, h⟩
      · split
        · exact ⟨rfl, h⟩
        · rename_i hactive
          have hactive : j.active = true := by simpa using hactive
          have hid' := Table.find_key hj
          rw [Table.modify_eq_put _ hj hactive, Table.find_put, if_pos hid']
          exact ⟨rfl, h.putActive (hid' ▸ hj) hactive (fun h => by cases h) rfl rfl⟩

theorem agrees_failExpired (h : Mirror m s) {errorCode : String} (hfits : textFits errorCode = true) :
    Agrees le (.job owner now maxActive (.failExpired errorCode)) m s := by
  simp only [Agrees, Memory.call, Postgres.call, Memory.serve, Postgres.serve, Memory.failExpiredJobs,
    Postgres.failExpiredJobs, requireFit, hfits, if_true, ok_bind, h.jobs]
  refine ⟨rfl, h.withJobs (fun a ha => ?_) fun j hj => ?_⟩
  · obtain ⟨j, hj, hs⟩ := h.suited a ha
    have hfind := Table.find_update m.jobs (·.expired now) (Memory.expiredJob now errorCode) (fun _ => rfl) a.job.jobId
    rw [hj, Option.map_some] at hfind
    refine ⟨_, hfind, ?_⟩
    split
    · rename_i he
      exact suits_of_active hs (active_of_expired he) rfl rfl
    · exact hs
  · obtain ⟨j₀, hj₀, rfl⟩ := List.mem_map.1 hj
    split
    · exact fun hactive => by cases hactive
    · exact h.clear j₀ hj₀

theorem agrees_finish (h : Mirror m s) (howner : textFits owner = true) {jobId : String} (hid : textFits jobId = true)
    {state : JobState} {errorCode : Option String} (herr : errorCode.all textFits = true) {progress : JobProgress}
    (hfits : progress.fits = true) (hstate : state.active = true → errorCode = none) {applyResult : Option ApplyResult} :
    Agrees le (.job owner now maxActive (.finish jobId state errorCode progress applyResult)) m s := by
  simp only [Agrees, Memory.call, Postgres.call, Memory.serve, Postgres.serve, Memory.finishOwnedJob,
    Postgres.finishOwnedJob, Postgres.updateOwned, requireFit, howner, hid, herr, hfits, Bool.and_self, if_true, ok_bind,
    h.jobs]
  -- only the owner of a live lease writes, and both repositories tell it alike
  rcases owned_cases m.jobs jobId owner now with ⟨hnone, hm⟩ | ⟨j, hsome, hj, ho, hm⟩
  · rw [hnone, hm]
    exact ⟨rfl, h⟩
  · rw [hsome, hm]
    have hkey := Table.find_key hj
    have hfinished : replaceJob j state now errorCode none none (some progress) =
        { j with state, updatedAt := now, errorCode, ownerId := none, leaseExpiresAt := none, progress } := rfl
    have hclear : (replaceJob j state now errorCode none none (some progress)).Clear := hstate
    cases applyResult with
    | none =>
      dsimp only
      rw [Table.modify_eq_put _ hj ho]
      exact ⟨rfl, h.putActive (hkey ▸ hj) (active_of_owned ho) hclear rfl rfl⟩
    | some result =>
      rw [Table.modify_eq_put _ hj ho, ← hfinished]
      simp only [Table.find_put, h.find_applyJobs, if_pos (show (replaceJob j state now errorCode none none (some progress)).jobId = jobId from hkey)]
      cases ha : m.applyJobs.find jobId with
      | none => exact ⟨rfl, h⟩
      | some applyJob =>
        simp only [Option.map_some, applyRow]
        cases hmake : ApplyJobRecord.make (replaceJob j state now errorCode none none (some progress)) applyJob.revision
            applyJob.candidateIds (some result) with
        | error e => exact ⟨rfl, h⟩
        | ok finished =>
          -- the row that is updated in place is the one the record is put under
          obtain ⟨hjob, hrev, hcands, hres⟩ := ApplyJobRecord.make_ok hmake
          have hrow : s.applyJobs.find jobId = some (applyRow applyJob) := by rw [h.find_applyJobs, ha, Option.map_some]
          have hid' : finished.job.jobId = applyJob.job.jobId := by rw [hjob, Table.find_key ha]; exact hkey
          have hstored : s.applyJobs.modify jobId (fun _ => true) (fun r => { r with result := some result }) (fun _ => rfl) =
              s.applyJobs.put (applyRow finished) := by
            rw [Table.modify_eq_put _ hrow rfl]
            simp only [applyRow, hid', hrev, hcands, hres]
          rw [← hjob]
          simp only [ok_bind, hstored]
          exact ⟨rfl, h.putApply (hjob ▸ hclear)⟩

theorem agrees_saveJob (h : Mirror m s) {record : JobRecord} (hfits : record.fits = true) (hclear : record.Clear)
    (hsuit : ∀ r, m.applyJobs.find record.jobId = some r → r.Suits record) : Agrees le (.saveJob record) m s := by
  simp only [Agrees, Memory.call, Postgres.call, Memory.saveJob, Postgres.saveJob, Postgres.executeSaveJob, requireFit, hfits,
    if_true, ok_bind, h.jobs]
  exact ⟨rfl, h.putJob hclear fun a ha _ _ hid _ => hsuit a (Table.find_eq_some.2 ⟨ha, hid⟩)⟩

end Jobs

/-! ## Moves -/

/-- Both raise, or both write and mirror each other afterwards. -/
inductive Both : Except RepositoryError Memory → Except RepositoryError Postgres → Prop
  | raised {e e'} : Both (.error e) (.error e')
  | wrote {m s} (mirror : Mirror m s) : Both (.ok m) (.ok s)

section Moves
variable {m : Memory} {s : Postgres} {le : String → String → Bool}

theorem Mirror.putResult (h : Mirror m s) {planId : String} {result : MoveResult}
    (hc : (m.getCandidate planId result.candidateId).isSome) :
    Mirror { m with moveResults := m.moveResults.put (planId, result) }
      { s with moveResults := m.moveResults.put (planId, result) } := by
  refine ⟨h.plans, h.candidates, rfl, h.jobs, h.applyJobs, h.moveJournal, h.cloudMoveOperations, fun r hr => ?_,
    h.journalKept, h.operationKept, h.suited, h.clear⟩
  have hfind : (m.moveResults.put (planId, result)).find (r.1, r.2.candidateId) = some r := Table.find_eq_some.2 ⟨hr, rfl⟩
  rw [Table.find_put] at hfind
  split at hfind
  · cases hfind
    exact hc
  · exact h.resultKept r (Table.mem_of_find hfind)

theorem Mirror.putJournal (h : Mirror m s) {record : MoveJournalRecord}
    (hc : (m.getCandidate record.planId record.candidateId).isSome) :
    Mirror { m with moveJournal := m.moveJournal.put record } { s with moveJournal := m.moveJournal.put record } := by
  refine ⟨h.plans, h.candidates, h.moveResults, h.jobs, h.applyJobs, rfl, h.cloudMoveOperations, h.resultKept,
    fun r hr => ?_, h.operationKept, h.suited, h.clear⟩
  have hfind : (m.moveJournal.put record).find (r.planId, r.candidateId) = some r := Table.find_eq_some.2 ⟨hr, rfl⟩
  rw [Table.find_put] at hfind
  split at hfind
  · cases hfind
    exact hc
  · exact h.journalKept r (Table.mem_of_find hfind)

theorem Mirror.putOperation (h : Mirror m s) {record : CloudMoveOperationRecord}
    (hc : (m.getCandidate record.planId record.candidateId).isSome) :
    Mirror { m with cloudMoveOperations := m.cloudMoveOperations.put record }
      { s with cloudMoveOperations := m.cloudMoveOperations.put record } := by
  refine ⟨h.plans, h.candidates, h.moveResults, h.jobs, h.applyJobs, h.moveJournal, rfl, h.resultKept, h.journalKept,
    fun r hr => ?_, h.suited, h.clear⟩
  have hfind : (m.cloudMoveOperations.put record).find (r.planId, r.candidateId) = some r :=
    Table.find_eq_some.2 ⟨hr, rfl⟩
  rw [Table.find_put] at hfind
  split at hfind
  · cases hfind
    exact hc
  · exact h.operationKept r (Table.mem_of_find hfind)

theorem Both.reply {x : Except RepositoryError Memory} {y : Except RepositoryError Postgres} (hb : Both x y) (h : Mirror m s) :
    (s.wrote y).1 = (Memory.call.wrote m x).1 ∧ Mirror (Memory.call.wrote m x).2 (s.wrote y).2 := by
  cases hb with
  | raised => exact ⟨rfl, h⟩
  | wrote h' => exact ⟨rfl, h'⟩

/-- The candidate both have, or neither. -/
theorem Mirror.candidate_cases (h : Mirror m s) (planId candidateId : String) :
    (s.candidates.find (planId, candidateId) = none ∧ m.getCandidate planId candidateId = none) ∨
      ∃ p c, s.candidates.find (planId, candidateId) = some (p, c) ∧ m.getCandidate planId candidateId = some c := by
  have hc := h.candidates planId candidateId
  cases hf : s.candidates.find (planId, candidateId) with
  | none => exact .inl ⟨rfl, by rw [← hc, hf]; rfl⟩
  | some r => exact .inr ⟨r.1, r.2, rfl, by rw [← hc, hf]; rfl⟩

theorem both_insertMoveResult (h : Mirror m s) {planId : String} {result : MoveResult} (hp : textFits planId = true)
    (hc : textFits result.candidateId = true) : Both (m.saveMoveResult planId result) (s.insertMoveResult planId result) := by
  simp only [Memory.saveMoveResult, Memory.requireMatchingCandidate, Memory.requireCandidate, Postgres.insertMoveResult,
    requireFit, hp, hc, Bool.and_self, if_true, ok_bind]
  rcases h.candidate_cases planId result.candidateId with ⟨hs, hm⟩ | ⟨p, c, hs, hm⟩
  · rw [hs, hm]
    exact .raised
  · simp only [hs, hm, ok_bind]
    by_cases hv : c.videoId ≠ result.videoId
    · rw [if_pos hv, if_pos hv]
      exact .raised
    · rw [if_neg hv, if_neg hv, h.moveResults]
      exact .wrote (h.putResult (by simp [hm]))

theorem both_saveMoveJournal (h : Mirror m s) {record : MoveJournalRecord} (hp : textFits record.planId = true)
    (hc : textFits record.candidateId = true) : Both (m.saveMoveJournal record) (s.saveMoveJournal record) := by
  simp only [Memory.saveMoveJournal, Memory.requireCandidate, Postgres.saveMoveJournal, requireFit, hp, hc, Bool.and_self,
    if_true, ok_bind, h.moveJournal]
  rcases h.candidate_cases record.planId record.candidateId with ⟨hs, hm⟩ | ⟨p, c, hs, hm⟩
  · rw [hs, hm]
    exact .raised
  · simp only [hs, hm, ok_bind]
    split
    · exact .raised
    · exact .wrote (h.putJournal (by simp [hm]))

/-- With the paths of the stored operation, an upsert stores the record. -/
theorem upsertOperation_eq {record : CloudMoveOperationRecord} {current : Option CloudMoveOperationRecord}
    (hkey : ∀ row ∈ current, (row.planId, row.candidateId) = (record.planId, record.candidateId))
    (hattempt : current.any (fun row => row.attemptId ≠ record.attemptId) = false)
    (hpaths : ∀ row ∈ current, row.sourcePath = record.sourcePath ∧ row.destinationDir = record.destinationDir) :
    Postgres.upsertOperation record current = record := by
  cases current with
  | none => rfl
  | some row =>
    have hk := hkey row rfl
    have hp := hpaths row rfl
    have ha : row.attemptId = record.attemptId := by simpa using hattempt
    obtain ⟨planId, candidateId, attemptId, sourcePath, destinationDir, state, updatedAt, errorCode, named, coded⟩ := record
    obtain ⟨planId', candidateId', attemptId', sourcePath', destinationDir', state', updatedAt', errorCode', named', coded'⟩ := row
    simp only [Prod.mk.injEq] at hk
    obtain ⟨rfl, rfl⟩ := hk
    obtain ⟨rfl, rfl⟩ := hp
    cases ha
    rfl

theorem operation_key {t : OperationTable} {k : String × String} {row : CloudMoveOperationRecord} (h : t.find k = some row) :
    (row.planId, row.candidateId) = k := by
  have hkey := Table.find_key h
  exact hkey

theorem both_saveOperation (h : Mirror m s) {record : CloudMoveOperationRecord} (hfits : record.fits = true)
    (hpaths : m.SamePaths record) :
    Both (m.saveCloudMoveOperationLocked record) (s.executeSaveCloudMoveOperation record) := by
  have hids : (textFits record.planId && textFits record.candidateId) = true := by
    simp only [CloudMoveOperationRecord.fits, Bool.and_eq_true] at hfits ⊢
    exact hfits.1.1.1.1
  simp only [Memory.saveCloudMoveOperationLocked, Memory.requireCandidate, Postgres.executeSaveCloudMoveOperation, requireFit,
    hids, hfits, if_true, ok_bind, h.cloudMoveOperations]
  rcases h.candidate_cases record.planId record.candidateId with ⟨hs, hm⟩ | ⟨p, c, hs, hm⟩
  · rw [hs, hm]
    exact .raised
  · simp only [hs, hm, ok_bind]
    cases c.cloud with
    | none => exact .raised
    | some cloud =>
      dsimp only
      split
      · exact .raised
      · split
        · exact .raised
        · split
          · exact .raised
          · rename_i hattempt
            rw [upsertOperation_eq (fun row hr => operation_key hr) (by simpa using hattempt) hpaths]
            split
            · exact .raised
            · exact .wrote (h.putOperation (by simp [hm]))

theorem both_saveCloudMoveOperation (h : Mirror m s) {record : CloudMoveOperationRecord} (hfits : record.fits = true)
    (hpaths : m.SamePaths record) : Both (m.saveCloudMoveOperation record) (s.saveCloudMoveOperation record) := by
  simp only [Memory.saveCloudMoveOperation, Postgres.saveCloudMoveOperation]
  split
  · exact .raised
  · exact both_saveOperation h hfits hpaths

/-- Saving an operation leaves the plans. -/
theorem plans_saveOperation {record : CloudMoveOperationRecord} {m' : Memory}
    (h : m.saveCloudMoveOperationLocked record = .ok m') : m'.plans = m.plans := by
  simp only [Memory.saveCloudMoveOperationLocked] at h
  cases hc : m.requireCandidate record.planId record.candidateId with
  | error e =>
    rw [hc] at h
    cases h
  | ok c =>
    rw [hc, ok_bind] at h
    cases hcloud : c.cloud with
    | none =>
      rw [hcloud] at h
      cases h
    | some cloud =>
      simp only [hcloud] at h
      split at h
      · cases h
      · split at h
        · cases h
        · split at h
          · cases h
          · split at h
            · cases h
            · cases h
              rfl

theorem both_finalizeCloudMove (h : Mirror m s) {operation : CloudMoveOperationRecord} {result : MoveResult}
    (hfits : operation.fits = true) (hpaths : m.SamePaths operation) :
    Both (m.finalizeCloudMove operation result) (s.finalizeCloudMove operation result) := by
  have hids : textFits operation.planId = true ∧ textFits operation.candidateId = true := by
    simp only [CloudMoveOperationRecord.fits, Bool.and_eq_true] at hfits
    exact hfits.1.1.1.1
  simp only [Memory.finalizeCloudMove, Postgres.finalizeCloudMove]
  cases ht : operation.state.terminal with
  | false => exact .raised
  | true =>
    by_cases hid : operation.candidateId = result.candidateId
    · simp only [Bool.not_true, Bool.false_eq_true, if_false, hid, ne_eq, not_true_eq_false]
      have hb := both_saveOperation h hfits hpaths
      generalize hm : m.saveCloudMoveOperationLocked operation = x at hb
      generalize s.executeSaveCloudMoveOperation operation = y at hb
      cases hb with
      | raised => cases m.requireMatchingCandidate operation.planId result.candidateId result.videoId <;> exact .raised
      | wrote h' =>
        rename_i m' s'
        -- the plans are those of before, so the candidate is checked alike before and after
        have hinsert := both_insertMoveResult h' hids.1 (hid ▸ hids.2)
        have hsame : m'.requireMatchingCandidate operation.planId result.candidateId result.videoId =
            m.requireMatchingCandidate operation.planId result.candidateId result.videoId := by
          simp only [Memory.requireMatchingCandidate, Memory.requireCandidate, Memory.getCandidate, plans_saveOperation hm]
        simp only [Memory.saveMoveResult, hsame] at hinsert
        simp only [ok_bind]
        cases hr : m.requireMatchingCandidate operation.planId result.candidateId result.videoId with
        | error e =>
          rw [hr] at hinsert
          exact hinsert
        | ok u =>
          rw [hr] at hinsert
          exact hinsert
    · simp only [Bool.not_true, Bool.false_eq_true, if_false, if_pos hid,
        if_pos (show result.candidateId ≠ operation.candidateId from Ne.symm hid)]
      cases m.requireMatchingCandidate operation.planId result.candidateId result.videoId <;> exact .raised

end Moves

/-! ## Plans -/

section Plans
variable {m m' m'' : Memory} {s : Postgres} {le : String → String → Bool}

/-- What holds of the candidate's row is said of its plan and its id. -/
theorem Mirror.any_candidate (h : Mirror m s) {p c : String} (hc : (m.getCandidate p c).isSome) (q : String → String → Bool) :
    (s.candidates.find (p, c)).any (fun r => q r.1 r.2.candidateId) = q p c := by
  rcases h.candidate_cases p c with ⟨-, hm⟩ | ⟨p', c', hs, -⟩
  · rw [hm] at hc
    cases hc
  · have hkey : (p', c'.candidateId) = (p, c) := by
      have := Table.find_key hs
      exact this
    cases hkey
    rw [hs]
    rfl

theorem getCandidate_isSome {p c : String} (h : (m.getCandidate p c).isSome) : (m.plans.find p).isSome := by
  unfold Memory.getCandidate at h
  cases hp : m.plans.find p with
  | none =>
    rw [hp] at h
    cases h
  | some _ => rfl

/-- The rows of the plan's candidates, upserted one by one. -/
theorem find_upserts (planId : String) (cs : List CandidateRecord) (hn : (cs.map (·.candidateId)).Nodup)
    (t : Table (String × CandidateRecord) (String × String) fun r => (r.1, r.2.candidateId)) (p c : String) :
    (cs.foldl (fun t c => t.put (planId, c)) t).find (p, c) =
      if p = planId then ((cs.find? (·.candidateId = c)).map fun r => (planId, r)).or (t.find (p, c)) else t.find (p, c) := by
  induction cs generalizing t with
  | nil => simp
  | cons c₀ cs ih =>
    obtain ⟨hnew, hn⟩ := List.nodup_cons.1 hn
    rw [List.foldl_cons, ih hn, Table.find_put]
    by_cases hp : p = planId
    · subst hp
      by_cases hc : c₀.candidateId = c
      · have hnone : cs.find? (·.candidateId = c) = none := by
          rw [List.find?_eq_none]
          intro r hr hrc
          exact hnew (List.mem_map.2 ⟨r, hr, (of_decide_eq_true hrc).trans hc.symm⟩)
        simp [hc, hnone]
      · simp [hc]
    · have hne : ¬ planId = p := Ne.symm hp
      simp [hp, hne]

theorem agrees_savePlan (h : Mirror m s) {record : PlanRecord} (hfits : record.fits = true) :
    Agrees le (.savePlan record) m s := by
  simp only [Agrees, Memory.call, Postgres.call, Memory.savePlan, Postgres.savePlan, Postgres.deleteCandidates, requireFit,
    hfits, if_true, ok_bind, h.moveResults, h.moveJournal, h.cloudMoveOperations]
  -- a dependent stays when its candidate is not one of the deleted rows
  have kept : ∀ p c, (m.getCandidate p c).isSome →
      (!(s.candidates.find (p, c)).any fun r =>
        decide (r.1 = record.plan.planId) && decide (r.2.candidateId ∉ record.candidates.map (·.candidateId))) =
      (decide (p ≠ record.plan.planId) || decide (c ∈ record.candidates.map (·.candidateId))) := by
    intro p c hc
    rw [h.any_candidate hc fun p c => decide (p = record.plan.planId) && decide (c ∉ record.candidates.map (·.candidateId)),
      Bool.eq_iff_iff]
    simp only [Bool.not_eq_true', Bool.and_eq_false_iff, decide_eq_false_iff_not, not_not, Bool.or_eq_true,
      decide_eq_true_eq, ne_eq]
  have found : ∀ p c, { m with plans := m.plans.put record }.getCandidate p c =
      if p = record.plan.planId then record.candidate c else m.getCandidate p c := by
    intro p c
    simp only [Memory.getCandidate, Table.find_put]
    by_cases hp : p = record.plan.planId
    · simp [hp]
    · simp [hp, Ne.symm hp]
  -- a candidate of the plan is one of the record's
  have still : ∀ p c, (m.getCandidate p c).isSome →
      (decide (p ≠ record.plan.planId) || decide (c ∈ record.candidates.map (·.candidateId))) = true →
      ({ m with plans := m.plans.put record }.getCandidate p c).isSome := by
    intro p c hc hk
    rw [found]
    split
    · rename_i hp
      simp only [hp, ne_eq, not_true_eq_false, decide_false, Bool.false_or, decide_eq_true_eq] at hk
      obtain ⟨r, hr, rfl⟩ := List.mem_map.1 hk
      simp only [PlanRecord.candidate, List.find?_isSome, decide_eq_true_eq]
      exact ⟨r, hr, rfl⟩
    · exact hc
  refine ⟨rfl, ?_, fun p c => ?_, ?_, h.jobs, h.applyJobs, ?_, ?_, fun r hr => ?_, fun r hr => ?_, fun r hr => ?_, h.suited, h.clear⟩
  · exact Table.put_image (g := planRow) (fun _ => rfl) h.plans record
  · refine Eq.trans ?_ (found p c).symm
    refine (congrArg (Option.map (·.2)) (find_upserts record.plan.planId record.candidates record.valid.unique _ p c)).trans ?_
    rw [Table.find_keep]
    by_cases hp : p = record.plan.planId
    · rw [if_pos hp, if_pos hp]
      simp only [PlanRecord.candidate]
      cases hc : record.candidates.find? (·.candidateId = c) with
      | some r => rfl
      | none =>
        -- a row of the plan that is not one of the record's candidates is deleted
        have hgone : ∀ r ∈ record.candidates, ¬ r.candidateId = c := fun r hr hrc =>
          List.find?_eq_none.1 hc r hr (decide_eq_true hrc)
        cases hs : s.candidates.find (p, c) with
        | none => rfl
        | some r =>
          have hkey : (r.1, r.2.candidateId) = (p, c) := by
            have := Table.find_key hs
            exact this
          simp only [Prod.mk.injEq] at hkey
          simpa [hkey.1, hkey.2, hp] using hgone
    · rw [if_neg hp, if_neg hp, ← h.candidates p c]
      cases hs : s.candidates.find (p, c) with
      | none => rfl
      | some r =>
        have hkey : (r.1, r.2.candidateId) = (p, c) := by
          have := Table.find_key hs
          exact this
        simp only [Prod.mk.injEq] at hkey
        rw [Option.filter_some_pos (by simp [hkey.1, hp])]
  · exact Table.keep_congr fun r hr => kept _ _ (h.resultKept r hr)
  · exact Table.keep_congr fun r hr => kept _ _ (h.journalKept r hr)
  · exact Table.keep_congr fun r hr => kept _ _ (h.operationKept r hr)
  · obtain ⟨hr, hk⟩ := List.mem_filter.1 hr
    exact still _ _ (h.resultKept r hr) hk
  · obtain ⟨hr, hk⟩ := List.mem_filter.1 hr
    exact still _ _ (h.journalKept r hr) hk
  · obtain ⟨hr, hk⟩ := List.mem_filter.1 hr
    exact still _ _ (h.operationKept r hr) hk

/-- These plans were dropped from the dictionaries, and their dependents with them. -/
structure Dropped (ps : String → Bool) (m m' : Memory) : Prop where
  plans : m'.plans = m.plans.keep fun r => !ps r.plan.planId
  moveResults : m'.moveResults = m.moveResults.keep fun r => !ps r.1
  moveJournal : m'.moveJournal = m.moveJournal.keep fun r => !ps r.planId
  cloudMoveOperations : m'.cloudMoveOperations = m.cloudMoveOperations.keep fun r => !ps r.planId
  jobs : m'.jobs = m.jobs.update (fun j => j.planId.any ps) withoutPlan withoutPlan_jobId
  applyJobs : m'.applyJobs.rows.map applyRow = m.applyJobs.rows.map applyRow
  suited : ∀ r ∈ m'.applyJobs.rows, ∃ j, m'.jobs.find r.job.jobId = some j ∧ r.Suits j

theorem dropped_none (hs : ∀ r ∈ m.applyJobs.rows, ∃ j, m.jobs.find r.job.jobId = some j ∧ r.Suits j) :
    Dropped (fun _ => false) m m := by
  refine ⟨?_, ?_, ?_, ?_, ?_, rfl, hs⟩
  · exact (Table.keep_eq_self fun _ _ => rfl).symm
  · exact (Table.keep_eq_self fun _ _ => rfl).symm
  · exact (Table.keep_eq_self fun _ _ => rfl).symm
  · exact (Table.keep_eq_self fun _ _ => rfl).symm
  · refine (Table.update_eq_self _ fun j _ => ?_).symm
    cases j.planId <;> rfl

/-- Some plans, then some more. -/
theorem Dropped.trans {ps qs : String → Bool} (h : Dropped ps m m') (h' : Dropped qs m' m'') :
    Dropped (fun p => ps p || qs p) m m'' := by
  refine ⟨?_, ?_, ?_, ?_, ?_, h'.applyJobs.trans h.applyJobs, h'.suited⟩
  · rw [h'.plans, h.plans, Table.keep_keep]
    exact Table.keep_congr fun r _ => by simp
  · rw [h'.moveResults, h.moveResults, Table.keep_keep]
    exact Table.keep_congr fun r _ => by simp
  · rw [h'.moveJournal, h.moveJournal, Table.keep_keep]
    exact Table.keep_congr fun r _ => by simp
  · rw [h'.cloudMoveOperations, h.cloudMoveOperations, Table.keep_keep]
    exact Table.keep_congr fun r _ => by simp
  · rw [h'.jobs, h.jobs]
    refine Table.ext_rows ?_
    simp only [Table.update, List.map_map]
    refine List.map_congr_left fun j _ => ?_
    have either : (j.planId.any fun p => ps p || qs p) = (j.planId.any ps || j.planId.any qs) := by
      generalize j.planId = o
      cases o <;> rfl
    -- a job whose plan was forgotten has none to forget
    cases hps : j.planId.any ps <;> cases hqs : j.planId.any qs <;> simp [Function.comp, either, hps, hqs, withoutPlan]

theorem mapM_ok {α β : Type} {f : α → Except RepositoryError β} {l : List α} (h : ∀ a ∈ l, ∃ b, f a = .ok b) :
    ∃ bs, l.mapM f = .ok bs := by
  induction l with
  | nil => exact ⟨[], rfl⟩
  | cons a l ih =>
    obtain ⟨b, hb⟩ := h a List.mem_cons_self
    obtain ⟨bs, hbs⟩ := ih fun a ha => h a (List.mem_cons_of_mem _ ha)
    exact ⟨b :: bs, by rw [List.mapM_cons, hb, ok_bind, hbs]; rfl⟩

/-- Where every apply record can be built again, it is, and nothing of its row changes. -/
theorem rebuildApplyJobs_ok (hv : ∀ a ∈ m.applyJobs.rows, ∃ j, m.jobs.find a.job.jobId = some j ∧
      ApplyJobRecord.Valid j a.revision a.candidateIds a.result) :
    ∃ applyJobs, m.rebuildApplyJobs = (.ok (), { m with applyJobs }) ∧
      applyJobs.rows.map applyRow = m.applyJobs.rows.map applyRow ∧
      ∀ a ∈ applyJobs.rows, ∃ j, m.jobs.find a.job.jobId = some j ∧ a.Suits j := by
  have built : ∀ a ∈ m.applyJobs.rows, ∃ j h, m.jobs.find a.job.jobId = some j ∧
      m.withJob a = .ok ⟨j, a.revision, a.candidateIds, a.result, h⟩ := by
    intro a ha
    obtain ⟨j, hj, hvalid⟩ := hv a ha
    exact ⟨j, hvalid, hj, by simp [Memory.withJob, hj, ApplyJobRecord.make, hvalid]⟩
  obtain ⟨bs, hbs⟩ := mapM_ok (f := m.withJob) fun a ha => by
    obtain ⟨j, h, -, hok⟩ := built a ha
    exact ⟨_, hok⟩
  refine ⟨m.applyJobs.update (fun _ => true) m.refreshed m.refreshed_jobId, by simp only [Memory.rebuildApplyJobs, hbs], ?_,
    fun a ha => ?_⟩
  · simp only [Table.update, List.map_map]
    refine List.map_congr_left fun a ha => ?_
    obtain ⟨j, h, hj, hok⟩ := built a ha
    have hkey := Table.find_key hj
    simp [Function.comp, Memory.refreshed, hok, applyRow, hkey]
  · obtain ⟨a₀, ha₀, rfl⟩ := List.mem_map.1 ha
    obtain ⟨j, h, hj, hok⟩ := built a₀ ha₀
    have hkey := Table.find_key hj
    refine ⟨j, ?_, ?_⟩
    · simp [Memory.refreshed, hok, hkey, hj]
    · simp only [if_true, Memory.refreshed, hok]
      exact ⟨h, rfl⟩

/-- Where every apply record suits its job, dropping a plan does not raise. -/
theorem dropPlan_ok (hs : ∀ r ∈ m.applyJobs.rows, ∃ j, m.jobs.find r.job.jobId = some j ∧ r.Suits j) (planId : String) :
    ∃ m', m.dropPlan planId = (.ok (), m') ∧ Dropped (· = planId) m m' := by
  have hjobs : m.jobs.update (fun j => j.planId = some planId) withoutPlan (fun _ => rfl) =
      m.jobs.update (fun j => j.planId.any (· = planId)) withoutPlan withoutPlan_jobId := by
    refine Table.update_congr _ _ fun j _ => ?_
    have : (j.planId.any fun p => decide (p = planId)) = decide (j.planId = some planId) := by
      generalize j.planId = o
      cases o <;> simp
    rw [this]
  -- the job of an apply record can take its place, with or without its plan
  have valid : ∀ a ∈ m.applyJobs.rows,
      ∃ j, (m.jobs.update (fun j => j.planId = some planId) withoutPlan withoutPlan_jobId).find a.job.jobId = some j ∧
        ApplyJobRecord.Valid j a.revision a.candidateIds a.result := by
    intro a ha
    obtain ⟨j, hj, hv, -⟩ := hs a ha
    have hfind := Table.find_update m.jobs (fun j => j.planId = some planId) withoutPlan (fun _ => rfl) a.job.jobId
    rw [hj, Option.map_some] at hfind
    refine ⟨_, hfind, ?_⟩
    split
    · exact ⟨hv.operation, hv.revised, hv.unique, hv.completed, hv.sameRevision, fun _ _ p hp => by cases hp⟩
    · exact hv
  obtain ⟨applyJobs, hok, hrows, hsuited⟩ := rebuildApplyJobs_ok
    (m := { m with plans := m.plans.keep fun r => r.plan.planId ≠ planId }.forgetPlan planId) valid
  refine ⟨_, hok, ?_, ?_, ?_, ?_, hjobs, hrows, hsuited⟩
  · exact Table.keep_congr fun r _ => by simp
  · exact Table.keep_congr fun r _ => by simp
  · exact Table.keep_congr fun r _ => by simp
  · exact Table.keep_congr fun r _ => by simp

theorem dropPlans_ok (planIds : List String)
    (hs : ∀ r ∈ m.applyJobs.rows, ∃ j, m.jobs.find r.job.jobId = some j ∧ r.Suits j) :
    ∃ m', Memory.dropPlans planIds m = (.ok (), m') ∧ Dropped (fun p => p ∈ planIds) m m' := by
  induction planIds generalizing m with
  | nil => exact ⟨m, rfl, by simpa using dropped_none hs⟩
  | cons planId rest ih =>
    obtain ⟨m₁, h₁, hd₁⟩ := dropPlan_ok hs planId
    obtain ⟨m₂, h₂, hd₂⟩ := ih hd₁.suited
    refine ⟨m₂, ?_, ?_⟩
    · simp only [Memory.dropPlans, h₁]
      exact h₂
    · simpa using hd₁.trans hd₂

/-- The database drops the same plans. -/
theorem Mirror.dropped (h : Mirror m s) {ps : String → Bool} (hd : Dropped ps m m') :
    Mirror m' ((s.forgetPlans ps).deletePlans ps) := by
  have stored : ∀ p c, (m.getCandidate p c).isSome → (s.plans.find p).isSome := fun p c hc => by
    rw [h.find_plans, Option.isSome_map]
    exact getCandidate_isSome hc
  -- a dependent stays when its plan does
  have kept : ∀ p c, (m.getCandidate p c).isSome →
      (!(s.candidates.find (p, c)).any fun r => ps r.1 && (s.plans.find r.1).isSome) = !ps p := by
    intro p c hc
    rw [h.any_candidate hc fun p _ => ps p && (s.plans.find p).isSome, stored p c hc, Bool.and_true]
  have found : ∀ p c, m'.getCandidate p c = if ps p then none else m.getCandidate p c := by
    intro p c
    simp only [Memory.getCandidate, hd.plans, Table.find_keep]
    cases hp : m.plans.find p with
    | none => simp
    | some r =>
      have hkey : r.plan.planId = p := by
        have := Table.find_key hp
        exact this
      cases hps : ps p with
      | false => rw [Option.filter_some_pos (by simp [hkey, hps])]; rfl
      | true => rw [Option.filter_some_neg (by simp [hkey, hps])]; rfl
  have still : ∀ p c, (m.getCandidate p c).isSome → ps p = false → (m'.getCandidate p c).isSome := by
    intro p c hc hps
    rw [found, hps]
    exact hc
  refine ⟨?_, fun p c => ?_, ?_, ?_, ?_, ?_, ?_, fun r hr => ?_, fun r hr => ?_, fun r hr => ?_, hd.suited, fun j hj => ?_⟩
  · rw [hd.plans]
    exact Table.keep_image (g := planRow) h.plans fun _ => rfl
  · refine Eq.trans (congrArg (Option.map (·.2)) (Table.find_keep s.candidates _ (p, c))) ?_
    rw [found]
    rcases h.candidate_cases p c with ⟨hs, hm⟩ | ⟨p', c', hs, hm⟩
    · rw [hs, hm]
      split <;> rfl
    · have hkey : (p', c'.candidateId) = (p, c) := by
        have := Table.find_key hs
        exact this
      have hstored := stored p c (by rw [hm]; rfl)
      cases hkey
      rw [hs, hm]
      cases hps : ps p with
      | false => rw [Option.filter_some_pos (by simp [Postgres.forgetPlans, hps])]; rfl
      | true => rw [Option.filter_some_neg (by simp [Postgres.forgetPlans, hps, hstored])]; rfl
  · rw [hd.moveResults, ← h.moveResults]
    exact Table.keep_congr fun r hr => kept _ _ (h.resultKept r (h.moveResults ▸ hr))
  · rw [hd.jobs, ← h.jobs]
    rfl
  · rw [hd.applyJobs]
    exact h.applyJobs
  · rw [hd.moveJournal, ← h.moveJournal]
    exact Table.keep_congr fun r hr => kept _ _ (h.journalKept r (h.moveJournal ▸ hr))
  · rw [hd.cloudMoveOperations, ← h.cloudMoveOperations]
    exact Table.keep_congr fun r hr => kept _ _ (h.operationKept r (h.cloudMoveOperations ▸ hr))
  · rw [hd.moveResults] at hr
    obtain ⟨hr, hk⟩ := List.mem_filter.1 hr
    exact still _ _ (h.resultKept r hr) (by simpa using hk)
  · rw [hd.moveJournal] at hr
    obtain ⟨hr, hk⟩ := List.mem_filter.1 hr
    exact still _ _ (h.journalKept r hr) (by simpa using hk)
  · rw [hd.cloudMoveOperations] at hr
    obtain ⟨hr, hk⟩ := List.mem_filter.1 hr
    exact still _ _ (h.operationKept r hr) (by simpa using hk)
  · rw [hd.jobs] at hj
    obtain ⟨j₀, hj₀, rfl⟩ := List.mem_map.1 hj
    split
    · exact h.clear j₀ hj₀
    · exact h.clear j₀ hj₀

theorem Mirror.blocked (h : Mirror m s) (planId : String) : s.blocked planId = m.busy planId := by
  have hjobs : (fun j : JobRecord => decide (j.planId = some planId) && decide (j.operation = .apply) && j.active) =
      fun j => decide (j.operation = .apply) && decide (j.planId = some planId) && j.active := by
    funext j
    rw [Bool.and_comm (decide (j.planId = some planId))]
  simp only [Postgres.blocked, Memory.busy, h.moveJournal, h.cloudMoveOperations, h.jobs, hjobs]

theorem agrees_deletePlan (h : Mirror m s) {planId : String} (hfits : textFits planId = true)
    (hstored : m.busy planId = false → m.plans.find planId = none → ∀ j ∈ m.jobs.rows, j.planId ≠ some planId) :
    Agrees le (.deletePlan planId) m s := by
  simp only [Agrees, Memory.call, Postgres.call, Memory.deletePlan, Postgres.deletePlan, requireFit, hfits, if_true, ok_bind,
    h.blocked]
  cases hb : m.busy planId with
  | true => exact ⟨rfl, h⟩
  | false =>
    obtain ⟨m', hok, hd⟩ := dropPlan_ok h.suited planId
    cases hp : m.plans.find planId with
    | some r =>
      have hexists : (s.plans.find planId).isSome = true := by rw [h.find_plans, hp]; rfl
      simp only [Option.isNone_some, Bool.false_eq_true, if_false, hok, hexists]
      exact ⟨rfl, h.dropped hd⟩
    | none =>
      have hexists : (s.plans.find planId).isSome = false := by rw [h.find_plans, hp]; rfl
      simp only [Option.isNone_none, if_true, Bool.false_eq_true, if_false, hexists]
      -- there is nothing to drop
      have foreign : ∀ p c, (m.getCandidate p c).isSome → (!decide (p = planId)) = true := by
        intro p c hc
        have := getCandidate_isSome hc
        simp only [Bool.not_eq_true', decide_eq_false_iff_not]
        rintro rfl
        rw [hp] at this
        cases this
      refine ⟨rfl, h.dropped ⟨?_, ?_, ?_, ?_, ?_, rfl, h.suited⟩⟩
      · exact (Table.keep_eq_self fun r hr => by simpa using Table.find_eq_none.1 hp r hr).symm
      · exact (Table.keep_eq_self fun r hr => foreign _ _ (h.resultKept r hr)).symm
      · exact (Table.keep_eq_self fun r hr => foreign _ _ (h.journalKept r hr)).symm
      · exact (Table.keep_eq_self fun r hr => foreign _ _ (h.operationKept r hr)).symm
      · refine (Table.update_eq_self _ fun j hj => ?_).symm
        have hne := hstored hb hp j hj
        generalize j.planId = o at hne ⊢
        cases o with
        | none => rfl
        | some p => simpa using hne

theorem agrees_purgeExpiredPlans (h : Mirror m s) {now : Time} : Agrees le (.purgeExpiredPlans now) m s := by
  have hids : (s.plans.rows.filter fun r => r.plan.expiresAt ≤ now && !s.blocked r.plan.planId).map (·.plan.planId) =
      (m.plans.rows.filter fun r => r.plan.expiresAt ≤ now && !m.busy r.plan.planId).map (·.plan.planId) := by
    simp only [h.plans, List.filter_map, List.map_map, h.blocked]
    rfl
  simp only [Agrees, Memory.call, Postgres.call, Memory.purgeExpiredPlans, Postgres.purgeExpiredPlans, hids]
  generalize (m.plans.rows.filter fun r => r.plan.expiresAt ≤ now && !m.busy r.plan.planId).map (·.plan.planId) = planIds
  obtain ⟨m', hok, hd⟩ := dropPlans_ok planIds h.suited
  simp only [hok]
  split
  · rename_i hnil
    subst hnil
    cases hok
    exact ⟨rfl, h⟩
  · exact ⟨rfl, h.dropped hd⟩

end Plans

/-! ## Every call, and every run -/

theorem agrees {le : String → String → Bool} (hle : le = codePointLe) {m : Memory} {s : Postgres} (h : Mirror m s)
    {call : RepositoryCall} (hc : m.Agreeable call) : Agrees le call m s := by
  cases call with
  | savePlan record => exact agrees_savePlan h hc
  | deletePlan planId => exact agrees_deletePlan h hc.1 hc.2
  | purgeExpiredPlans now => exact agrees_purgeExpiredPlans h
  | saveMoveResult planId result => exact (both_insertMoveResult h hc.1 hc.2).reply h
  | saveJob record => exact agrees_saveJob h hc.1 hc.2.1 hc.2.2
  | job owner now maxActive call =>
    obtain ⟨howner, hc⟩ := hc
    cases call with
    | enqueue record => exact agrees_enqueue h hc.1 hc.2
    | enqueueApply record => exact agrees_enqueueApply h hc.1 hc.2.1 hc.2.2
    | claim lease locked => exact agrees_claim h hle howner hc
    | renew jobId lease => exact agrees_renew h howner hc
    | report jobId progress => exact agrees_report h howner hc.1 hc.2
    | finish jobId state errorCode progress applyResult =>
      exact agrees_finish h howner hc.1 hc.2.1 hc.2.2.1 hc.2.2.2
    | cancel jobId => exact agrees_cancel h hc
    | failExpired errorCode => exact agrees_failExpired h hc
  | saveMoveJournal record => exact (both_saveMoveJournal h hc.1 hc.2).reply h
  | saveCloudMoveOperation record => exact (both_saveCloudMoveOperation h hc.1 hc.2).reply h
  | finalizeCloudMove operation result => exact (both_finalizeCloudMove h hc.1 hc.2).reply h

/-- Both repositories, after the same calls from an empty store. -/
inductive Reach (le : String → String → Bool) : Memory → Postgres → Prop
  | start : Reach le .empty .empty
  | call {m s} {c : RepositoryCall} : Reach le m s → m.Agreeable c → Reach le (m.call c).2 (s.call le c).2

/-- The two answer every get and list call alike, a plan's candidates up to their order. -/
structure Alike (le : String → String → Bool) (m : Memory) (s : Postgres) : Prop where
  getPlan : ∀ planId, textFits planId →
    match m.getPlan planId with
    | none => s.getPlan le planId = .ok none
    | some r => ∃ r', s.getPlan le planId = .ok (some r') ∧ r'.plan = r.plan ∧ r'.configVersion = r.configVersion ∧
        r'.candidates.Perm r.candidates
  getCandidate : ∀ planId candidateId, textFits planId → textFits candidateId →
    s.getCandidate planId candidateId = .ok (m.getCandidate planId candidateId)
  getMoveResult : ∀ planId candidateId, textFits planId → textFits candidateId →
    s.getMoveResult planId candidateId = .ok (m.getMoveResult planId candidateId)
  listMoveResults : ∀ planId, textFits planId → s.listMoveResults le planId = .ok (m.listMoveResults planId)
  getApplyJob : ∀ jobId, textFits jobId →
    s.getApplyJob jobId = m.getApplyJob jobId
  getJob : ∀ jobId, textFits jobId → s.getJob jobId = .ok (m.getJob jobId)
  listJobs : ∀ states, s.listJobs le states = m.listJobs states
  getMoveJournal : ∀ planId candidateId, textFits planId → textFits candidateId →
    s.getMoveJournal planId candidateId = .ok (m.getMoveJournal planId candidateId)
  listUnreconciledMoves : s.listUnreconciledMoves le = m.listUnreconciledMoves
  getCloudMoveOperation : ∀ planId candidateId, textFits planId → textFits candidateId →
    s.getCloudMoveOperation planId candidateId = .ok (m.getCloudMoveOperation planId candidateId)
  listUnresolvedCloudMoves : s.listUnresolvedCloudMoves le = m.listUnresolvedCloudMoves

theorem insertionSort_congr {α : Type} {r r' : α → α → Prop} [DecidableRel r] [DecidableRel r'] {l : List α}
    (h : ∀ a ∈ l, ∀ b ∈ l, r a b ↔ r' a b) : l.insertionSort r = l.insertionSort r' := by
  have insert : ∀ {a : α} {l : List α}, (∀ b ∈ l, r a b ↔ r' a b) → l.orderedInsert r a = l.orderedInsert r' a := by
    intro a l hl
    induction l with
    | nil => rfl
    | cons b l ih =>
      simp only [List.orderedInsert_cons, hl b List.mem_cons_self, ih fun c hc => hl c (List.mem_cons_of_mem _ hc)]
  induction l with
  | nil => rfl
  | cons a l ih =>
    rw [List.insertionSort_cons, List.insertionSort_cons,
      ih fun b hb c hc => h b (List.mem_cons_of_mem _ hb) c (List.mem_cons_of_mem _ hc)]
    exact insert fun b hb => h a List.mem_cons_self b (List.mem_cons_of_mem _ ((List.mem_insertionSort _).1 hb))

/-- With unique ids, a candidate is found by its own. -/
theorem find?_candidate {cs : List CandidateRecord} (hn : (cs.map (·.candidateId)).Nodup) {c : String} {x : CandidateRecord} :
    cs.find? (·.candidateId = c) = some x ↔ x ∈ cs ∧ x.candidateId = c := by
  refine ⟨fun h => ⟨List.mem_of_find?_eq_some h, by simpa using List.find?_some h⟩, fun ⟨hx, hc⟩ => ?_⟩
  cases h : cs.find? (·.candidateId = c) with
  | none => exact absurd hc (by simpa using List.find?_eq_none.1 h x hx)
  | some y =>
    have hy : y.candidateId = c := by simpa using List.find?_some h
    rw [List.inj_on_of_nodup_map hn (List.mem_of_find?_eq_some h) hx (hy.trans hc.symm)]

theorem PlanRecord.Valid.perm {plan : FillActorPlan} {cs cs' : List CandidateRecord} (h : Valid plan cs) (hp : cs'.Perm cs) :
    Valid plan cs' := by
  have unique : (cs'.map (·.candidateId)).Nodup := (hp.map _).nodup_iff.2 h.unique
  refine ⟨unique, fun c hc => ?_⟩
  have hfind : cs'.find? (·.candidateId = c) = cs.find? (·.candidateId = c) := by
    refine Option.ext fun x => ?_
    rw [find?_candidate unique, find?_candidate h.unique, hp.mem_iff]
  rw [hfind]
  refine h.matching c ?_
  rcases List.mem_append.1 hc with hc | hc
  · exact List.mem_append_left _ ((hp.map _).mem_iff.1 hc)
  · exact List.mem_append_right _ hc

/-- The rows of a stored plan's candidates, in some order. -/
theorem Mirror.candidatesOf_perm {m : Memory} {s : Postgres} (h : Mirror m s) (le : String → String → Bool) {planId : String}
    {r : PlanRecord} (hr : m.plans.find planId = some r) : (s.candidatesOf le planId).Perm r.candidates := by
  have sorted : (s.candidatesOf le planId).Perm ((s.candidates.rows.filter fun x => x.1 = planId).map (·.2)) :=
    (List.perm_insertionSort _ _).map _
  refine sorted.trans ((List.perm_ext_iff_of_nodup ?_ (List.Nodup.of_map _ r.valid.unique)).2 fun x => ?_)
  · have keys : ((s.candidates.rows.filter fun x => x.1 = planId).map fun x => (x.1, x.2.candidateId)).Nodup :=
      s.candidates.nodup.sublist (List.filter_sublist.map _)
    rw [List.nodup_map_iff_inj_on (s.candidates.nodup.of_map.sublist List.filter_sublist)]
    intro a ha b hb hab
    have ha₁ := of_decide_eq_true (List.mem_filter.1 ha).2
    have hb₁ := of_decide_eq_true (List.mem_filter.1 hb).2
    exact Prod.ext (ha₁.trans hb₁.symm) hab
  · have hcand : m.getCandidate planId x.candidateId = r.candidate x.candidateId := by simp [Memory.getCandidate, hr]
    have hrel := h.candidates planId x.candidateId
    rw [hcand] at hrel
    constructor
    · intro hx
      obtain ⟨y, hy, rfl⟩ := List.mem_map.1 hx
      obtain ⟨hy, hp⟩ := List.mem_filter.1 hy
      have hfind : s.candidates.find (planId, y.2.candidateId) = some y :=
        Table.find_eq_some.2 ⟨hy, by rw [← of_decide_eq_true hp]⟩
      rw [hfind] at hrel
      exact ((find?_candidate r.valid.unique).1 hrel.symm).1
    · intro hx
      rw [show r.candidate x.candidateId = some x from (find?_candidate r.valid.unique).2 ⟨hx, rfl⟩] at hrel
      obtain ⟨y, hy, rfl⟩ := Option.map_eq_some_iff.1 hrel
      obtain ⟨hy, hkey⟩ := Table.find_eq_some.1 hy
      simp only [Prod.mk.injEq] at hkey
      exact List.mem_map.2 ⟨y, List.mem_filter.2 ⟨hy, decide_eq_true hkey.1⟩, rfl⟩

theorem Mirror.alike {le : String → String → Bool} (hle : le = codePointLe) {m : Memory} {s : Postgres} (h : Mirror m s) :
    Alike le m s where
  getPlan planId hp := by
    simp only [Memory.getPlan, Postgres.getPlan, requireFit, hp, if_true, ok_bind, h.find_plans]
    cases hr : m.plans.find planId with
    | none => rfl
    | some r =>
      have hperm := h.candidatesOf_perm le hr
      have hvalid := r.valid.perm hperm
      refine ⟨⟨r.plan, s.candidatesOf le planId, r.configVersion, hvalid⟩, ?_, rfl, rfl, hperm⟩
      simp only [Option.map_some, planRow, PlanRecord.make, hvalid, dif_pos]
      rfl
  getCandidate planId candidateId hp hc := by
    simp [Postgres.getCandidate, requireFit, hp, hc, h.candidates]
  getMoveResult planId candidateId hp hc := by
    simp [Postgres.getMoveResult, requireFit, hp, hc, h.moveResults, Memory.getMoveResult]
  listMoveResults planId hp := by
    simp only [Postgres.listMoveResults, requireFit, hp, if_true, ok_bind, Memory.listMoveResults, h.moveResults, hle, sortedBy]
    refine congrArg (fun rows => Except.ok (List.map _ rows)) (insertionSort_congr fun a ha b hb => ?_)
    have ha₁ := of_decide_eq_true (List.mem_filter.1 ha).2
    have hb₁ := of_decide_eq_true (List.mem_filter.1 hb).2
    simp [orderLe, textsLe, ha₁, hb₁]
  getApplyJob jobId hj := by
    simp only [Postgres.getApplyJob, requireFit, hj, if_true, ok_bind, h.find_applyJobs, h.jobs, Memory.getApplyJob]
    cases m.applyJobs.find jobId with
    | none => rfl
    | some a =>
      cases m.jobs.find jobId with
      | none => rfl
      | some j =>
        simp only [Option.map_some, applyRow, Postgres.applyJobFromRow]
        cases ApplyJobRecord.make j a.revision a.candidateIds a.result <;> rfl
  getJob jobId hj := by
    simp [Postgres.getJob, requireFit, hj, h.jobs, Memory.getJob]
  listJobs states := by simp [Postgres.listJobs, Memory.listJobs, h.jobs, hle]
  getMoveJournal planId candidateId hp hc := by
    simp [Postgres.getMoveJournal, requireFit, hp, hc, h.moveJournal, Memory.getMoveJournal]
  listUnreconciledMoves := by simp [Postgres.listUnreconciledMoves, Memory.listUnreconciledMoves, h.moveJournal, hle]
  getCloudMoveOperation planId candidateId hp hc := by
    simp [Postgres.getCloudMoveOperation, requireFit, hp, hc, h.cloudMoveOperations, Memory.getCloudMoveOperation]
  listUnresolvedCloudMoves := by
    simp [Postgres.listUnresolvedCloudMoves, Memory.listUnresolvedCloudMoves, h.cloudMoveOperations, hle]

theorem mirror_reach {le : String → String → Bool} (hle : le = codePointLe) {m : Memory} {s : Postgres} (h : Reach le m s) :
    Mirror m s := by
  induction h with
  | start => exact mirror_empty
  | call _ hc ih => exact (agrees hle ih hc).2

/-- Over a database that orders texts by code points, in every run whose calls reach none of the
differences, the two answer alike, and give the same reply to the next such call. -/
theorem repositories_agree {le : String → String → Bool} (hle : le = codePointLe) {m : Memory} {s : Postgres}
    (h : Reach le m s) : Alike le m s ∧ ∀ c, m.Agreeable c → (s.call le c).1 = (m.call c).1 :=
  ⟨(mirror_reach hle h).alike hle, fun _ hc => (agrees hle (mirror_reach hle h) hc).1⟩

/-! ## Deleting a plan that is not stored -/

/-- A plan is asked for and claimed, and its job reports that the library is being scanned. -/
def scanning : List RepositoryCall :=
  [.job "a" 5 2 (.enqueue (planJob "p" ["x"] 5)), .job "a" 6 2 (.claim 36 fun _ => false),
    .job "a" 7 2 (.report "p" ⟨.libraryScan, 0, none, .videos, none, 7, 7, by simp⟩)]

/-- A plan is asked for, and deleted before it is stored. -/
def deletedEarly : List RepositoryCall := [.job "a" 5 2 (.enqueue (planJob "p" ["x"] 5)), .deletePlan "p"]

def Memory.calls (cs : List RepositoryCall) (m : Memory) : Memory := cs.foldl (fun m c => (m.call c).2) m

def Postgres.calls (le : String → String → Bool) (cs : List RepositoryCall) (s : Postgres) : Postgres :=
  cs.foldl (fun s c => (s.call le c).2) s

theorem repositories_agree_scanning :
    Alike codePointLe (Memory.empty.calls scanning) (Postgres.empty.calls codePointLe scanning) := by
  refine (repositories_agree rfl (.call (.call (.call .start ?_) ?_) ?_)).1
  · exact ⟨by decide, by decide, fun _ => rfl⟩
  · exact ⟨by decide, fun _ => rfl⟩
  · exact ⟨by decide, by decide, by decide⟩

/-- The database forgets the plan of the job although there was no plan to delete. -/
theorem repositories_differ :
    ¬ Alike codePointLe (Memory.empty.calls deletedEarly) (Postgres.empty.calls codePointLe deletedEarly) := by
  intro h
  have hjob := h.getJob "p" (by decide)
  have hplan := congrArg (fun r => r.toOption.bind fun j => j.map (·.planId)) hjob
  exact absurd hplan (by decide)

end EmbyxManager.FillActor
