import EmbyxManager.FillActor.CloudMoves
/-!
# The journal of CloudDrive moves

What either repository makes of the calls of a move, and the invariant that every
action of a move keeps: which operations and results stand together, and what was
asked of CloudDrive before they came to stand.
-/

namespace EmbyxManager.FillActor

open Atom

/-- The primary key of an operation. -/
def CloudMoveOperationRecord.key (r : CloudMoveOperationRecord) : String × String := (r.planId, r.candidateId)

/-! ## What a move asks of a repository -/

namespace Backend

/-- The candidate under a key, as the backend has it. -/
def candidate : (b : Backend) → b.Store → String × String → Option CandidateRecord
  | memory => fun m k => m.getCandidate k.1 k.2
  | postgres _ => fun s k => (s.candidates.find k).map (·.2)

/-- The operations on CloudDrive, one a candidate. -/
def operations : (b : Backend) → b.Store → OperationTable
  | memory => Memory.cloudMoveOperations
  | postgres _ => Postgres.cloudMoveOperations

/-- The operation of a candidate. -/
def operation (b : Backend) (s : b.Store) (k : String × String) : Option CloudMoveOperationRecord := (b.operations s).find k

/-- The results of moves, one a candidate. -/
def moveResults : (b : Backend) → b.Store → ResultTable
  | memory => Memory.moveResults
  | postgres _ => Postgres.moveResults

/-- The result of a candidate's move. -/
def moveResult (b : Backend) (s : b.Store) (k : String × String) : Option MoveResult := ((b.moveResults s).find k).map (·.2)

/-- The journals of local moves, one a candidate. -/
def journals : (b : Backend) → b.Store → JournalTable
  | memory => Memory.moveJournal
  | postgres _ => Postgres.moveJournal

/-- The journal of a candidate's move. -/
def journal (b : Backend) (s : b.Store) (k : String × String) : Option MoveJournalRecord := (b.journals s).find k

/-- `get_plan` of either repository. -/
def getPlan : (b : Backend) → String → b.Store → Except RepositoryError (Option PlanRecord)
  | memory => fun planId m => .ok (m.getPlan planId)
  | postgres le => Postgres.getPlan le

/-- `get_candidate` of either repository. -/
def getCandidate : (b : Backend) → String → String → b.Store → Except RepositoryError (Option CandidateRecord)
  | memory => fun planId candidateId m => .ok (m.getCandidate planId candidateId)
  | postgres _ => Postgres.getCandidate

/-- `get_move_result` of either repository. -/
def getMoveResult : (b : Backend) → String → String → b.Store → Except RepositoryError (Option MoveResult)
  | memory => fun planId candidateId m => .ok (m.getMoveResult planId candidateId)
  | postgres _ => Postgres.getMoveResult

/-- `get_cloud_move_operation` of either repository. -/
def getCloudMoveOperation : (b : Backend) → String → String → b.Store →
    Except RepositoryError (Option CloudMoveOperationRecord)
  | memory => fun planId candidateId m => .ok (m.getCloudMoveOperation planId candidateId)
  | postgres _ => Postgres.getCloudMoveOperation

/-- `list_unresolved_cloud_moves` of either repository. -/
def listUnresolvedCloudMoves : (b : Backend) → b.Store → List CloudMoveOperationRecord
  | memory => Memory.listUnresolvedCloudMoves
  | postgres le => Postgres.listUnresolvedCloudMoves le

/-- `get_move_journal` of either repository. -/
def getMoveJournal : (b : Backend) → String → String → b.Store → Except RepositoryError (Option MoveJournalRecord)
  | memory => fun planId candidateId m => .ok (m.getMoveJournal planId candidateId)
  | postgres _ => Postgres.getMoveJournal

/-- `save_move_journal` of either repository; what it leaves, or what it raises. -/
def saveMoveJournal : (b : Backend) → MoveJournalRecord → b.Store → Except RepositoryError b.Store
  | memory => Memory.saveMoveJournal
  | postgres _ => Postgres.saveMoveJournal

/-- `save_move_result` of either repository. -/
def saveMoveResult : (b : Backend) → String → MoveResult → b.Store → Except RepositoryError b.Store
  | memory => Memory.saveMoveResult
  | postgres _ => Postgres.saveMoveResult

/-- `save_cloud_move_operation` of either repository. -/
def saveCloudMoveOperation : (b : Backend) → CloudMoveOperationRecord → b.Store → Except RepositoryError b.Store
  | memory => Memory.saveCloudMoveOperation
  | postgres _ => Postgres.saveCloudMoveOperation

/-- `finalize_cloud_move` of either repository. -/
def finalizeCloudMove : (b : Backend) → CloudMoveOperationRecord → MoveResult → b.Store → Except RepositoryError b.Store
  | memory => Memory.finalizeCloudMove
  | postgres _ => Postgres.finalizeCloudMove

end Backend

/-! ## What a write that succeeds has done -/

section writes
variable {b : Backend} {E : Type}

/-- A write is done and answered, or raises; then it may have been done all the same. -/
def Written (s s' : b.Store) (write : Except RepositoryError b.Store) (r : Except E Unit) : Prop :=
  (r = .ok () ∧ write = .ok s') ∨ ((∃ e, r = .error e) ∧ (s' = s ∨ write = .ok s'))

/-- The three ends of a write. -/
theorem Written.cases {s s' : b.Store} {write : Except RepositoryError b.Store} {r : Except E Unit} (h : Written s s' write r) :
    s' = s ∧ (∃ e, r = .error e) ∨ write = .ok s' := by
  rcases h with ⟨-, hok⟩ | ⟨herr, rfl | hok⟩
  · exact .inr hok
  · exact .inl ⟨rfl, herr⟩
  · exact .inr hok

/-- A result, and nothing else, came to stand. -/
structure Recorded (k : String × String) (result : MoveResult) (s s' : b.Store) : Prop where
  result : ∀ k', b.moveResult s' k' = if k' = k then some result else b.moveResult s k'
  journal : ∀ k', b.journal s' k' = b.journal s k'
  operation : ∀ k', b.operation s' k' = b.operation s k'
  candidate : ∀ k', b.candidate s' k' = b.candidate s k'

/-- An operation, with the paths of its candidate, and nothing else came to stand; an
unresolved one is the only one of its source. -/
structure Journalled (record : CloudMoveOperationRecord) (s s' : b.Store) : Prop where
  placed : ∃ x cloud, b.candidate s record.key = some x ∧ x.cloud = some cloud ∧ record.sourcePath = cloud.sourcePath ∧
    record.destinationDir = cloud.destinationDir
  single : record.state.terminal = false → ∀ k row, k ≠ record.key → b.operation s k = some row →
    row.sourcePath = record.sourcePath → row.state.terminal = true
  operation : ∀ k, b.operation s' k = if k = record.key then some record else b.operation s k
  result : ∀ k, b.moveResult s' k = b.moveResult s k
  candidate : ∀ k, b.candidate s' k = b.candidate s k

/-- The stored operation has the paths of its candidate. -/
def Placed (C : String × String → Option CandidateRecord) (k : String × String) (row : CloudMoveOperationRecord) : Prop :=
  row.key = k ∧ ∃ x cloud, C k = some x ∧ x.cloud = some cloud ∧ row.sourcePath = cloud.sourcePath ∧
    row.destinationDir = cloud.destinationDir

theorem find_operation_put (t : OperationTable) (record : CloudMoveOperationRecord) (k : String × String) :
    (t.put record).find k = if k = record.key then some record else t.find k := by
  have hput := t.find_put record k
  rw [hput]
  by_cases h : k = record.key
  · exact (if_pos h.symm).trans (if_pos h).symm
  · exact (if_neg (Ne.symm h)).trans (if_neg h).symm

theorem find_result_put (t : ResultTable) (planId : String) (result : MoveResult) (k : String × String) :
    ((t.put (planId, result)).find k).map (·.2) =
      if k = (planId, result.candidateId) then some result else (t.find k).map (·.2) := by
  rw [Table.find_put]
  by_cases h : k = (planId, result.candidateId)
  · rw [if_pos h, if_pos h.symm]
    rfl
  · rw [if_neg h, if_neg (Ne.symm h)]

/-- No other row stands in the way of an unresolved operation. -/
theorem single_of_none {t : OperationTable} {record : CloudMoveOperationRecord}
    (h : ¬(!record.state.terminal && t.rows.any fun r =>
      (r.planId, r.candidateId) ≠ (record.planId, record.candidateId) && r.sourcePath = record.sourcePath &&
        !r.state.terminal) = true) (hlive : record.state.terminal = false) {k : String × String}
    {row : CloudMoveOperationRecord} (hk : k ≠ record.key) (hrow : t.find k = some row)
    (hsource : row.sourcePath = record.sourcePath) : row.state.terminal = true := by
  obtain ⟨hmem, hkey⟩ := Table.find_eq_some.1 hrow
  by_contra hopen
  refine h ?_
  rw [hlive, Bool.not_false, Bool.true_and, List.any_eq_true]
  refine ⟨row, hmem, ?_⟩
  have hne : (row.planId, row.candidateId) ≠ (record.planId, record.candidateId) := fun he => hk (hkey.symm.trans he)
  rw [Bool.and_eq_true, Bool.and_eq_true]
  exact ⟨⟨decide_eq_true hne, decide_eq_true hsource⟩, by simpa using hopen⟩

theorem Memory.journalled {record : CloudMoveOperationRecord} {m m' : Memory}
    (h : m.saveCloudMoveOperationLocked record = .ok m') : Journalled (b := .memory) record m m' := by
  simp only [Memory.saveCloudMoveOperationLocked, Memory.requireCandidate] at h
  cases hc : m.getCandidate record.planId record.candidateId with
  | none =>
    rw [hc] at h
    cases h
  | some x =>
    simp only [hc, ok_bind] at h
    cases hcloud : x.cloud with
    | none =>
      rw [hcloud] at h
      cases h
    | some cloud =>
      simp only [hcloud] at h
      split at h
      · cases h
      rename_i hpaths
      rw [not_or, not_ne_iff, not_ne_iff] at hpaths
      split at h
      · cases h
      split at h
      · cases h
      split at h
      · cases h
      rename_i hsingle
      cases h
      exact ⟨⟨x, cloud, hc, hcloud, hpaths.1.symm, hpaths.2.symm⟩, fun hlive k row hk hrow => single_of_none hsingle hlive hk hrow,
        find_operation_put m.cloudMoveOperations record, fun _ => rfl, fun _ => rfl⟩

theorem Postgres.journalled {le : String → String → Bool} {record : CloudMoveOperationRecord} {s s' : Postgres}
    (hplaced : ∀ k row, Backend.operation (.postgres le) s k = some row → Placed (Backend.candidate (.postgres le) s) k row)
    (h : s.executeSaveCloudMoveOperation record = .ok s') : Journalled (b := .postgres le) record s s' := by
  simp only [Postgres.executeSaveCloudMoveOperation, requireFit] at h
  split at h
  case isFalse => cases h
  rw [ok_bind] at h
  cases hc : s.candidates.find (record.planId, record.candidateId) with
  | none =>
    rw [hc] at h
    cases h
  | some r =>
    have hcand : Backend.candidate (.postgres le) s record.key = some r.2 := by
      change (s.candidates.find (record.planId, record.candidateId)).map (·.2) = some r.2
      rw [hc]
      rfl
    simp only [hc] at h
    cases hcloud : r.2.cloud with
    | none =>
      rw [hcloud] at h
      cases h
    | some cloud =>
      simp only [hcloud] at h
      split at h
      · cases h
      rename_i hpaths
      rw [not_or, not_ne_iff, not_ne_iff] at hpaths
      split at h
      · cases h
      split at h
      · cases h
      rename_i hattempt
      split at h
      case isFalse => cases h
      rw [ok_bind] at h
      -- the conflict clause keeps the stored paths, which are those of the candidate and so the record's
      have hrow : Postgres.upsertOperation record (s.cloudMoveOperations.find (record.planId, record.candidateId)) = record := by
        refine upsertOperation_eq (fun row hr => operation_key hr) (by simpa using hattempt) fun row hr => ?_
        obtain ⟨-, x', cloud', hx', hcloud', hsource, hdir⟩ := hplaced _ row hr
        obtain rfl : r.2 = x' := Option.some.inj (hcand.symm.trans hx')
        obtain rfl : cloud = cloud' := Option.some.inj (hcloud.symm.trans hcloud')
        exact ⟨hsource.trans hpaths.1, hdir.trans hpaths.2⟩
      rw [hrow] at h
      split at h
      · cases h
      rename_i hsingle
      cases h
      exact ⟨⟨r.2, cloud, hcand, hcloud, hpaths.1.symm, hpaths.2.symm⟩,
        fun hlive k row hk hrow => single_of_none hsingle hlive hk hrow, find_operation_put s.cloudMoveOperations record,
        fun _ => rfl, fun _ => rfl⟩

theorem Memory.recorded {planId : String} {result : MoveResult} {m m' : Memory} (h : m.saveMoveResult planId result = .ok m') :
    Recorded (b := .memory) (planId, result.candidateId) result m m' := by
  simp only [Memory.saveMoveResult] at h
  cases hc : m.requireMatchingCandidate planId result.candidateId result.videoId with
  | error e =>
    rw [hc] at h
    cases h
  | ok u =>
    rw [hc, ok_bind] at h
    cases h
    exact ⟨find_result_put m.moveResults planId result, fun _ => rfl, fun _ => rfl, fun _ => rfl⟩

theorem Postgres.recorded {le : String → String → Bool} {planId : String} {result : MoveResult} {s s' : Postgres}
    (h : s.insertMoveResult planId result = .ok s') :
    Recorded (b := .postgres le) (planId, result.candidateId) result s s' := by
  simp only [Postgres.insertMoveResult, requireFit] at h
  split at h
  case isFalse => cases h
  rw [ok_bind] at h
  cases hc : s.candidates.find (planId, result.candidateId) with
  | none =>
    rw [hc] at h
    cases h
  | some r =>
    simp only [hc] at h
    split at h
    · cases h
    · cases h
      exact ⟨find_result_put s.moveResults planId result, fun _ => rfl, fun _ => rfl, fun _ => rfl⟩

/-- A journal state, and nothing else, came to stand. -/
structure Stepped (record : MoveJournalRecord) (s s' : b.Store) : Prop where
  journal : ∀ k, b.journal s' k = if k = (record.planId, record.candidateId) then some record else b.journal s k
  result : ∀ k, b.moveResult s' k = b.moveResult s k

theorem find_journal_put (t : JournalTable) (record : MoveJournalRecord) (k : String × String) :
    (t.put record).find k = if k = (record.planId, record.candidateId) then some record else t.find k := by
  have hput := t.find_put record k
  rw [hput]
  by_cases h : k = (record.planId, record.candidateId)
  · exact (if_pos h.symm).trans (if_pos h).symm
  · exact (if_neg (Ne.symm h)).trans (if_neg h).symm

theorem Backend.stepped {record : MoveJournalRecord} {s s' : b.Store} (h : b.saveMoveJournal record s = .ok s') :
    Stepped record s s' := by
  cases b with
  | memory =>
    change Memory.saveMoveJournal record s = .ok s' at h
    simp only [Memory.saveMoveJournal] at h
    cases hc : Memory.requireCandidate record.planId record.candidateId s with
    | error e =>
      rw [hc] at h
      cases h
    | ok x =>
      rw [hc, ok_bind] at h
      split at h
      · cases h
      · cases h
        exact ⟨find_journal_put (Memory.moveJournal s) record, fun _ => rfl⟩
  | postgres le =>
    change Postgres.saveMoveJournal record s = .ok s' at h
    simp only [Postgres.saveMoveJournal, requireFit] at h
    split at h
    case isFalse => cases h
    rw [ok_bind] at h
    cases hc : Table.find (Postgres.candidates s) (record.planId, record.candidateId) with
    | none =>
      rw [hc] at h
      cases h
    | some r =>
      simp only [hc] at h
      split at h
      · cases h
      · cases h
        exact ⟨find_journal_put (Postgres.moveJournal s) record, fun _ => rfl⟩

theorem Backend.recorded {planId : String} {result : MoveResult} {s s' : b.Store}
    (h : b.saveMoveResult planId result s = .ok s') : Recorded (planId, result.candidateId) result s s' := by
  cases b with
  | memory => exact Memory.recorded h
  | postgres le => exact Postgres.recorded h

theorem Backend.journalled {record : CloudMoveOperationRecord} {s s' : b.Store}
    (hplaced : ∀ k row, b.operation s k = some row → Placed (b.candidate s) k row)
    (h : b.saveCloudMoveOperation record s = .ok s') : record.state.terminal = false ∧ Journalled record s s' := by
  cases b with
  | memory =>
    change Memory.saveCloudMoveOperation record s = .ok s' at h
    unfold Memory.saveCloudMoveOperation at h
    split at h
    · cases h
    · rename_i hlive
      exact ⟨by simpa using hlive, Memory.journalled h⟩
  | postgres le =>
    change Postgres.saveCloudMoveOperation record s = .ok s' at h
    unfold Postgres.saveCloudMoveOperation at h
    split at h
    · cases h
    · rename_i hlive
      exact ⟨by simpa using hlive, Postgres.journalled hplaced h⟩

/-- A finalized operation is terminal, and its result is stored with it. -/
theorem Backend.finalized {operation : CloudMoveOperationRecord} {result : MoveResult} {s s' : b.Store}
    (hplaced : ∀ k row, b.operation s k = some row → Placed (b.candidate s) k row)
    (h : b.finalizeCloudMove operation result s = .ok s') :
    operation.state.terminal = true ∧ ∃ s₁, Journalled operation s s₁ ∧ Recorded operation.key result s₁ s' := by
  cases b with
  | memory =>
    change Memory.finalizeCloudMove operation result s = .ok s' at h
    simp only [Memory.finalizeCloudMove] at h
    -- the checks come first, then the journal, then the result
    cases ht : operation.state.terminal with
    | false =>
      rw [ht] at h
      cases h
    | true =>
      rw [ht] at h
      cases hm : Memory.requireMatchingCandidate operation.planId result.candidateId result.videoId s with
      | error e =>
        rw [hm] at h
        cases h
      | ok u =>
        by_cases hid : result.candidateId = operation.candidateId
        · rw [hm] at h
          simp only [hid, Bool.not_true, Bool.false_eq_true, if_false, ne_eq, not_true_eq_false, ok_bind] at h
          cases hs : Memory.saveCloudMoveOperationLocked operation s with
          | error e =>
            rw [hs] at h
            cases h
          | ok m₁ =>
            rw [hs] at h
            cases h
            refine ⟨rfl, m₁, Memory.journalled hs, ⟨fun k => ?_, fun _ => rfl, fun _ => rfl, fun _ => rfl⟩⟩
            have hput := find_result_put m₁.moveResults operation.planId result k
            rw [hid] at hput
            exact hput
        · simp only [hm, Bool.not_true, Bool.false_eq_true, if_false, if_pos hid] at h
          cases h
  | postgres le =>
    change Postgres.finalizeCloudMove operation result s = .ok s' at h
    simp only [Postgres.finalizeCloudMove] at h
    cases ht : operation.state.terminal with
    | false =>
      rw [ht] at h
      cases h
    | true =>
      rw [ht] at h
      by_cases hid : operation.candidateId = result.candidateId
      · simp only [hid, Bool.not_true, Bool.false_eq_true, if_false, ne_eq, not_true_eq_false] at h
        cases hs : Postgres.executeSaveCloudMoveOperation operation s with
        | error e =>
          rw [hs] at h
          cases h
        | ok s₁ =>
          rw [hs] at h
          refine ⟨rfl, s₁, Postgres.journalled hplaced hs, ?_⟩
          have hrec : Recorded (b := postgres le) _ _ s₁ s' := Postgres.recorded h
          rw [← hid] at hrec
          exact hrec
      · simp only [Bool.not_true, Bool.false_eq_true, if_false, if_pos hid] at h
        cases h

end writes

/-! ## Reading the repository -/

section reads
variable {b : Backend} {s : b.Store} {planId candidateId : String}

theorem Backend.candidate_id {x : CandidateRecord} (h : b.candidate s (planId, candidateId) = some x) :
    x.candidateId = candidateId := by
  cases b with
  | memory =>
    obtain ⟨r, -, hx⟩ := Option.bind_eq_some_iff.1 h
    simpa using List.find?_some (show r.candidates.find? (fun c => c.candidateId = candidateId) = some x from hx)
  | postgres le =>
    obtain ⟨r, hr, rfl⟩ := Option.map_eq_some_iff.1 h
    have hkey := Table.find_key hr
    exact congrArg Prod.snd hkey

theorem Backend.getMoveResult_ok {a : Option MoveResult} (h : b.getMoveResult planId candidateId s = .ok a) :
    a = b.moveResult s (planId, candidateId) := by
  cases b with
  | memory => exact (Except.ok.inj h).symm
  | postgres le =>
    simp only [Backend.getMoveResult, Postgres.getMoveResult, requireFit] at h
    split at h
    · exact (Except.ok.inj h).symm
    · cases h

theorem Backend.getMoveJournal_ok {a : Option MoveJournalRecord} (h : b.getMoveJournal planId candidateId s = .ok a) :
    a = b.journal s (planId, candidateId) := by
  cases b with
  | memory => exact (Except.ok.inj h).symm
  | postgres le =>
    simp only [Backend.getMoveJournal, Postgres.getMoveJournal, requireFit] at h
    split at h
    · exact (Except.ok.inj h).symm
    · cases h

theorem Backend.getCloudMoveOperation_ok {a : Option CloudMoveOperationRecord}
    (h : b.getCloudMoveOperation planId candidateId s = .ok a) : a = b.operation s (planId, candidateId) := by
  cases b with
  | memory => exact (Except.ok.inj h).symm
  | postgres le =>
    simp only [Backend.getCloudMoveOperation, Postgres.getCloudMoveOperation, requireFit] at h
    split at h
    · exact (Except.ok.inj h).symm
    · cases h

theorem Backend.getCandidate_ok {a : Option CandidateRecord} (h : b.getCandidate planId candidateId s = .ok a) :
    a = b.candidate s (planId, candidateId) := by
  cases b with
  | memory => exact (Except.ok.inj h).symm
  | postgres le =>
    simp only [Backend.getCandidate, Postgres.getCandidate, requireFit] at h
    split at h
    · exact (Except.ok.inj h).symm
    · cases h

/-- A candidate of a plan that was read is one of the repository. -/
theorem Backend.getPlan_ok {r : PlanRecord} (h : b.getPlan planId s = .ok (some r)) {x : CandidateRecord}
    (hx : r.candidate candidateId = some x) : b.candidate s (planId, candidateId) = some x := by
  cases b with
  | memory =>
    have hr : Memory.getPlan planId s = some r := Except.ok.inj h
    exact Option.bind_eq_some_iff.2 ⟨r, hr, hx⟩
  | postgres le =>
    simp only [Backend.getPlan, Postgres.getPlan, requireFit] at h
    split at h
    case isFalse => cases h
    rw [ok_bind] at h
    cases hrow : Table.find (Postgres.plans s) planId with
    | none =>
      rw [hrow] at h
      cases h
    | some row =>
      simp only [hrow, PlanRecord.make] at h
      split at h
      case isFalse => cases h
      cases h
      obtain ⟨y, hy, rfl⟩ := List.mem_map.1 (List.mem_of_find?_eq_some hx)
      obtain ⟨hy, hplan⟩ := List.mem_filter.1 ((List.mem_insertionSort _).1 hy)
      have hid : y.2.candidateId = candidateId := by simpa using List.find?_some hx
      refine Option.map_eq_some_iff.2 ⟨y, Table.find_eq_some.2 ⟨hy, ?_⟩, rfl⟩
      exact Prod.ext (of_decide_eq_true hplan) hid

end reads

end EmbyxManager.FillActor
