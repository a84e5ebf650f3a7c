import EmbyxManager.FillActor.CloudJournal
/-!
# Runs of CloudDrive moves

Any number of processes apply plans and reconcile moves over one repository and one
CloudDrive, and any of them may stop at any action. `Sound` holds of everything they
reach: a move is submitted once, and its operation and its result agree.
-/

namespace EmbyxManager.FillActor

open Atom Prog

/-! ## The world -/

/-- What the world is asked that it will be held to: listings, submissions and writes. -/
def CloudOp.noted : CloudOp → Bool
  | listDirectory _ | moveFile .. | saveMoveResult .. | saveCloudMoveOperation _ | finalizeCloudMove .. => true
  | _ => false

/-- An action, its answer, and the repository it found. -/
structure CloudEntry (b : Backend) where
  op : CloudOp
  ans : Except CloudExc op.Res
  store : b.Store

/-- The repository, and what was asked, newest first. -/
structure CloudWorld (b : Backend) where
  store : b.Store
  log : List (CloudEntry b)

variable {b : Backend}

/-- The repository answers for itself; CloudDrive, the disk and the clock answer anything. -/
def Backend.answers (b : Backend) (s s' : b.Store) : (op : CloudOp) → Except CloudExc op.Res → Prop
  | .getPlan planId, r => s' = s ∧ ∀ a, r = .ok a → b.getPlan planId s = .ok a
  | .getCandidate planId candidateId, r => s' = s ∧ ∀ a, r = .ok a → b.getCandidate planId candidateId s = .ok a
  | .getMoveResult planId candidateId, r => s' = s ∧ ∀ a, r = .ok a → b.getMoveResult planId candidateId s = .ok a
  | .getCloudMoveOperation planId candidateId, r =>
    s' = s ∧ ∀ a, r = .ok a → b.getCloudMoveOperation planId candidateId s = .ok a
  | .listUnresolvedCloudMoves, r => s' = s ∧ ∀ a, r = .ok a → b.listUnresolvedCloudMoves s = a
  | .saveMoveResult planId result, r => Written s s' (b.saveMoveResult planId result s) r
  | .saveCloudMoveOperation record, r => Written s s' (b.saveCloudMoveOperation record s) r
  | .finalizeCloudMove operation result, r => Written s s' (b.finalizeCloudMove operation result s) r
  | _, _ => s' = s

def CloudWorld.answers (b : Backend) : Env CloudOp.Res CloudExc (CloudWorld b) := fun w op r w' =>
  b.answers w.store w'.store op r ∧ w'.log = if op.noted then ⟨op, r, w.store⟩ :: w.log else w.log

/-! ## Submissions and observations -/

/-- The action submits the move of this candidate. -/
def CloudOp.submits (k : String × String) : CloudOp → Bool
  | moveFile planId candidateId _ _ => (planId, candidateId) = k
  | _ => false

/-- The operation state an action asks the repository for. -/
def CloudOp.requests : CloudOp → Option CloudMoveOperationRecord
  | saveCloudMoveOperation record => some record
  | finalizeCloudMove operation _ => some operation
  | _ => none

/-- The operation of the candidate is submitting, and no other unresolved one has its source. -/
def Submitting (k : String × String) (source : String) (s : b.Store) : Prop :=
  (∃ row, b.operation s k = some row ∧ row.state = .submitting ∧ row.sourcePath = source) ∧
    ∀ k' row, k' ≠ k → b.operation s k' = some row → row.sourcePath = source → row.state.terminal = true

/-- What an action asks for is allowed by the repository it finds. -/
structure Legal (e : CloudEntry b) : Prop where
  transition : ∀ record ∈ e.op.requests,
    record.state ∈ cloudMoveTransitions ((b.operation e.store record.key).map (·.state))
  submitting : ∀ planId candidateId source dir, e.op = .moveFile planId candidateId source dir →
    Submitting (planId, candidateId) source e.store

/-- The listing says that the file is not there. -/
def Absent (path : String) : Except CloudExc (List CloudFileMetadata) → Prop
  | .ok files => FillActorService.findCloudFile path (some files) = none
  | .error e => e = .fileNotFound

/-- The source was looked for and was not there; the next look found the destination with the
identity of the file. -/
def Observed (cloud : CloudSource) (log : List (CloudEntry b)) : Prop :=
  ∃ s s' seen listing f,
    [⟨.listDirectory (pathParent (pathJoin cloud.destinationDir cloud.file.name)), .ok listing, s'⟩,
      ⟨.listDirectory (pathParent cloud.sourcePath), seen, s⟩] <:+: log ∧
    Absent cloud.sourcePath seen ∧
    FillActorService.findCloudFile (pathJoin cloud.destinationDir cloud.file.name) (some listing) = some f ∧
    cloud.file.matchesIdentity f = true

def Unsubmitted (k : String × String) (w : CloudWorld b) : Prop := ∀ e ∈ w.log, e.op.submits k = false

/-! ## The invariant -/

/-- With `C` the candidates of the repository. -/
structure Sound (C : String × String → Option CandidateRecord) (w : CloudWorld b) : Prop where
  candidates : ∀ k, b.candidate w.store k = C k
  placed : ∀ k row, b.operation w.store k = some row → Placed C k row
  single : ∀ k k' row row', b.operation w.store k = some row → b.operation w.store k' = some row' →
    row.state.terminal = false → row'.state.terminal = false → row.sourcePath = row'.sourcePath → k = k'
  unresolved : ∀ k row, b.operation w.store k = some row → row.state.terminal = false → b.moveResult w.store k = none
  finalized : ∀ k row, b.operation w.store k = some row → row.state.terminal = true →
    ∃ result, b.moveResult w.store k = some result ∧ ∃ e ∈ w.log, e.op = .finalizeCloudMove row result
  moved : ∀ k result, b.moveResult w.store k = some result → result.state = .moved →
    ∃ x cloud, C k = some x ∧ x.cloud = some cloud ∧ Observed cloud w.log
  journalled : ∀ k, b.operation w.store k = none → Unsubmitted k w
  once : ∀ k, w.log.countP (fun e => e.op.submits k) ≤ 1
  legal : ∀ e ∈ w.log, Legal e

/-- What a move may ask for. -/
def Allowed (w : CloudWorld b) : CloudOp → Prop
  | .saveMoveResult planId result =>
    b.operation w.store (planId, result.candidateId) = none ∧ b.moveResult w.store (planId, result.candidateId) = none ∧
      result.state ≠ .moved
  | .saveCloudMoveOperation record =>
    record.state ∈ cloudMoveTransitions ((b.operation w.store record.key).map (·.state)) ∧
      b.moveResult w.store record.key = none
  | .finalizeCloudMove operation result =>
    operation.state ∈ cloudMoveTransitions ((b.operation w.store operation.key).map (·.state)) ∧
      b.moveResult w.store operation.key = none ∧
      (result.state = .moved →
        ∃ x cloud, b.candidate w.store operation.key = some x ∧ x.cloud = some cloud ∧ Observed cloud w.log)
  | .moveFile planId candidateId source _ =>
    (∃ row, b.operation w.store (planId, candidateId) = some row ∧ row.state = .submitting ∧ row.sourcePath = source) ∧
      Unsubmitted (planId, candidateId) w
  | _ => True

section step
variable {C : String × String → Option CandidateRecord} {w w' : CloudWorld b} {s s' : b.Store} {log : List (CloudEntry b)}

theorem Observed.later {cloud : CloudSource} (h : Observed cloud log) (e : CloudEntry b) : Observed cloud (e :: log) := by
  obtain ⟨s, s', seen, listing, f, hlog, hrest⟩ := h
  exact ⟨s, s', seen, listing, f, List.infix_cons hlog, hrest⟩

/-- An action is noted, and the repository is as it was. -/
theorem Sound.note (h : Sound C ⟨s, log⟩) {e : CloudEntry b} (hlegal : Legal e)
    (hfresh : ∀ k, e.op.submits k = true → Unsubmitted (b := b) k ⟨s, log⟩ ∧ b.operation s k ≠ none) :
    Sound C ⟨s, e :: log⟩ where
  candidates := h.candidates
  placed := h.placed
  single := h.single
  unresolved := h.unresolved
  finalized k row hrow ht := by
    obtain ⟨result, hresult, e', he', hop⟩ := h.finalized k row hrow ht
    exact ⟨result, hresult, e', List.mem_cons_of_mem _ he', hop⟩
  moved k result hresult hmoved := by
    obtain ⟨x, cloud, hx, hcloud, hobs⟩ := h.moved k result hresult hmoved
    exact ⟨x, cloud, hx, hcloud, hobs.later e⟩
  journalled k hnone e' he' := by
    rcases List.mem_cons.1 he' with rfl | he'
    · by_contra hsub
      exact (hfresh k (by simpa using hsub)).2 hnone
    · exact h.journalled k hnone e' he'
  once k := by
    rw [List.countP_cons]
    cases hsub : e.op.submits k with
    | false => simpa using h.once k
    | true =>
      have hzero : log.countP (fun e => e.op.submits k) = 0 := by
        rw [List.countP_eq_zero]
        intro e' he'
        simpa using (hfresh k hsub).1 e' he'
      rw [hzero]
      simp
  legal e' he' := by
    rcases List.mem_cons.1 he' with rfl | he'
    · exact hlegal
    · exact h.legal e' he'

/-- An unresolved operation comes to stand. -/
theorem Sound.journal (h : Sound C ⟨s, log⟩) {record : CloudMoveOperationRecord} (hlive : record.state.terminal = false)
    (hresult : b.moveResult s record.key = none) (hj : Journalled record s s') : Sound C ⟨s', log⟩ where
  candidates k := (hj.candidate k).trans (h.candidates k)
  placed k row hrow := by
    rw [show b.operation s' k = _ from hj.operation k] at hrow
    split at hrow
    · rename_i hk
      cases hrow
      obtain ⟨x, cloud, hx, hrest⟩ := hj.placed
      exact ⟨hk.symm, x, cloud, by rw [hk, ← h.candidates record.key]; exact hx, hrest⟩
    · exact h.placed k row hrow
  single k k' row row' hrow hrow' hopen hopen' hsource := by
    have hk := hj.operation k
    have hk' := hj.operation k'
    rw [show b.operation s' k = _ from hk] at hrow
    rw [show b.operation s' k' = _ from hk'] at hrow'
    -- the new row is one of the two, both or neither; with an older one it would have been refused
    by_cases hkey : k = record.key
    · by_cases hkey' : k' = record.key
      · exact hkey.trans hkey'.symm
      · rw [if_pos hkey] at hrow
        rw [if_neg hkey'] at hrow'
        cases hrow
        rw [hj.single hlive k' row' hkey' hrow' hsource.symm] at hopen'
        cases hopen'
    · rw [if_neg hkey] at hrow
      by_cases hkey' : k' = record.key
      · rw [if_pos hkey'] at hrow'
        cases hrow'
        rw [hj.single hlive k row hkey hrow hsource] at hopen
        cases hopen
      · rw [if_neg hkey'] at hrow'
        exact h.single k k' row row' hrow hrow' hopen hopen' hsource
  unresolved k row hrow hopen := by
    rw [show b.operation s' k = _ from hj.operation k] at hrow
    rw [show b.moveResult s' k = _ from hj.result k]
    split at hrow
    · rename_i hk
      rw [hk]
      exact hresult
    · exact h.unresolved k row hrow hopen
  finalized k row hrow ht := by
    rw [show b.operation s' k = _ from hj.operation k] at hrow
    rw [show b.moveResult s' k = _ from hj.result k]
    split at hrow
    · cases hrow
      rw [hlive] at ht
      cases ht
    · exact h.finalized k row hrow ht
  moved k result hr := by
    rw [show b.moveResult s' k = _ from hj.result k] at hr
    exact h.moved k result hr
  journalled k hnone := by
    rw [show b.operation s' k = _ from hj.operation k] at hnone
    split at hnone
    · cases hnone
    · exact h.journalled k hnone
  once := h.once
  legal := h.legal

/-- A result that no operation stands behind comes to stand. -/
theorem Sound.record (h : Sound C ⟨s, log⟩) {k : String × String} {result : MoveResult} (hnone : b.operation s k = none)
    (hmoved : result.state ≠ .moved) (hr : Recorded k result s s') : Sound C ⟨s', log⟩ := by
  have hop : ∀ k', b.operation s' k' = b.operation s k' := hr.operation
  have hother : ∀ k' row, b.operation s k' = some row → b.moveResult s' k' = b.moveResult s k' := by
    intro k' row hrow
    rw [hr.result k', if_neg]
    rintro rfl
    rw [hnone] at hrow
    cases hrow
  exact {
    candidates := fun k' => (hr.candidate k').trans (h.candidates k')
    placed := fun k' row hrow => h.placed k' row ((hop k').symm.trans hrow)
    single := fun k₁ k₂ row row' hrow hrow' => h.single k₁ k₂ row row' ((hop k₁).symm.trans hrow) ((hop k₂).symm.trans hrow')
    unresolved := fun k' row hrow hopen => by
      have hrow : b.operation s k' = some row := (hop k').symm.trans hrow
      exact (hother k' row hrow).trans (h.unresolved k' row hrow hopen)
    finalized := fun k' row hrow ht => by
      have hrow : b.operation s k' = some row := (hop k').symm.trans hrow
      obtain ⟨result', hresult, hlog⟩ := h.finalized k' row hrow ht
      exact ⟨result', (hother k' row hrow).trans hresult, hlog⟩
    moved := fun k' result' hresult hm => by
      have hresult : (if k' = k then some result else b.moveResult s k') = some result' := (hr.result k').symm.trans hresult
      split at hresult
      · cases hresult
        exact absurd hm hmoved
      · exact h.moved k' result' hresult hm
    journalled := fun k' hk' => h.journalled k' ((hop k').symm.trans hk')
    once := h.once
    legal := h.legal }

/-- An operation is finalized with its result. -/
theorem Sound.finalize (h : Sound C ⟨s, log⟩) {s₁ : b.Store} {operation : CloudMoveOperationRecord} {result : MoveResult}
    (ht : operation.state.terminal = true) (hasked : ∃ e ∈ log, e.op = .finalizeCloudMove operation result)
    (hmoved : result.state = .moved → ∃ x cloud, C operation.key = some x ∧ x.cloud = some cloud ∧ Observed cloud log)
    (hj : Journalled operation s s₁) (hr : Recorded operation.key result s₁ s') : Sound C ⟨s', log⟩ := by
  -- one row of each table changes, both under the operation's key
  have hop : ∀ k, b.operation s' k = if k = operation.key then some operation else b.operation s k :=
    fun k => (hr.operation k).trans (hj.operation k)
  have hres : ∀ k, b.moveResult s' k = if k = operation.key then some result else b.moveResult s k := by
    intro k
    rw [hr.result k, hj.result k]
  exact {
    candidates := fun k => ((hr.candidate k).trans (hj.candidate k)).trans (h.candidates k)
    placed := fun k row hrow => by
      have hrow : (if k = operation.key then some operation else b.operation s k) = some row := (hop k).symm.trans hrow
      split at hrow
      · rename_i hk
        cases hrow
        obtain ⟨x, cloud, hx, hrest⟩ := hj.placed
        exact ⟨hk.symm, x, cloud, by rw [hk, ← h.candidates operation.key]; exact hx, hrest⟩
      · exact h.placed k row hrow
    single := fun k k' row row' hrow hrow' hopen hopen' => by
      have hrow : (if k = operation.key then some operation else b.operation s k) = some row := (hop k).symm.trans hrow
      have hrow' : (if k' = operation.key then some operation else b.operation s k') = some row' :=
        (hop k').symm.trans hrow'
      split at hrow
      · cases hrow
        rw [ht] at hopen
        cases hopen
      · split at hrow'
        · cases hrow'
          rw [ht] at hopen'
          cases hopen'
        · exact h.single k k' row row' hrow hrow' hopen hopen'
    unresolved := fun k row hrow hopen => by
      have hrow : (if k = operation.key then some operation else b.operation s k) = some row := (hop k).symm.trans hrow
      have hresk := hres k
      split at hrow
      · cases hrow
        rw [ht] at hopen
        cases hopen
      · rename_i hk
        rw [if_neg hk] at hresk
        exact hresk.trans (h.unresolved k row hrow hopen)
    finalized := fun k row hrow hterm => by
      have hrow : (if k = operation.key then some operation else b.operation s k) = some row := (hop k).symm.trans hrow
      have hresk := hres k
      split at hrow
      · rename_i hk
        cases hrow
        rw [if_pos hk] at hresk
        exact ⟨result, hresk, hasked⟩
      · rename_i hk
        rw [if_neg hk] at hresk
        obtain ⟨result', hresult, hlog⟩ := h.finalized k row hrow hterm
        exact ⟨result', hresk.trans hresult, hlog⟩
    moved := fun k result' hresult hm => by
      have hresult : (if k = operation.key then some result else b.moveResult s k) = some result' :=
        (hres k).symm.trans hresult
      split at hresult
      · rename_i hk
        cases hresult
        rw [hk]
        exact hmoved hm
      · exact h.moved k result' hresult hm
    journalled := fun k hnone => by
      have hnone : (if k = operation.key then some operation else b.operation s k) = none := (hop k).symm.trans hnone
      split at hnone
      · cases hnone
      · exact h.journalled k hnone
    once := h.once
    legal := h.legal }

theorem Sound.placedHere (h : Sound C w) (k : String × String) (row : CloudMoveOperationRecord)
    (hrow : b.operation w.store k = some row) : Placed (b.candidate w.store) k row := by
  obtain ⟨hk, x, cloud, hx, hrest⟩ := h.placed k row hrow
  exact ⟨hk, x, cloud, (h.candidates k).trans hx, hrest⟩

theorem answers_quiet {op : CloudOp} {r : Except CloudExc op.Res} (hq : op.noted = false)
    (h : CloudWorld.answers b w op r w') : w' = w := by
  obtain ⟨hans, hlog⟩ := h
  rw [hq] at hlog
  obtain ⟨s, log⟩ := w
  obtain ⟨s', log'⟩ := w'
  cases hlog
  have hs : s' = s := by
    cases op with
    | listDirectory | moveFile | saveMoveResult | saveCloudMoveOperation | finalizeCloudMove => cases hq
    | getPlan | getCandidate | getMoveResult | getCloudMoveOperation | listUnresolvedCloudMoves => exact hans.1
    | _ => exact hans
  rw [hs]

/-- A stored result stays as it is. -/
def Keeping (w w' : CloudWorld b) : Prop :=
  ∀ k result, b.moveResult w.store k = some result → b.moveResult w'.store k = some result

theorem Recorded.keeping {k : String × String} {result : MoveResult} {log' : List (CloudEntry b)}
    (hr : Recorded k result s s') (hnone : b.moveResult s k = none) :
    Keeping (⟨s, log⟩ : CloudWorld b) ⟨s', log'⟩ := by
  intro k' result' hk'
  refine (hr.result k').trans ?_
  rw [if_neg]
  · exact hk'
  · rintro rfl
    exact absurd hk' (by rw [hnone]; exact nofun)

/-- Every allowed action keeps the invariant and the stored results. -/
theorem Sound.step (h : Sound C w) {op : CloudOp} {r : Except CloudExc op.Res} (hg : Allowed w op)
    (ht : CloudWorld.answers b w op r w') : Sound C w' ∧ Keeping w w' := by
  cases hn : op.noted with
  | false =>
    rw [answers_quiet hn ht]
    exact ⟨h, fun _ _ hk => hk⟩
  | true =>
    obtain ⟨hans, hlog⟩ := ht
    rw [hn] at hlog
    obtain ⟨s, log⟩ := w
    obtain ⟨s', log'⟩ := w'
    obtain rfl : log' = ⟨op, r, s⟩ :: log := hlog
    cases op with
    | listDirectory directory =>
      obtain rfl : s' = s := hans
      exact ⟨h.note ⟨nofun, nofun⟩ nofun, fun _ _ hk => hk⟩
    | moveFile planId candidateId source dir =>
      obtain rfl : s' = s := hans
      obtain ⟨⟨row, hrow, hstate, hsource⟩, hfresh⟩ := hg
      have hopen : row.state.terminal = false := by rw [hstate]; rfl
      -- no other open operation has this source, and this one was never submitted
      refine ⟨h.note ⟨nofun, ?_⟩ ?_, fun _ _ hk => hk⟩
      · rintro _ _ _ _ ⟨⟩
        refine ⟨⟨row, hrow, hstate, hsource⟩, fun k' row' hne hrow' hsame => ?_⟩
        by_contra hopen'
        exact hne (h.single _ _ row' row hrow' hrow (by simpa using hopen') hopen (hsame.trans hsource.symm))
      · intro k hk
        obtain rfl : (planId, candidateId) = k := of_decide_eq_true hk
        refine ⟨hfresh, ?_⟩
        rw [show b.operation s' (planId, candidateId) = some row from hrow]
        exact nofun
    | saveMoveResult planId result =>
      obtain ⟨hop, hres, hmoved⟩ := hg
      have hnoted := h.note (e := ⟨.saveMoveResult planId result, r, s⟩) ⟨nofun, nofun⟩ nofun
      replace hans : Written s s' _ r := hans
      rcases hans.cases with ⟨rfl, -⟩ | hok
      · exact ⟨hnoted, fun _ _ hk => hk⟩
      · have hr := Backend.recorded hok
        exact ⟨hnoted.record hop hmoved hr, hr.keeping hres⟩
    | saveCloudMoveOperation record =>
      obtain ⟨htrans, hres⟩ := hg
      have hnoted := h.note (e := ⟨.saveCloudMoveOperation record, r, s⟩) ⟨by rintro _ ⟨⟩; exact htrans, nofun⟩ nofun
      replace hans : Written s s' _ r := hans
      rcases hans.cases with ⟨rfl, -⟩ | hok
      · exact ⟨hnoted, fun _ _ hk => hk⟩
      · obtain ⟨hlive, hj⟩ := Backend.journalled h.placedHere hok
        refine ⟨hnoted.journal hlive hres hj, fun k result hk => ?_⟩
        exact (hj.result k).trans hk
    | finalizeCloudMove operation result =>
      obtain ⟨htrans, hres, hmoved⟩ := hg
      have hnoted := h.note (e := ⟨.finalizeCloudMove operation result, r, s⟩) ⟨by rintro _ ⟨⟩; exact htrans, nofun⟩ nofun
      replace hans : Written s s' _ r := hans
      rcases hans.cases with ⟨rfl, -⟩ | hok
      · exact ⟨hnoted, fun _ _ hk => hk⟩
      · obtain ⟨hterm, s₁, hj, hr⟩ := Backend.finalized h.placedHere hok
        refine ⟨hnoted.finalize hterm ⟨_, List.mem_cons_self, rfl⟩ (fun hm => ?_) hj hr, fun k result' hk => ?_⟩
        · obtain ⟨x, cloud, hx, hcloud, hobs⟩ := hmoved hm
          exact ⟨x, cloud, (h.candidates _).symm.trans hx, hcloud, hobs.later _⟩
        · have hkeep : Keeping (⟨s₁, log⟩ : CloudWorld b) ⟨s', log⟩ := hr.keeping ((hj.result operation.key).trans hres)
          exact hkeep k result' ((hj.result k).trans hk)
    | _ => cases hn

end step

end EmbyxManager.FillActor
