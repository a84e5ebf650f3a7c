import EmbyxManager.Merge.Moves
/-!
# Which method asks for what

`Writes` is what the handlers of a tick ask for, told by what they set; two of
them also ask for what is `Delicate`, the move into `replacing` and the deletion
of the parts. Most of the service's actions are `Plain`: they are legal in any
state. A tick asks for what is `Ordinary` and for nothing else.
-/

namespace EmbyxManager.Merge
open Atom Prog

/-! ## What a step writes -/

/-- The columns a note on a row leaves alone. -/
def Fields.light (f : Fields) : Prop :=
  f.failedState = none ∧ f.jobName = none ∧ f.mergedBytes = none ∧ f.mergedSha1 = none

/-- The moves of a step but for the one into `replacing`, and what they set. -/
def advance (expected state : MergeState) (f : Fields) : Prop :=
  match expected, state with
  | .queued, .merging => True
  | .merging, .uploading =>
    (∃ bytes, f.mergedBytes = some (some bytes)) ∧ (∃ sha1, f.mergedSha1 = some (some sha1)) ∧ f.uploadAttempts = some 0
  | .uploading, .queued => f.jobName = some none
  | .uploading, .verifying | .replacing, .archiving | .archiving, .done => f.light
  | _, _ => False

/-- What the handler of a task in state `s` asks for. -/
def Writes (id : Int) (s : MergeState) : Op → Prop
  | .transition i expected state f => i = id ∧ expected = s ∧ advance s state f
  | .update i f => i = id ∧ f.light ∧ (f.uploadAttempts = none ∨ s = .uploading)
  | .deleteFiles _ (.parts _) => False
  | _ => True

/-- The actions a verified upload leads to. -/
def Delicate (id : Int) : Op → Prop
  | .transition i .verifying .replacing f => i = id ∧ f.light
  | .deleteFiles i (.parts _) => i = id
  | _ => False

/-- The move of a step that fails. -/
def Fails (id : Int) (s : MergeState) : Op → Prop
  | .transition i expected .failed f =>
    i = id ∧ expected = s ∧ f.failedState = some (some s) ∧ f.mergedBytes = none ∧ f.mergedSha1 = none
  | _ => False

/-- What a step asks for. -/
def Steps (id : Int) (s : MergeState) (op : Op) : Prop := Writes id s op ∨ Delicate id op ∨ Fails id s op

/-! ## Plain actions -/

def plainMove (expected state : MergeState) (f : Fields) : Prop :=
  match expected, state with
  | .queued, .merging | .uploading, .queued | .merging, .uploading | .replacing, .archiving | .archiving, .done => True
  | .uploading, .verifying => f.mergedBytes = none ∧ f.mergedSha1 = none
  | e, .failed => e.active = true ∧ f.failedState = some (some e) ∧ f.mergedBytes = none ∧ f.mergedSha1 = none
  | _, _ => False

/-- Legal in every state a tick can be in; no other task's row is written. -/
def Plain (id : Int) : Op → Prop
  | .transition i expected state f => i = id ∧ plainMove expected state f
  | .update i f => i = id ∧ f.failedState = none ∧ f.mergedBytes = none ∧ f.mergedSha1 = none
  | .deleteFiles _ (.parts _) => False
  | _ => True

/-- Plain, or one of the delicate actions of a task. -/
def Ordinary (id : Int) : Op → Prop
  | .transition i .verifying .replacing _ => i = id
  | .transition i _ .failed _ => i = id
  | .deleteFiles i (.parts _) => i = id
  | op => Plain id op

theorem Writes.plain {id : Int} {s : MergeState} {op : Op} (h : Writes id s op) : Plain id op := by
  unfold Writes at h
  split at h
  · obtain ⟨hid, rfl, hmove⟩ := h
    refine ⟨hid, ?_⟩
    unfold advance at hmove
    split at hmove
    · trivial
    · trivial
    · trivial
    · exact ⟨hmove.2.2.1, hmove.2.2.2⟩
    · trivial
    · trivial
    · exact hmove.elim
  · obtain ⟨hid, ⟨hf, -, hb, hs⟩, -⟩ := h
    exact ⟨hid, hf, hb, hs⟩
  · exact h.elim
  · rename_i ht hu hd
    unfold Plain
    split
    · exact (ht _ _ _ _ rfl).elim
    · exact (hu _ _ rfl).elim
    · exact hd _ _ rfl
    · trivial

theorem Plain.ordinary {id : Int} {op : Op} (h : Plain id op) : Ordinary id op := by
  unfold Ordinary
  split
  · exact h.2.elim
  · exact h.1
  · exact h.elim
  · exact h

theorem Delicate.ordinary {id : Int} {op : Op} (h : Delicate id op) : Ordinary id op := by
  unfold Delicate at h
  split at h
  · exact h.1
  · exact h
  · exact h.elim

theorem Fails.ordinary {id : Int} {s : MergeState} {op : Op} (h : Fails id s op) : Ordinary id op := by
  unfold Fails at h
  split at h
  · rename_i e _
    cases e <;> exact h.1
  · exact h.elim

theorem Steps.ordinary {id : Int} {s : MergeState} {op : Op} (h : Steps id s op) : Ordinary id op := by
  rcases h with h | h | h
  · exact h.plain.ordinary
  · exact h.ordinary
  · exact h.ordinary

theorem Ordinary.task_eq {id i : Int} {e s : MergeState} {f : Fields} (h : Ordinary id (.transition i e s f)) : i = id := by
  unfold Ordinary at h
  split at h
  · rename_i heq
    injection heq with hi
    exact hi.trans h
  · rename_i heq
    injection heq with hi
    exact hi.trans h
  · rename_i heq
    cases heq
  · exact h.1

theorem move_of_plain {m : MergeService} {marks : List Mark} {row : MergeTask} {e s : MergeState} {f : Fields}
    (h : plainMove e s f) (he : row.state = e) (now : Time) : Move m marks row (row.written now (some s) f) := by
  unfold plainMove at h
  split at h
  · exact .early (by rw [stage_of_state he (by decide)]; rfl) (.inr (stage_of_state rfl (by decide)))
  · exact .early (by rw [stage_of_state he (by decide)]; rfl) (.inl (stage_of_state rfl (by decide)))
  · exact .merged he rfl
  · exact .onward (.inl (stage_of_state he (by decide))) (.inl rfl)
  · exact .onward (.inr (stage_of_state he (by decide))) (.inr rfl)
  · refine .uploads (.inl (stage_of_state he (by decide))) (.inr (stage_of_state rfl (by decide))) ?_ ?_
    · rw [written_mergedBytes, h.1, Option.getD_none]
    · rw [written_mergedSha1, h.2, Option.getD_none]
  · obtain ⟨ha, hf, hb, hs⟩ := h
    have hstage : (row.written now (some .failed) f).stage = row.state := by
      rw [stage_of_failed rfl, written_failedState, hf]
      exact he.symm
    rw [← he] at ha
    refine .stays ?_ ?_ ?_ fun _ => .inr (by rw [hstage]; exact ha)
    · rw [hstage, stage_of_state rfl]
      intro hfailed
      rw [hfailed] at ha
      cases ha
    · rw [written_mergedBytes, hb, Option.getD_none]
    · rw [written_mergedSha1, hs, Option.getD_none]
  · exact h.elim

/-- While a tick or a retry is under way. -/
theorem legal_of_plain {m : MergeService} {h : History} {id : Int} {op : Op} (hp : Plain id op)
    (hrun : ∀ i, running h.marks ≠ some (.cancel i)) : Legal m h op := by
  have hspares : Spares m h.row h.marks := fun ⟨i, hi⟩ => absurd hi (hrun i)
  cases op with
  | transition i e s f => exact fun _ he now => move_of_plain hp.2 he now
  | update i f => exact fun _ => hp.2
  | deleteFiles i what =>
    cases what with
    | parts _ => exact hp.elim
    | _ => exact fun _ => hspares
  | _ => exact fun _ => hspares

section uses
variable {C : Op → Prop} {m : MergeService} {task : MergeTask} {paths : MergePaths}

theorem uses_ask {op : Op} (h : C op) : Uses C (ask op) := (uses_call op).2 h

theorem uses_ofExcept {α : Type} (x : Except Exc α) : Uses C (ofExcept x) := by
  cases x <;> trivial

theorem uses_suppress {p : M Unit} (hp : Uses C p) : Uses C (suppress p) := uses_discard (uses_attempt hp)

theorem uses_suppressKube {p : M Unit} (hp : Uses C p) : Uses C (suppressKube p) := by
  unfold suppressKube
  refine uses_bind (uses_attempt hp) fun r => ?_
  split <;> trivial

theorem uses_require (p : Bool) (e : Exc) : Uses C (if p then pure () else .raise e : M Unit) := by
  split <;> trivial

theorem uses_requireCloud : Uses C (requireCloud m) := uses_require _ _

theorem uses_requireKube : Uses C (requireKube m) := uses_require _ _

theorem uses_update {f : Fields} (h : C (.update task.id f)) : Uses C (update task f) := uses_discard (uses_ask h)

theorem uses_transition {e s : MergeState} {f : Fields} (h : C (.transition task.id e s f)) :
    Uses C (transition task e s f) := uses_ask h

theorem uses_unlink {file : LocalFile} (h : C (.unlink task.id file)) : Uses C (unlink task file) :=
  uses_discard (uses_ask h)

theorem uses_listingOrEmpty {dir : Path} (h : C (.listDirectory task.id dir)) : Uses C (listingOrEmpty task dir) := by
  unfold listingOrEmpty
  refine uses_bind (uses_attempt (uses_ask h)) fun r => ?_
  split <;> trivial

theorem uses_wholeCopy (h : ∀ dir, C (.listDirectory task.id dir)) : Uses C (wholeCopy m task paths) := by
  unfold wholeCopy
  refine uses_bind uses_requireCloud fun _ => ?_
  split
  · trivial
  · refine uses_bind (uses_attempt (uses_ask (h _))) fun r => ?_
    split <;> trivial

theorem uses_refuseWholeCopy (h : ∀ dir, C (.listDirectory task.id dir)) : Uses C (refuseWholeCopy m task paths) := by
  unfold refuseWholeCopy
  refine uses_bind (uses_wholeCopy h) fun r => ?_
  split <;> trivial

theorem uses_dropJob (h : ∀ name, C (.deleteJob task.id name)) : Uses C (dropJob m task) := by
  unfold dropJob
  split
  · split
    · exact uses_suppressKube (uses_ask (h _))
    · trivial
  · trivial

theorem uses_copyTask (h : C (.copyTasks task.id)) : Uses C (copyTask task paths) :=
  uses_bind (uses_ask h) fun _ => trivial

theorem uses_present {le : Path → Path → Bool} {files : List Path} (h : ∀ dir, C (.listDirectory task.id dir)) :
    Uses C (present le task files) := by
  unfold present
  refine uses_bind (uses_foldEach (fun listed dir _ => ?_) _) fun _ => trivial
  exact uses_bind (uses_listingOrEmpty (h dir)) fun _ => trivial

end uses

section handlers
variable (m : MergeService) (task : MergeTask) (paths : MergePaths)

theorem writes_startMerge : Uses (Writes task.id .queued) (startMerge m task paths) := by
  unfold startMerge
  refine uses_bind uses_requireKube fun _ => uses_bind (uses_refuseWholeCopy fun _ => trivial) fun _ => ?_
  refine uses_bind (uses_unlink trivial) fun _ => uses_bind (uses_ask trivial) fun _ => ?_
  exact uses_discard (uses_transition ⟨rfl, rfl, trivial⟩)

theorem writes_takeOver (status : JobStatus) : Uses (Writes task.id .merging) (takeOver m task paths status) := by
  unfold takeOver
  refine uses_bind (uses_ask trivial) fun onDisk => ?_
  split
  · split
    · trivial
    · refine uses_bind (uses_discard (uses_transition ⟨rfl, rfl, ⟨_, rfl⟩, ⟨_, rfl⟩, rfl⟩)) fun _ => ?_
      split
      · exact uses_bind (uses_suppressKube (uses_ask trivial)) fun _ => uses_unlink trivial
      · exact uses_unlink trivial
  · trivial

theorem writes_cleanUp (job : Job) : Uses (Writes task.id .merging) (cleanUp task job) := by
  unfold cleanUp
  refine uses_bind (uses_unlink trivial) fun _ => uses_bind (uses_ask trivial) fun _ => ?_
  refine uses_bind (uses_attempt (uses_ask trivial)) fun tail => ?_
  split <;> trivial

theorem writes_watchJob (status : JobStatus) (job : Job) : Uses (Writes task.id .merging) (watchJob task status job) := by
  unfold watchJob
  split
  · exact writes_cleanUp task job
  · refine uses_bind (uses_ask trivial) fun again => ?_
    split <;> trivial
  · exact uses_update ⟨rfl, ⟨rfl, rfl, rfl, rfl⟩, .inl rfl⟩

theorem writes_watchMerge : Uses (Writes task.id .merging) (watchMerge m task paths) := by
  unfold watchMerge
  refine uses_bind uses_requireKube fun _ => uses_bind (uses_ask trivial) fun status => ?_
  dsimp only
  split
  · exact writes_takeOver m task paths _
  split
  · trivial
  have hjob : ∀ job, Uses (Writes task.id .merging) (match job with
      | none => fail "the merge Job disappeared before it finished"
      | some job => watchJob task (Option.getD (α := JobStatus) status {}) job : M Unit) := by
    intro job
    cases job with
    | none => trivial
    | some job => exact writes_watchJob task _ job
  split
  · exact uses_bind (uses_ask trivial) hjob
  · exact uses_bind (uses_pure _) hjob

theorem writes_issueCopy : Uses (Writes task.id .uploading) (issueCopy task paths) := by
  unfold issueCopy
  split
  · trivial
  · refine uses_bind (uses_ask trivial) fun _ => uses_bind (uses_ask trivial) fun result => ?_
    exact uses_update ⟨rfl, ⟨rfl, rfl, rfl, rfl⟩, .inr rfl⟩

theorem writes_restartCopy (sourcePath : Path) (why : String) : Uses (Writes task.id .uploading) (restartCopy task paths sourcePath why) :=
  uses_bind (uses_ask trivial) fun _ => uses_update ⟨rfl, ⟨rfl, rfl, rfl, rfl⟩, .inr rfl⟩

theorem writes_judgedAnew (fatal : String) : Uses (Writes task.id .uploading) (judgedAnew task fatal) := by
  unfold judgedAnew
  split
  · trivial
  · exact uses_bind (uses_ask trivial) fun _ => trivial

theorem writes_handledFatalUpload (sourcePath : Path) : Uses (Writes task.id .uploading) (handledFatalUpload task paths sourcePath) := by
  unfold handledFatalUpload
  refine uses_bind (uses_ask trivial) fun r => ?_
  split
  · trivial
  dsimp only
  split
  · trivial
  refine uses_bind (writes_judgedAnew task _) fun again => ?_
  split
  · exact uses_bind (writes_restartCopy task paths _ _) fun _ => trivial
  · trivial

theorem writes_uploaded : Uses (Writes task.id .uploading) (uploaded task) := uses_discard (uses_transition ⟨rfl, rfl, rfl, rfl, rfl, rfl⟩)

theorem writes_watchUpload : Uses (Writes task.id .uploading) (watchUpload m task paths) := by
  unfold watchUpload
  refine uses_bind uses_requireCloud fun _ => uses_bind (uses_copyTask trivial) fun copy => ?_
  split
  · exact writes_uploaded task
  refine uses_bind (uses_ask trivial) fun onDisk => ?_
  split
  · exact uses_discard (uses_transition ⟨rfl, rfl, rfl⟩)
  split
  · split
    · refine uses_bind (uses_ask trivial) fun staged => ?_
      split
      · exact writes_uploaded task
      refine uses_bind (uses_ask trivial) fun time => ?_
      split
      · trivial
      · exact writes_issueCopy task paths
    · exact writes_issueCopy task paths
  · split
    · dsimp only
      split
      · trivial
      · exact writes_restartCopy task paths _ _
    · refine uses_bind (writes_handledFatalUpload task paths _) fun handled => ?_
      split
      · exact uses_update ⟨rfl, ⟨rfl, rfl, rfl, rfl⟩, .inr rfl⟩
      · trivial

theorem writes_watchArchive : Uses (Writes task.id .archiving) (watchArchive m task paths) := by
  unfold watchArchive
  refine uses_bind uses_requireCloud fun _ => uses_bind (uses_listingOrEmpty trivial) fun entries => ?_
  refine uses_ite ?_ ?_
  · refine uses_bind (uses_ask trivial) fun time => ?_
    exact uses_bind (uses_discard (uses_transition ⟨rfl, rfl, rfl, rfl, rfl, rfl⟩)) fun _ => uses_ask trivial
  refine uses_bind (uses_ask trivial) fun time => uses_ite ?_ (uses_ite ?_ trivial)
  · refine uses_bind (uses_wholeCopy fun _ => trivial) fun whole => ?_
    split <;> trivial
  · exact uses_bind (uses_ask trivial) fun _ => uses_update ⟨rfl, ⟨rfl, rfl, rfl, rfl⟩, .inl rfl⟩

theorem writes_moveIntoIntake : Uses (Writes task.id .replacing) (moveIntoIntake task paths) := by
  unfold moveIntoIntake
  refine uses_bind (uses_ask trivial) fun _ => uses_bind (uses_ask trivial) fun _ => ?_
  refine uses_bind (uses_ask trivial) fun staged => ?_
  have hmoved : ∀ moved : CloudResult, Uses (Writes task.id .replacing) (do
      if !moved.success then
        update task {
          notice := some (some (if moved.errorMessage = "" then "the move was refused" else moved.errorMessage)) }
      else if (← ask (.statFile task.id (paths.targetDir ++ [task.mergedName]))).isNone then
        fail s!"the merged file is neither in {shown paths.stagingDir} nor in {shown paths.targetDir}"
      else
        suppress (discard (ask (.deleteFiles task.id (.stagingDir paths.stagingDir))))
        unlink task .output
        unlink task .partialFile
        unlink task .status
        if (← transition task .replacing .archiving { notice := some none }).isSome then ask (.trigger .archive) : M Unit) := by
    intro moved
    split
    · exact uses_update ⟨rfl, ⟨rfl, rfl, rfl, rfl⟩, .inl rfl⟩
    refine uses_bind (uses_ask trivial) fun there => ?_
    split
    · trivial
    refine uses_bind (uses_suppress (uses_discard (uses_ask trivial))) fun _ => uses_bind (uses_unlink trivial) fun _ => ?_
    refine uses_bind (uses_unlink trivial) fun _ => uses_bind (uses_unlink trivial) fun _ => ?_
    exact uses_bind (uses_transition ⟨rfl, rfl, rfl, rfl, rfl, rfl⟩) fun moved => uses_ite (uses_ask trivial) trivial
  split
  · exact uses_bind (uses_ask trivial) hmoved
  · exact uses_bind (uses_pure _) hmoved

theorem steps_verify : Uses (Steps task.id .verifying) (verify m task paths) := by
  unfold verify
  refine uses_bind uses_requireCloud fun _ => uses_bind (uses_ask (.inl trivial)) fun time => ?_
  dsimp only
  refine uses_bind (uses_ask (.inl trivial)) fun staged => ?_
  split
  · split
    · exact uses_update (.inl ⟨rfl, ⟨rfl, rfl, rfl, rfl⟩, .inl rfl⟩)
    · trivial
  split
  · trivial
  split
  · split
    · exact uses_update (.inl ⟨rfl, ⟨rfl, rfl, rfl, rfl⟩, .inl rfl⟩)
    · trivial
  split
  · trivial
  refine uses_bind (uses_refuseWholeCopy fun _ => .inl trivial) fun _ => ?_
  exact uses_discard (uses_transition (.inr (.inl ⟨rfl, rfl, rfl, rfl, rfl⟩)))

theorem steps_replace : Uses (Steps task.id .replacing) (replace m task paths) := by
  have hmove : Uses (Steps task.id .replacing) (moveIntoIntake task paths) :=
    uses_mono (writes_moveIntoIntake task paths) fun _ => .inl
  have hpresent : ∀ files, Uses (Steps task.id .replacing) (present pathLe task files) :=
    fun _ => uses_present fun _ => .inl trivial
  unfold replace
  refine uses_bind uses_requireCloud fun _ => uses_bind (hpresent _) fun remaining => ?_
  split
  · exact hmove
  refine uses_bind (uses_ask (.inr (.inl rfl))) fun result => uses_bind (hpresent _) fun remaining => ?_
  split
  · exact hmove
  · exact uses_update (.inl ⟨rfl, ⟨rfl, rfl, rfl, rfl⟩, .inl rfl⟩)

theorem steps_handler : Uses (Steps task.id task.state) (handler m task paths) := by
  have hwrites : ∀ {s : MergeState} {p : M Unit}, Uses (Writes task.id s) p → Uses (Steps task.id s) p :=
    fun h => uses_mono h fun _ => .inl
  unfold handler
  split <;> rename_i hs
  · rw [hs]
    exact hwrites (writes_startMerge m task paths)
  · rw [hs]
    exact hwrites (writes_watchMerge m task paths)
  · rw [hs]
    exact hwrites (writes_watchUpload m task paths)
  · rw [hs]
    exact steps_verify m task paths
  · rw [hs]
    exact steps_replace m task paths
  · rw [hs]
    exact hwrites (writes_watchArchive m task paths)
  · trivial

theorem steps_step : Uses (Steps task.id task.state) (step m task) := by
  unfold step
  refine uses_bind (uses_attempt (uses_bind (uses_ofExcept _) fun paths => steps_handler m task paths)) fun r => ?_
  unfold stepped
  split
  · trivial
  · exact uses_discard (uses_transition (.inr (.inr ⟨rfl, rfl, rfl, rfl, rfl⟩)))
  · exact uses_update (.inl ⟨rfl, ⟨rfl, rfl, rfl, rfl⟩, .inl rfl⟩)

theorem plain_failed {task : MergeTask} (hs : task.state.active = true) (text : String) :
    Plain task.id (.transition task.id task.state .failed {
      failedState := some (some task.state), error := some (some text), notice := some none }) := by
  refine ⟨rfl, ?_⟩
  cases h : task.state with
  | failed | done | cancelled =>
    rw [h] at hs
    cases hs
  | _ => exact ⟨rfl, rfl, rfl, rfl⟩

theorem uses_step : Uses (Ordinary task.id) (step m task) := uses_mono (steps_step m task) fun _ => Steps.ordinary

end handlers

end EmbyxManager.Merge
