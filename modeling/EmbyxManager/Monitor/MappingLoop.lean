import Mathlib.Data.List.Sort
import Mathlib.Logic.Relation
/-!
# The mapping loop and its filesystem events

`MonitorScheduler` collects watchdog events in two sets, takes them as a batch
once they have settled, and applies the batch in a run of its own. One step here
is what the event loop does between two awaits, or what a run's thread does to
one path; events, manual runs and cancellations come in at any step.

The batch leaves the sets before its run is admitted. Whatever ends the run
before it went through the batch drops the rest of it: the lock being held, the
run start not being stored, the pipeline not being built, a cancellation.
-/

namespace EmbyxManager

inductive RunTrigger where
  | manual | startup | scheduled | watchdog
  deriving DecidableEq

inductive RunState where
  | completed | cancelled | failed
  deriving DecidableEq

namespace MappingLoop

/-- A path of a batch, and whether it was deleted. -/
abbrev Change (Path : Type) := Path × Bool

/-- How far a run inside the pipeline lock is. -/
inductive Phase (Path : Type) where
  /-- Its start is being stored. -/
  | starting
  /-- `run_full`, begun when so many events had come in. -/
  | full (since : Nat)
  /-- `run_incremental`: what is left of the batch, and what failed. -/
  | applying (left failed : List (Change Path))
  /-- Its end is being stored. -/
  | finishing (state : RunState)

/-- The run that holds the lock of the mapping pipeline. -/
structure Run (Path : Type) where
  trigger : RunTrigger
  /-- The changed and the deleted paths of an incremental run. -/
  batch : Option (List Path × List Path)
  /-- How many events had come in when the batch was taken. -/
  takenAt : Nat
  /-- `RunContext.request_stop`. -/
  stop : Bool
  phase : Phase Path

/-- Where the mapping loop waits. -/
inductive Loop where
  | startup
  | startupRun
  | main
  /-- In a full sync, begun when so many events had come in. -/
  | scheduledRun (eventsBefore : Nat)
  | watchdogRun
  deriving DecidableEq

structure State (Path : Type) where
  changedPaths : List Path
  deletedPaths : List Path
  fsEventCount : Nat
  /-- The run inside `_locks[MAPPING]`. -/
  run : Option (Run Path)
  loop : Loop
  /-- Manual runs that were admitted and whose task has not begun. -/
  manualTasks : Nat
  /-- Ghost: the events that are neither applied nor covered, each with its number. -/
  owed : List (Path × Nat)

def init {Path : Type} : State Path := ⟨[], [], 0, none, .startup, 0, []⟩

/-- How the start of a run turns out. -/
inductive Start where
  /-- `start_run` raises. -/
  | unstored
  /-- `mapping_factory` raises. -/
  | unbuilt
  | begun
  deriving DecidableEq

inductive Act (Path : Type) where
  | fsEvent (path : Path) (deleted : Bool)
  | trigger
  | manualTask
  | cancelRunning
  | startupSync
  | fullSyncDue
  | debounced
  | startRun (start : Start)
  | fullEnds (state : RunState)
  /-- The next path of the batch is applied, or raises. -/
  | applyNext (ok : Bool)
  | batchEnds
  | finishRun
  deriving DecidableEq

section Steps
variable {Path : Type} [LinearOrder Path]

/-- `_on_fs_event`. -/
def onFsEvent (s : State Path) (path : Path) (deleted : Bool) : State Path :=
  let count := s.fsEventCount + 1
  let owed := (path, count) :: s.owed
  if deleted then
    { s with changedPaths := s.changedPaths.filter (· ≠ path), deletedPaths := s.deletedPaths.insert path
             fsEventCount := count, owed }
  else
    { s with deletedPaths := s.deletedPaths.filter (· ≠ path), changedPaths := s.changedPaths.insert path
             fsEventCount := count, owed }

/-- The first part of `_execute`: none when the lock is held. -/
def enterRun (s : State Path) (trigger : RunTrigger) (batch : Option (List Path × List Path)) : Option (State Path) :=
  if s.run.isSome then none else some { s with run := some ⟨trigger, batch, s.fsEventCount, false, .starting⟩ }

/-- The loop goes on with what its `_execute` returned. -/
def resume (s : State Path) (state : Option RunState) : State Path :=
  match s.loop with
  | .startupRun => { s with loop := if state = some .completed then .main else .startup }
  | .scheduledRun eventsBefore =>
    -- nothing changed during the sync: pending events are covered by it
    if state = some .completed ∧ s.fsEventCount = eventsBefore then
      { s with changedPaths := [], deletedPaths := [], loop := .main }
    else { s with loop := .main }
  | .watchdogRun => { s with loop := .main }
  | _ => s

/-- The lock is released, and whoever executed the run goes on. -/
def release (s : State Path) (r : Run Path) (state : Option RunState) : State Path :=
  let s := { s with run := none }
  if r.trigger = .manual then s else resume s state

/-- The order `run_incremental` takes a batch in: the deleted paths first, each part sorted. -/
def worklist (changed deleted : List Path) : List (Change Path) :=
  (deleted.insertionSort (· ≤ ·)).map (·, true) ++ (changed.insertionSort (· ≤ ·)).map (·, false)

/-- The path is through: no entry of it is left or has failed. -/
def through (path : Path) (left failed : List (Change Path)) : Bool :=
  path ∉ left.map (·.1) && path ∉ failed.map (·.1)

/-- One step; none when it cannot be taken now. -/
def step (s : State Path) : Act Path → Option (State Path)
  | .fsEvent path deleted => some (onFsEvent s path deleted)
  | .trigger => if s.run.isSome then none else some { s with manualTasks := s.manualTasks + 1 }
  | .manualTask =>
    if s.manualTasks = 0 then none
    else
      let s := { s with manualTasks := s.manualTasks - 1 }
      some ((enterRun s .manual none).getD s)
  | .cancelRunning =>
    match s.run with
    | some ⟨trigger, batch, takenAt, _, .full since⟩ => some { s with run := some ⟨trigger, batch, takenAt, true, .full since⟩ }
    | some ⟨trigger, batch, takenAt, _, .applying left failed⟩ =>
      some { s with run := some ⟨trigger, batch, takenAt, true, .applying left failed⟩ }
    | _ => none
  | .startupSync =>
    if s.loop = .startup then some (((enterRun s .startup none).map fun s => { s with loop := .startupRun }).getD s) else none
  | .fullSyncDue =>
    if s.loop = .main then
      some (((enterRun s .scheduled none).map fun s' => { s' with loop := .scheduledRun s.fsEventCount }).getD s)
    else none
  | .debounced =>
    if s.loop = .main ∧ (s.changedPaths ≠ [] ∨ s.deletedPaths ≠ []) then
      let batch := (s.changedPaths, s.deletedPaths)
      let taken := { s with changedPaths := [], deletedPaths := [] }
      some (((enterRun taken .watchdog (some batch)).map fun s => { s with loop := .watchdogRun }).getD taken)
    else none
  | .startRun start =>
    match s.run with
    | some ⟨trigger, batch, takenAt, stop, .starting⟩ =>
      let r : Run Path := ⟨trigger, batch, takenAt, stop, .starting⟩
      match start, batch with
      | .unstored, _ => some (release s r none)
      | .unbuilt, _ => some { s with run := some { r with phase := .finishing .failed } }
      | .begun, none => some { s with run := some { r with phase := .full s.fsEventCount } }
      | .begun, some (changed, deleted) =>
        some { s with run := some { r with phase := .applying (worklist changed deleted) [] } }
    | _ => none
  | .fullEnds state =>
    match s.run with
    | some ⟨trigger, batch, takenAt, stop, .full since⟩ =>
      if state = .cancelled ∧ !stop then none
      else
        let owed := if state = .completed then s.owed.filter fun x => since < x.2 else s.owed
        some { s with run := some ⟨trigger, batch, takenAt, stop, .finishing state⟩, owed }
    | _ => none
  | .applyNext ok =>
    match s.run with
    | some ⟨trigger, batch, takenAt, stop, .applying (x :: left) failed⟩ =>
      let r : Run Path := ⟨trigger, batch, takenAt, stop, .applying left failed⟩
      if stop then some { s with run := some { r with phase := .finishing .cancelled } }
      else if ok then
        let owed := if through x.1 left failed then s.owed.filter fun y => y.1 ≠ x.1 ∨ takenAt < y.2 else s.owed
        some { s with run := some r, owed }
      else some { s with run := some { r with phase := .applying left (failed ++ [x]) } }
    | _ => none
  | .batchEnds =>
    match s.run with
    | some ⟨trigger, batch, takenAt, stop, .applying [] failed⟩ =>
      some { s with
        changedPaths := s.changedPaths ∪ (failed.filter fun x => !x.2).map (·.1)
        deletedPaths := s.deletedPaths ∪ (failed.filter fun x => x.2).map (·.1)
        run := some ⟨trigger, batch, takenAt, stop, .finishing .completed⟩ }
    | _ => none
  | .finishRun =>
    match s.run with
    | some ⟨trigger, batch, takenAt, stop, .finishing state⟩ =>
      some (release s ⟨trigger, batch, takenAt, stop, .finishing state⟩ (some state))
    | _ => none

/-- The states some order of steps leads to, each step passing `ok`. -/
inductive Reach (ok : State Path → Act Path → Prop) : State Path → Prop
  | init : Reach ok MappingLoop.init
  | step {s s' a} : Reach ok s → ok s a → step s a = some s' → Reach ok s'

/-- The batch of the run that is being executed. -/
def executing (s : State Path) : List Path :=
  match s.run with
  | some ⟨_, some (changed, deleted), _, _, .starting⟩ => changed ++ deleted
  | some ⟨_, some (changed, deleted), _, _, .applying _ _⟩ => changed ++ deleted
  | _ => []

/-- No event is lost: what is owed is pending or being executed. -/
def Kept (s : State Path) : Prop :=
  ∀ x ∈ s.owed, x.1 ∈ s.changedPaths ∨ x.1 ∈ s.deletedPaths ∨ x.1 ∈ executing s

instance (s : State Path) : Decidable (Kept s) := inferInstanceAs (Decidable (∀ x ∈ s.owed, _))

/-- A batch is taken while nobody holds the lock; its run starts, and is not cancelled. -/
def Undropped (s : State Path) : Act Path → Prop
  | .debounced => s.run.isNone
  | .startRun start => (s.run.bind (·.batch)).isSome → start = .begun
  | .applyNext _ => s.run.all fun r => !r.stop
  | _ => True

end Steps

/-! ## The invariant -/

section Invariant
variable {Path : Type} [LinearOrder Path]

/-- What of its batch a run has neither applied nor handed back. -/
def Run.pending (r : Run Path) : List Path :=
  match r.phase, r.batch with
  | .starting, some (changed, deleted) => changed ++ deleted
  | .applying left failed, _ => left.map (·.1) ++ failed.map (·.1)
  | _, _ => []

/-- What is left of a batch belongs to it. -/
def Run.Coherent (r : Run Path) : Prop :=
  match r.phase with
  | .applying left failed => ∃ changed deleted, r.batch = some (changed, deleted) ∧
      (∀ x ∈ left ++ failed, x.1 ∈ changed ++ deleted)
  | _ => True

/-- What a full sync that began when so many events had come in leaves owed. -/
def Phase.Covers (owed : List (Path × Nat)) (eventsBefore : Nat) : Phase Path → Prop
  | .full since => eventsBefore ≤ since
  | .applying _ _ => False
  | .finishing .completed => ∀ x ∈ owed, eventsBefore < x.2
  | _ => True

/-- The loop waits for a full sync of its own. -/
structure Syncing (s : State Path) (eventsBefore : Nat) : Prop where
  since : eventsBefore ≤ s.fsEventCount
  run : ∃ r, s.run = some r ∧ r.trigger ≠ .manual ∧ r.batch = none ∧ r.phase.Covers s.owed eventsBefore

structure Inv (s : State Path) : Prop where
  numbered : ∀ x ∈ s.owed, x.2 ≤ s.fsEventCount
  pending : ∀ x ∈ s.owed, x.1 ∈ s.changedPaths ∨ x.1 ∈ s.deletedPaths ∨
    ∃ r, s.run = some r ∧ x.2 ≤ r.takenAt ∧ x.1 ∈ r.pending
  coherent : ∀ r, s.run = some r → r.Coherent
  syncing : ∀ eventsBefore, s.loop = .scheduledRun eventsBefore → Syncing s eventsBefore

omit [LinearOrder Path] in
theorem inv_init : Inv (init : State Path) := by
  refine ⟨?_, ?_, ?_, ?_⟩ <;> simp [init]

omit [LinearOrder Path] in
theorem inv_manualTasks {s : State Path} (hi : Inv s) (n : Nat) : Inv { s with manualTasks := n } :=
  ⟨hi.numbered, hi.pending, hi.coherent, fun eb heb => ⟨(hi.syncing eb heb).since, (hi.syncing eb heb).run⟩⟩

theorem inv_fsEvent {s : State Path} (hi : Inv s) (path : Path) (deleted : Bool) : Inv (onFsEvent s path deleted) := by
  have hcount : (onFsEvent s path deleted).fsEventCount = s.fsEventCount + 1 := by unfold onFsEvent; dsimp only; split <;> rfl
  have howed : (onFsEvent s path deleted).owed = (path, s.fsEventCount + 1) :: s.owed := by
    unfold onFsEvent; dsimp only; split <;> rfl
  have hrun : (onFsEvent s path deleted).run = s.run := by unfold onFsEvent; dsimp only; split <;> rfl
  have hloop : (onFsEvent s path deleted).loop = s.loop := by unfold onFsEvent; dsimp only; split <;> rfl
  have hnew : path ∈ (onFsEvent s path deleted).changedPaths ∨ path ∈ (onFsEvent s path deleted).deletedPaths := by
    unfold onFsEvent
    dsimp only
    split
    · exact .inr (List.mem_insert_self ..)
    · exact .inl (List.mem_insert_self ..)
  have hold : ∀ q, q ≠ path → q ∈ s.changedPaths ∨ q ∈ s.deletedPaths →
      q ∈ (onFsEvent s path deleted).changedPaths ∨ q ∈ (onFsEvent s path deleted).deletedPaths := by
    intro q hq h
    unfold onFsEvent
    dsimp only
    split
    · exact h.imp (fun h => by simpa [hq] using h) (List.mem_insert_of_mem ·)
    · exact h.imp (List.mem_insert_of_mem ·) (fun h => by simpa [hq] using h)
  refine ⟨fun x hx => ?_, fun x hx => ?_, fun r hr => hi.coherent r (hrun ▸ hr), fun eb heb => ?_⟩
  · rw [howed] at hx
    rw [hcount]
    rcases List.mem_cons.1 hx with rfl | hx
    · exact Nat.le_refl _
    · exact Nat.le_succ_of_le (hi.numbered x hx)
  · rw [howed] at hx
    rw [← or_assoc, hrun]
    rcases List.mem_cons.1 hx with rfl | hx
    · exact .inl hnew
    · by_cases hq : x.1 = path
      · exact .inl (hq ▸ hnew)
      · rcases hi.pending x hx with h | h | h
        · exact .inl (hold _ hq (.inl h))
        · exact .inl (hold _ hq (.inr h))
        · exact .inr h
  · obtain ⟨hsince, r, hr, hm, hb, hcov⟩ := hi.syncing eb (hloop ▸ heb)
    refine ⟨hcount ▸ Nat.le_succ_of_le hsince, r, hrun.trans hr, hm, hb, ?_⟩
    rw [howed]
    unfold Phase.Covers at hcov ⊢
    split at hcov
    · exact hcov
    · exact hcov
    · intro x hx
      rcases List.mem_cons.1 hx with rfl | hx
      · exact Nat.lt_succ_of_le hsince
      · exact hcov x hx
    · trivial

omit [LinearOrder Path] in
/-- A run is admitted without touching what is pending. -/
theorem inv_enterRun {s : State Path} (hi : Inv s) (hrun : s.run = none) (trigger : RunTrigger) (loop : Loop)
    (hloop : ∀ eb, loop = .scheduledRun eb → trigger ≠ .manual ∧ eb ≤ s.fsEventCount) :
    Inv { s with run := some ⟨trigger, none, s.fsEventCount, false, .starting⟩, loop } where
  numbered := hi.numbered
  pending x hx := by
    rcases hi.pending x hx with h | h | ⟨r, hr, -⟩
    · exact .inl h
    · exact .inr (.inl h)
    · rw [hrun] at hr
      cases hr
  coherent r hr := by
    cases hr
    trivial
  syncing eb heb := ⟨(hloop eb heb).2, _, rfl, (hloop eb heb).1, rfl, trivial⟩

omit [LinearOrder Path] in
/-- The lock is released by a run that owes nothing any more. -/
theorem inv_release {s : State Path} (hi : Inv s) {r : Run Path} (hrun : s.run = some r) {state : Option RunState}
    (hpending : ∀ x ∈ s.owed, x.1 ∉ r.pending)
    (hstate : state = some .completed → r.phase = .finishing .completed) : Inv (release s r state) := by
  have kept : ∀ x ∈ s.owed, x.1 ∈ s.changedPaths ∨ x.1 ∈ s.deletedPaths := by
    intro x hx
    rcases hi.pending x hx with h | h | ⟨r', hr', -, h⟩
    · exact .inl h
    · exact .inr h
    · rw [hrun] at hr'
      cases hr'
      exact absurd h (hpending x hx)
  -- whatever the loop goes on to, as long as it is no sync
  have released : ∀ loop, (∀ eb, loop ≠ .scheduledRun eb) → Inv { s with run := none, loop } := fun loop hl =>
    ⟨hi.numbered, fun x hx => (kept x hx).imp_right .inl, fun _ h => (by cases h), fun eb h => absurd h (hl eb)⟩
  unfold release resume
  dsimp only
  split
  · rename_i hm
    refine ⟨hi.numbered, fun x hx => (kept x hx).imp_right .inl, fun _ h => (by cases h), fun eb heb => ?_⟩
    obtain ⟨-, r', hr', hm', -⟩ := hi.syncing eb heb
    rw [hrun] at hr'
    cases hr'
    exact absurd hm hm'
  · split
    · split <;> exact released _ (by simp)
    · rename_i eb heb
      split
      · rename_i hdone
        obtain ⟨-, r', hr', -, -, hcov⟩ := hi.syncing eb heb
        rw [hrun] at hr'
        cases hr'
        rw [hstate hdone.1] at hcov
        -- what came in before is covered, and nothing came in since
        have none_owed : ∀ x, x ∉ s.owed := fun x hx =>
          absurd (hcov x hx) (Nat.not_lt.2 (hdone.2 ▸ hi.numbered x hx))
        exact ⟨hi.numbered, fun x hx => absurd hx (none_owed x), fun _ h => (by cases h), fun eb h => (by cases h)⟩
      · exact released _ (by simp)
    · exact released _ (by simp)
    · rename_i hl _
      exact released s.loop fun eb h => hl eb h

omit [LinearOrder Path] in
/-- A batch is taken while nobody holds the lock. -/
theorem inv_debounced {s : State Path} (hi : Inv s) (hrun : s.run = none) :
    Inv { s with
      changedPaths := [], deletedPaths := [], loop := .watchdogRun
      run := some ⟨.watchdog, some (s.changedPaths, s.deletedPaths), s.fsEventCount, false, .starting⟩ } where
  numbered := hi.numbered
  pending x hx := by
    refine .inr (.inr ⟨_, rfl, hi.numbered x hx, ?_⟩)
    rcases hi.pending x hx with h | h | ⟨r, hr, -⟩
    · exact List.mem_append_left _ h
    · exact List.mem_append_right _ h
    · rw [hrun] at hr
      cases hr
  coherent r hr := by
    cases hr
    trivial
  syncing eb heb := by cases heb

omit [LinearOrder Path] in
/-- The run goes on: what it no longer has pending is not owed any more, or pending again. -/
theorem inv_run {s : State Path} (hi : Inv s) {r : Run Path} (hrun : s.run = some r) (r' : Run Path) (ht : r'.trigger = r.trigger)
    (hb : r'.batch = r.batch) (hn : r'.takenAt = r.takenAt) {changed deleted : List Path} {owed : List (Path × Nat)}
    (howed : owed ⊆ s.owed) (hchanged : s.changedPaths ⊆ changed) (hdeleted : s.deletedPaths ⊆ deleted)
    (hpending : ∀ x ∈ owed, x.2 ≤ r.takenAt → x.1 ∈ r.pending → x.1 ∈ changed ∨ x.1 ∈ deleted ∨ x.1 ∈ r'.pending)
    (hco : r'.Coherent)
    (hcov : ∀ eb, eb ≤ s.fsEventCount → r.batch = none → r.phase.Covers s.owed eb → r'.phase.Covers owed eb) :
    Inv { s with changedPaths := changed, deletedPaths := deleted, run := some r', owed } where
  numbered x hx := hi.numbered x (howed hx)
  pending x hx := by
    rcases hi.pending x (howed hx) with h | h | ⟨r₀, hr₀, htaken, h⟩
    · exact .inl (hchanged h)
    · exact .inr (.inl (hdeleted h))
    · rw [hrun] at hr₀
      cases hr₀
      rcases hpending x hx htaken h with h | h | h
      · exact .inl h
      · exact .inr (.inl h)
      · exact .inr (.inr ⟨r', rfl, hn ▸ htaken, h⟩)
  coherent r₀ hr₀ := by
    cases hr₀
    exact hco
  syncing eb heb := by
    obtain ⟨hsince, r₀, hr₀, hm, hnone, hc⟩ := hi.syncing eb heb
    rw [hrun] at hr₀
    cases hr₀
    exact ⟨hsince, r', rfl, ht ▸ hm, hb.trans hnone, hcov eb hsince hnone hc⟩

theorem inv_startRun {s s' : State Path} (hi : Inv s) {start : Start} (hok : Undropped s (.startRun start))
    (h : step s (.startRun start) = some s') : Inv s' := by
  simp only [step] at h
  split at h
  · rename_i trigger batch takenAt stop hrun
    simp only [Undropped, hrun, Option.bind_some] at hok
    have none_pending : batch = none → ∀ x, x ∉ Run.pending ⟨trigger, batch, takenAt, stop, .starting⟩ := by
      rintro rfl x
      simp [Run.pending]
    have same : s.owed ⊆ s.owed ∧ s.changedPaths ⊆ s.changedPaths ∧ s.deletedPaths ⊆ s.deletedPaths :=
      ⟨fun _ h => h, fun _ h => h, fun _ h => h⟩
    split at h
    · cases h
      have hb : batch = none := Option.not_isSome_iff_eq_none.1 fun hs => by cases hok hs
      exact inv_release hi hrun (fun x _ => none_pending hb x.1) fun h => by cases h
    · cases h
      have hb : batch = none := Option.not_isSome_iff_eq_none.1 fun hs => by cases hok hs
      exact inv_run hi hrun ⟨trigger, batch, takenAt, stop, .finishing .failed⟩ rfl rfl rfl same.1 same.2.1 same.2.2
        (fun x _ _ hx => absurd hx (none_pending hb x.1)) trivial fun _ _ _ _ => trivial
    · cases h
      exact inv_run hi hrun ⟨trigger, none, takenAt, stop, .full s.fsEventCount⟩ rfl rfl rfl same.1 same.2.1 same.2.2
        (fun x _ _ hx => absurd hx (none_pending rfl x.1)) trivial fun eb hle _ _ => hle
    · rename_i changed deleted
      cases h
      have work : ∀ {q : Path}, q ∈ (worklist changed deleted).map (·.1) ↔ q ∈ changed ++ deleted := by
        intro q
        simp [worklist, or_comm]
      refine inv_run hi hrun ⟨trigger, some (changed, deleted), takenAt, stop, .applying (worklist changed deleted) []⟩
        rfl rfl rfl same.1 same.2.1 same.2.2 (fun x _ _ hx => .inr (.inr ?_)) ?_ fun _ _ hb _ => ?_
      · exact List.mem_append_left _ (work.2 hx)
      · refine ⟨changed, deleted, rfl, fun x hx => work.1 ?_⟩
        rw [List.append_nil] at hx
        exact List.mem_map_of_mem hx
      · cases hb
  · cases h

theorem inv_applyNext {s s' : State Path} (hi : Inv s) {ok : Bool} (hok : Undropped s (.applyNext ok))
    (h : step s (.applyNext ok) = some s') : Inv s' := by
  simp only [step] at h
  split at h
  · rename_i trigger batch takenAt stop x left failed hrun
    have hstop : stop = false := by simpa [Undropped, hrun] using hok
    obtain ⟨changed, deleted, hb, hin⟩ := hi.coherent _ hrun
    rw [hstop, if_neg (by decide)] at h
    have covers : ∀ {r' : Run Path} {owed : List (Path × Nat)} {eb : Nat}, batch = none → r'.phase.Covers owed eb :=
      fun hnone => by cases hb.symm.trans hnone
    have hrest : ∀ y ∈ left ++ failed, y.1 ∈ changed ++ deleted := fun y hy =>
      hin y (by simp only [List.cons_append, List.mem_cons]; exact .inr hy)
    split at h
    · cases h
      -- the path is through: what was owed for it up to the take is met
      by_cases hthrough : through x.1 left failed = true
      · rw [if_pos hthrough]
        refine inv_run hi hrun ⟨trigger, batch, takenAt, false, .applying left failed⟩ rfl rfl rfl
          (fun _ h => (List.mem_filter.1 h).1) (fun _ h => h) (fun _ h => h) ?_ ⟨changed, deleted, hb, hrest⟩
          fun _ _ hn _ => covers hn
        intro y hy htaken hpend
        obtain ⟨-, hy⟩ := List.mem_filter.1 hy
        simp only [decide_eq_true_eq] at hy
        have hne : y.1 ≠ x.1 := hy.resolve_right (Nat.not_lt.2 htaken)
        right; right
        simpa [Run.pending, hne] using hpend
      · rw [if_neg hthrough]
        refine inv_run hi hrun ⟨trigger, batch, takenAt, false, .applying left failed⟩ rfl rfl rfl
          (fun _ h => h) (fun _ h => h) (fun _ h => h) ?_ ⟨changed, deleted, hb, hrest⟩ fun _ _ hn _ => covers hn
        intro y hy htaken hpend
        right; right
        simp only [Run.pending, List.map_cons, List.cons_append, List.mem_cons] at hpend
        rcases hpend with heq | hpend
        · -- another entry of the path is left, or has failed
          simp only [through, Bool.and_eq_true, decide_eq_true_eq, not_and_or, not_not] at hthrough
          simp only [Run.pending, List.mem_append, heq]
          exact hthrough
        · exact hpend
    · cases h
      refine inv_run hi hrun ⟨trigger, batch, takenAt, false, .applying left (failed ++ [x])⟩ rfl rfl rfl
        (fun _ h => h) (fun _ h => h) (fun _ h => h) ?_ ⟨changed, deleted, hb, fun y hy => hin y ?_⟩
        fun _ _ hn _ => covers hn
      · intro y hy htaken hpend
        right; right
        simp only [Run.pending, List.map_cons, List.cons_append, List.mem_cons, List.map_append, List.map_nil,
          List.mem_append, List.not_mem_nil, or_false] at hpend ⊢
        tauto
      · simp only [List.cons_append, List.mem_cons, List.mem_append, List.not_mem_nil, or_false] at hy ⊢
        tauto
  · cases h

theorem inv_batchEnds {s s' : State Path} (hi : Inv s) (h : step s .batchEnds = some s') : Inv s' := by
  simp only [step] at h
  split at h
  · rename_i trigger batch takenAt stop failed hrun
    obtain ⟨changed, deleted, hb, -⟩ := hi.coherent _ hrun
    cases h
    refine inv_run hi hrun ⟨trigger, batch, takenAt, stop, .finishing .completed⟩ rfl rfl rfl (fun _ h => h)
      (fun _ h => List.mem_union_iff.2 (.inl h))
      (fun _ h => List.mem_union_iff.2 (.inl h)) ?_ trivial fun _ _ hn _ => by cases hb.symm.trans hn
    intro x _ _ hx
    simp only [Run.pending, List.map_nil, List.nil_append, List.mem_map] at hx
    obtain ⟨⟨q, del⟩, hq, rfl⟩ := hx
    cases del with
    | false => exact .inl (List.mem_union_iff.2 (.inr (List.mem_map.2 ⟨_, List.mem_filter.2 ⟨hq, rfl⟩, rfl⟩)))
    | true => exact .inr (.inl (List.mem_union_iff.2 (.inr (List.mem_map.2 ⟨_, List.mem_filter.2 ⟨hq, rfl⟩, rfl⟩))))
  · cases h

theorem inv_trigger {s s' : State Path} (hi : Inv s) (h : step s .trigger = some s') : Inv s' := by
  simp only [step] at h
  split at h
  · cases h
  · cases h
    exact inv_manualTasks hi _

theorem inv_manualTask {s s' : State Path} (hi : Inv s) (h : step s .manualTask = some s') : Inv s' := by
  simp only [step] at h
  split at h
  · cases h
  · cases h
    unfold enterRun
    split
    · exact inv_manualTasks hi _
    · rename_i hrun
      have hrun := Option.not_isSome_iff_eq_none.1 hrun
      refine inv_enterRun (inv_manualTasks hi _) hrun .manual s.loop fun eb heb => ?_
      obtain ⟨-, r, hr, -⟩ := hi.syncing eb heb
      rw [show s.run = none from hrun] at hr
      cases hr

theorem inv_cancelRunning {s s' : State Path} (hi : Inv s) (h : step s .cancelRunning = some s') : Inv s' := by
  simp only [step] at h
  split at h
  · rename_i hrun
    cases h
    exact inv_run hi hrun ⟨_, _, _, true, .full _⟩ rfl rfl rfl (fun _ h => h) (fun _ h => h) (fun _ h => h)
      (fun _ _ _ h => .inr (.inr h)) trivial fun _ _ _ h => h
  · rename_i hrun
    cases h
    obtain ⟨changed, deleted, hb, hin⟩ := hi.coherent _ hrun
    exact inv_run hi hrun ⟨_, _, _, true, .applying _ _⟩ rfl rfl rfl (fun _ h => h) (fun _ h => h) (fun _ h => h)
      (fun _ _ _ h => .inr (.inr h)) ⟨changed, deleted, hb, hin⟩ fun _ _ _ h => h
  · cases h

theorem inv_startupSync {s s' : State Path} (hi : Inv s) (h : step s .startupSync = some s') : Inv s' := by
  simp only [step] at h
  split at h
  · cases h
    unfold enterRun
    split
    · exact hi
    · rename_i hrun
      exact inv_enterRun hi (Option.not_isSome_iff_eq_none.1 hrun) .startup .startupRun fun eb heb => by cases heb
  · cases h

theorem inv_fullSyncDue {s s' : State Path} (hi : Inv s) (h : step s .fullSyncDue = some s') : Inv s' := by
  simp only [step] at h
  split at h
  · cases h
    unfold enterRun
    split
    · exact hi
    · rename_i hrun
      refine inv_enterRun hi (Option.not_isSome_iff_eq_none.1 hrun) .scheduled (.scheduledRun s.fsEventCount) fun eb heb => ?_
      cases heb
      exact ⟨by decide, Nat.le_refl _⟩
  · cases h

/-- A batch is taken while nobody holds the lock. -/
theorem inv_batchTaken {s s' : State Path} (hi : Inv s) (hrun : s.run = none) (h : step s .debounced = some s') : Inv s' := by
  simp only [step] at h
  split at h
  · cases h
    unfold enterRun
    rw [if_neg (by simp [hrun])]
    exact inv_debounced hi hrun
  · cases h

/-- A completed full sync covers what came in before it began. -/
theorem inv_fullEnds {s s' : State Path} {state : RunState} (hi : Inv s) (h : step s (.fullEnds state) = some s') : Inv s' := by
  simp only [step] at h
  split at h
  · rename_i trigger batch takenAt stop since hrun
    split at h
    · cases h
    · cases h
      refine inv_run hi hrun ⟨trigger, batch, takenAt, stop, .finishing state⟩ rfl rfl rfl ?_ (fun _ h => h)
        (fun _ h => h) (fun _ _ _ h => by simp [Run.pending] at h) trivial ?_
      · split
        · exact fun _ h => (List.mem_filter.1 h).1
        · exact fun _ h => h
      · intro eb _ _ hcov
        cases state with
        | completed =>
          intro x hx
          have hx := (List.mem_filter.1 (show x ∈ s.owed.filter fun x => since < x.2 from hx)).2
          exact Nat.lt_of_le_of_lt hcov (of_decide_eq_true hx)
        | cancelled => trivial
        | failed => trivial
  · cases h

theorem inv_finishRun {s s' : State Path} (hi : Inv s) (h : step s .finishRun = some s') : Inv s' := by
  simp only [step] at h
  split at h
  · rename_i hrun
    cases h
    refine inv_release hi hrun (fun _ _ h => by simp [Run.pending] at h) fun h => ?_
    cases h
    rfl
  · cases h

theorem inv_step {s s' : State Path} {a : Act Path} (hi : Inv s) (hok : Undropped s a) (h : step s a = some s') : Inv s' := by
  cases a with
  | fsEvent path deleted =>
    cases h
    exact inv_fsEvent hi path deleted
  | trigger => exact inv_trigger hi h
  | manualTask => exact inv_manualTask hi h
  | cancelRunning => exact inv_cancelRunning hi h
  | startupSync => exact inv_startupSync hi h
  | fullSyncDue => exact inv_fullSyncDue hi h
  | debounced => exact inv_batchTaken hi (Option.isNone_iff_eq_none.1 hok) h
  | startRun start => exact inv_startRun hi hok h
  | fullEnds state => exact inv_fullEnds hi h
  | applyNext ok => exact inv_applyNext hi hok h
  | batchEnds => exact inv_batchEnds hi h
  | finishRun => exact inv_finishRun hi h

omit [LinearOrder Path] in
theorem Inv.kept {s : State Path} (hi : Inv s) : Kept s := by
  intro x hx
  rcases hi.pending x hx with h | h | ⟨r, hr, -, h⟩
  · exact .inl h
  · exact .inr (.inl h)
  · refine .inr (.inr ?_)
    obtain ⟨trigger, batch, takenAt, stop, phase⟩ := r
    have hco := hi.coherent _ hr
    cases phase with
    | starting =>
      cases batch with
      | none => simp [Run.pending] at h
      | some batch =>
        simp only [executing, hr]
        exact h
    | applying left failed =>
      obtain ⟨changed, deleted, hb, hin⟩ := hco
      cases hb
      simp only [executing, hr]
      simp only [Run.pending, List.mem_append, List.mem_map] at h
      rcases h with ⟨y, hy, he⟩ | ⟨y, hy, he⟩
      · exact he ▸ hin y (List.mem_append_left _ hy)
      · exact he ▸ hin y (List.mem_append_right _ hy)
    | full since => simp [Run.pending] at h
    | finishing state => simp [Run.pending] at h

/-- Whatever events, batches, full syncs, manual runs and cancellations come in whatever order:
where no batch is dropped, every event is pending or in the batch being executed until it
was applied or a full sync begun after it has completed. -/
theorem events_kept {s : State Path} (h : Reach Undropped s) : Kept s := by
  have hi : Inv s := by
    induction h with
    | init => exact inv_init
    | step _ hok hs ih => exact inv_step ih hok hs
  exact hi.kept

end Invariant

/-! ## A batch taken during a manual run -/

/-- The steps, each of which can be taken and passes the check. -/
def follow {Path : Type} [LinearOrder Path] (ok : State Path → Act Path → Bool) :
    List (Act Path) → State Path → Option (State Path)
  | [], s => some s
  | a :: acts, s => if ok s a then (step s a).bind (follow ok acts) else none

theorem reach_follow {Path : Type} [LinearOrder Path] {ok : State Path → Act Path → Bool} {P : State Path → Act Path → Prop}
    (hok : ∀ s a, ok s a = true → P s a) {acts : List (Act Path)} {s s' : State Path} (hs : Reach P s)
    (h : follow ok acts s = some s') : Reach P s' := by
  induction acts generalizing s with
  | nil =>
    cases h
    exact hs
  | cons a acts ih =>
    simp only [follow] at h
    split at h
    · rename_i ha
      obtain ⟨s₁, h₁, h₂⟩ := Option.bind_eq_some_iff.1 h
      exact ih (.step hs (hok s a ha) h₁) h₂
    · cases h

instance {Path : Type} [LinearOrder Path] (s : State Path) (a : Act Path) : Decidable (Undropped s a) := by
  unfold Undropped
  cases a <;> exact inferInstance

/-- After the startup sync: one file changes, and is applied while another is deleted. -/
def applied : List (Act Nat) :=
  [.startupSync, .startRun .begun, .fullEnds .completed, .finishRun, .fsEvent 7 false, .debounced, .startRun .begun,
    .fsEvent 8 true, .applyNext true]

/-- After the startup sync: an operator starts a run, a file changes while it goes, the loop takes
the batch, and the run ends. -/
def dropped : List (Act Nat) :=
  [.startupSync, .startRun .begun, .fullEnds .completed, .finishRun, .trigger, .manualTask, .startRun .begun,
    .fsEvent 7 false, .debounced, .fullEnds .completed, .finishRun]

theorem events_kept_applied : ∃ s, Reach Undropped s ∧ s.owed = [(8, 2)] ∧ Kept s := by
  obtain ⟨s, hs⟩ : ∃ s, follow (fun s a => decide (Undropped s a)) applied init = some s :=
    Option.isSome_iff_exists.1 (by decide)
  have hr : Reach Undropped s := reach_follow (fun _ _ => of_decide_eq_true) .init hs
  have howed : (follow (fun s a => decide (Undropped s a)) applied init).map (·.owed) = some [(8, 2)] := by decide
  rw [hs] at howed
  exact ⟨s, hr, Option.some.inj howed, events_kept hr⟩

/-- The manual run holds the lock: the batch the loop has taken is dropped, and the run began
before its event came in. -/
theorem events_dropped : ∃ s : State Nat, Reach (fun _ _ => True) s ∧ ¬ Kept s := by
  obtain ⟨s, hs⟩ : ∃ s, follow (fun _ _ => true) dropped init = some s := Option.isSome_iff_exists.1 (by decide)
  refine ⟨s, reach_follow (fun _ _ _ => trivial) .init hs, fun hk => ?_⟩
  have hlost : (follow (fun _ _ => true) dropped init).all (fun s => decide (Kept s)) = false := by decide
  rw [hs] at hlost
  exact absurd hk (of_decide_eq_false hlost)

end MappingLoop

end EmbyxManager
