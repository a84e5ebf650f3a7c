import EmbyxManager.Atom.Table
import EmbyxManager.Merge.LastCopy
/-!
# The table of merge tasks

The rows of every task at once. Ticks, cancels and retries of one process follow
one another under the tick lock; a title is enqueued without it, so between any
two actions of an operation rows may be added.
-/

namespace EmbyxManager.Merge
open Atom Prog

/-- `merge_tasks`, under its primary key. -/
abbrev TaskTable := Table MergeTask Int MergeTask.id

/-! ## Enqueueing a title -/

inductive TitleProblem where
  | unreadableStrm | outsideLibrary | scatteredParts | wholeCopy
  deriving DecidableEq

/-- `MultipartTitle`, as a scan of the mapping tree read it. -/
structure Title where
  avid : String
  /-- Each part's file, as its strm names it. -/
  targets : List Path
  /-- Part numbers absent from 1..highest. -/
  missing : List Nat
  libraryDir : Option String
  brand : Option String
  problem : Option TitleProblem

def Title.complete (t : Title) : Bool := t.missing.isEmpty && t.problem.isNone

structure Catalog where
  /-- `route_sources`. -/
  routeSources : List Path
  /-- `resolve_source`: the route a title came by, given the ledger's offline directory. -/
  resolveSource : Title → Option String → Option Path
  /-- `PurePosixPath.suffix.lower`. -/
  suffix : Path → String

inductive EnqueueOp where
  /-- `task_dirs_for`: the ledger's offline directory of a title. -/
  | taskDir (avid : String)
  | create (avid : String) (source : Path) (parts : List Path) (mergedName : String)

def EnqueueRes : EnqueueOp → Type
  | .taskDir _ => Option String
  | .create .. => MergeTask

inductive EnqueueExc where
  | api (status : Nat) (code : String)
  /-- `MergeTaskConflictError`. -/
  | conflict
  | outside (text : String)

/-- The containers of `MUXERS`. -/
def muxers : List String := [".mp4", ".m4v", ".mov", ".mkv", ".ts", ".avi", ".wmv"]

abbrev Enqueueing := Prog EnqueueRes EnqueueExc

/-- `create`, its refusal told as the API tells it. -/
def createTask (title : Title) (source : Path) (suffix : String) : Enqueueing MergeTask := do
  let created : Enqueueing MergeTask :=
    Prog.call (EnqueueOp.create title.avid source title.targets (title.avid ++ suffix))
  match ← created.attempt with
  | .ok task => pure task
  | .error .conflict => .raise (.api 409 "merge_task_exists")
  | .error e => .raise e

/-- The source asked for, else the one the title came by. -/
def chosenSource (c : Catalog) (title : Title) (requested : Option Path) : Enqueueing (Option Path) :=
  match requested with
  | some source => pure (some source)
  | none => do
    let dir : Option String ← Prog.call (EnqueueOp.taskDir title.avid)
    pure (c.resolveSource title dir)

def enqueue (c : Catalog) (title : Option Title) (requested : Option Path) : Enqueueing MergeTask :=
  match title with
  | none => .raise (.api 404 "merge_title_not_found")
  | some title =>
    if !title.complete || title.libraryDir.isNone || title.brand.isNone then .raise (.api 422 "merge_title_incomplete")
    else match (title.targets.map c.suffix).eraseDups with
      | [] => .raise (.outside "coroutine raised StopIteration")
      | [suffix] =>
        if !muxers.contains suffix then .raise (.api 422 "merge_container_unsupported")
        else do
          match ← chosenSource c title requested with
          | none => .raise (.api 422 "merge_source_required")
          | some source =>
            if source ∉ c.routeSources then .raise (.api 422 "merge_source_unknown")
            else createTask title source suffix
      | _ => .raise (.api 422 "merge_container_unsupported")

namespace TaskTable

/-- `INSERT`: the id is a new one, and no unfinished task has the AVID; an exception leaves either. -/
def creates : Env EnqueueRes EnqueueExc TaskTable
  | tasks, .taskDir _, _, tasks' => tasks' = tasks
  | tasks, .create avid source parts mergedName, r, tasks' =>
    (∃ id now, tasks.find id = none ∧ (∀ t ∈ tasks.rows, t.avid = avid → t.state.finished = true) ∧
      tasks' = tasks.insertNew (.created id avid source parts mergedName now) ∧
      ∀ t : MergeTask, r = .ok t → t = .created id avid source parts mergedName now) ∨
    (tasks' = tasks ∧ ∃ e, r = .error e ∧ (e = .conflict → ∃ t ∈ tasks.rows, t.avid = avid ∧ t.state.finished = false))

/-- A title is enqueued, whatever it is and wherever the call ends. -/
def Enqueues (tasks tasks' : TaskTable) : Prop :=
  ∃ c title requested, Stops creates tasks (enqueue c title requested) tasks'

/-! ## Operations -/

/-- What an action may be answered, and what it leaves in the table. -/
def rowsAnswer (tasks tasks' : TaskTable) : (op : Op) → Except Exc (Res op) → Prop
  | .openTasks, r =>
    tasks' = tasks ∧ ∀ found : List MergeTask, r = .ok found →
      found.Perm (tasks.rows.filter fun t => !t.state.finished) ∧ found.Pairwise fun t u => t.id ≤ u.id
  | .getTask id, r => tasks' = tasks ∧ ∀ found : Option MergeTask, r = .ok found → found = tasks.find id
  | .transition id expected state f, r =>
    (∃ now, tasks' = tasks.modify id (fun t => t.state = expected) (fun t => t.written now (some state) f) (fun _ => rfl) ∧
      ∀ t : Option MergeTask, r = .ok t →
        t = if tasks.matched id fun t => t.state = expected then tasks'.find id else none) ∨
    (tasks' = tasks ∧ ∃ e, r = .error e)
  | .update id f, r =>
    (∃ now, tasks' = tasks.modify id (fun _ => true) (fun t => t.written now none f) (fun _ => rfl) ∧
      ∀ t : Option MergeTask, r = .ok t → t = tasks'.find id) ∨
    (tasks' = tasks ∧ ∃ e, r = .error e)
  | _, _ => tasks' = tasks

/-- An action, and the titles enqueued before the next one. -/
def answers : Env Res Exc TaskTable := fun tasks op r tasks' =>
  raisesOutside r ∧ ∃ mid, rowsAnswer tasks mid op r ∧ Relation.ReflTransGen Enqueues mid tasks'

end TaskTable

/-- The table, and what it was before each action so far. -/
structure Run where
  tasks : TaskTable
  past : List TaskTable

namespace Run

def answers : Env Res Exc Run := fun run op r run' =>
  TaskTable.answers run.tasks op r run'.tasks ∧ run'.past = run.tasks :: run.past

/-- Any sequence of enqueued titles, ticks, cancels and retries, each under the configuration of its moment. -/
inductive Reach : Run → Prop
  | start : Reach ⟨.empty, []⟩
  | enqueued {run tasks} : Reach run → TaskTable.Enqueues run.tasks tasks → Reach ⟨tasks, run.tasks :: run.past⟩
  | operated {run run'} (m : MergeService) (a : Action) : Reach run → Stops answers run (a.program m) run' → Reach run'

end Run

namespace TaskTable

/-! ## What one write does -/

/-- A row before and after an action. -/
inductive Wrote (op : Op) (t : MergeTask) : MergeTask → Prop
  | kept : Wrote op t t
  | moved {s f} (now : Time) : op = .transition t.id t.state s f → Wrote op t (t.written now (some s) f)
  | noted {f} (now : Time) : op = .update t.id f → Wrote op t (t.written now none f)

section writes
variable {tasks tasks' : TaskTable} {op : Op} {r : Except Exc (Res op)}

theorem wrote_modify {p : MergeTask → Bool} {g : MergeTask → MergeTask} {hg : ∀ t, (g t).id = t.id} {id : Int}
    (hw : ∀ t, t.id = id → p t = true → Wrote op t (g t)) (k : Int) :
    (tasks.find k = none ∧ (tasks.modify id p g hg).find k = none) ∨
      ∃ t t', tasks.find k = some t ∧ (tasks.modify id p g hg).find k = some t' ∧ Wrote op t t' := by
  rw [Table.find_modify]
  cases hk : tasks.find k with
  | none => exact .inl ⟨rfl, rfl⟩
  | some t =>
    refine .inr ⟨t, _, rfl, rfl, ?_⟩
    dsimp only
    by_cases hc : k = id ∧ p t = true
    · rw [if_pos hc]
      exact hw t ((Table.find_key hk).trans hc.1) hc.2
    · rw [if_neg hc]
      exact .kept

/-- No row comes or goes, and each is kept, moved or noted. -/
theorem wrote_of_answer (h : rowsAnswer tasks tasks' op r) (k : Int) :
    (tasks.find k = none ∧ tasks'.find k = none) ∨
      ∃ t t', tasks.find k = some t ∧ tasks'.find k = some t' ∧ Wrote op t t' := by
  have same : tasks' = tasks → (tasks.find k = none ∧ tasks'.find k = none) ∨
      ∃ t t', tasks.find k = some t ∧ tasks'.find k = some t' ∧ Wrote op t t' := by
    rintro rfl
    cases hk : tasks'.find k with
    | none => exact .inl ⟨rfl, rfl⟩
    | some t => exact .inr ⟨t, t, rfl, rfl, .kept⟩
  cases op with
  | transition id e s f =>
    rcases h with ⟨now, rfl, -⟩ | ⟨h, -⟩
    · refine wrote_modify (fun t hid ht => ?_) k
      obtain rfl := hid
      obtain rfl := of_decide_eq_true ht
      exact .moved now rfl
    · exact same h
  | update id f =>
    rcases h with ⟨now, rfl, -⟩ | ⟨h, -⟩
    · refine wrote_modify (fun t hid _ => ?_) k
      obtain rfl := hid
      exact .noted now rfl
    · exact same h
  | openTasks => exact same h.1
  | getTask id => exact same h.1
  | _ => exact same h

theorem find_before {k : Int} {t' : MergeTask} (h : rowsAnswer tasks tasks' op r) (ht : tasks'.find k = some t') :
    ∃ t, tasks.find k = some t ∧ Wrote op t t' := by
  rcases wrote_of_answer h k with ⟨-, hk⟩ | ⟨t, u, hk, hu, hw⟩
  · rw [hk] at ht
    cases ht
  · rw [hu] at ht
    cases ht
    exact ⟨t, hk, hw⟩

theorem find_after {k : Int} {t : MergeTask} (h : rowsAnswer tasks tasks' op r) (ht : tasks.find k = some t) :
    ∃ t', tasks'.find k = some t' ∧ Wrote op t t' := by
  rcases wrote_of_answer h k with ⟨hk, -⟩ | ⟨u, t', hk, hu, hw⟩
  · rw [hk] at ht
    cases ht
  · rw [hk] at ht
    cases ht
    exact ⟨t', hu, hw⟩

end writes

end TaskTable

/-! ## Well-formed tables -/

/-- Uploading or later: the Job's result has been taken over. -/
def MergeState.carries : MergeState → Bool
  | uploading | verifying | replacing | archiving => true
  | _ => false

structure MergeTask.Fit (t : MergeTask) : Prop where
  queued : t.state = .queued → t.jobName = none
  failed : t.state = .failed → ∃ s, t.failedState = some s ∧ s.active = true
  carries : t.stage.carries = true → t.mergedBytes.isSome = true ∧ t.mergedSha1.isSome = true

namespace TaskTable

structure Sound (tasks : TaskTable) : Prop where
  fit : ∀ k t, tasks.find k = some t → t.Fit
  oneMerging : ∀ j k t u, tasks.find j = some t → tasks.find k = some u → t.state = .merging → u.state = .merging → j = k
  oneOpen : ∀ j k t u, tasks.find j = some t → tasks.find k = some u → t.avid = u.avid →
    t.state.finished = false → u.state.finished = false → j = k

/-- Rows are added at most, and those are queued. -/
structure Grows (tasks tasks' : TaskTable) : Prop where
  keeps : ∀ k t, tasks.find k = some t → tasks'.find k = some t
  added : ∀ k t, tasks'.find k = some t → tasks.find k = some t ∨ t.state = .queued

theorem Grows.refl (tasks : TaskTable) : Grows tasks tasks := ⟨fun _ _ h => h, fun _ _ h => .inl h⟩

theorem Grows.trans {a b c : TaskTable} (h : Grows a b) (h' : Grows b c) : Grows a c := by
  refine ⟨fun k t hk => h'.keeps k t (h.keeps k t hk), fun k t hk => ?_⟩
  rcases h'.added k t hk with hb | hq
  · exact h.added k t hb
  · exact .inr hq

/-- An `INSERT` the unique index allows. -/
theorem Sound.insert {tasks : TaskTable} {task : MergeTask} (hs : Sound tasks) (hnew : tasks.find task.id = none)
    (hq : task.state = .queued) (hj : task.jobName = none)
    (hopen : ∀ t ∈ tasks.rows, t.avid = task.avid → t.state.finished = true) : Sound (tasks.insertNew task) := by
  have row : ∀ k t, (tasks.insertNew task).find k = some t → tasks.find k = some t ∨ (t = task ∧ k = task.id) := by
    intro k t hk
    rw [Table.find_insertNew] at hk
    split at hk
    · rename_i hc
      cases hk
      exact .inr ⟨rfl, hc.2.symm⟩
    · exact .inl hk
  have unmerged : ∀ {t}, t = task → t.state ≠ .merging := by
    rintro _ rfl hm
    rw [hq] at hm
    cases hm
  have alone : ∀ {k t}, tasks.find k = some t → t.avid = task.avid → t.state.finished = false → False := by
    intro k t hk ha hf
    rw [hopen t (Table.mem_of_find hk) ha] at hf
    cases hf
  refine ⟨fun k t hk => ?_, fun j k t u ht hu hmt hmu => ?_, fun j k t u ht hu havid hft hfu => ?_⟩
  · rcases row k t hk with hk | ⟨rfl, -⟩
    · exact hs.fit k t hk
    · refine ⟨fun _ => hj, fun hf => ?_, fun hc => ?_⟩
      · rw [hq] at hf
        cases hf
      · rw [stage_of_state hq (by decide)] at hc
        cases hc
  · -- the new row is queued, so it is not the one that merges
    rcases row j t ht with ht | ⟨ht, -⟩
    · rcases row k u hu with hu | ⟨hu, -⟩
      · exact hs.oneMerging j k t u ht hu hmt hmu
      · exact absurd hmu (unmerged hu)
    · exact absurd hmt (unmerged ht)
  · rcases row j t ht with ht' | ⟨rfl, rfl⟩ <;> rcases row k u hu with hu' | ⟨rfl, rfl⟩
    · exact hs.oneOpen j k t u ht' hu' havid hft hfu
    · exact (alone ht' havid hft).elim
    · exact (alone hu' havid.symm hfu).elim
    · rfl

theorem grows_insert {tasks : TaskTable} {task : MergeTask} (hnew : tasks.find task.id = none)
    (hq : task.state = .queued) : Grows tasks (tasks.insertNew task) := by
  refine ⟨fun k t hk => ?_, fun k t hk => ?_⟩
  · rw [Table.find_insertNew, if_neg]
    · exact hk
    · rintro ⟨-, rfl⟩
      rw [hnew] at hk
      cases hk
  · rw [Table.find_insertNew] at hk
    split at hk
    · cases hk
      exact .inr hq
    · exact .inl hk

theorem Sound.enqueues {tasks tasks' : TaskTable} (hs : Sound tasks) (h : Enqueues tasks tasks') :
    Sound tasks' ∧ Grows tasks tasks' := by
  obtain ⟨c, title, requested, hstop⟩ := h
  have step : ∀ s op r s', Sound s ∧ Grows tasks s → True → creates s op r s' → Sound s' ∧ Grows tasks s' := by
    rintro s op r s' ⟨hs, hg⟩ - ht
    cases op with
    | taskDir avid =>
      obtain rfl : s' = s := ht
      exact ⟨hs, hg⟩
    | create avid source parts mergedName =>
      rcases ht with ⟨id, now, hnew, hopen, rfl, -⟩ | ⟨rfl, -⟩
      · exact ⟨hs.insert hnew rfl rfl hopen, hg.trans (grows_insert hnew rfl)⟩
      · exact ⟨hs, hg⟩
  have kept := keeps_of_uses (G := fun _ _ => True) (I := fun s => Sound s ∧ Grows tasks s)
    (uses_any (enqueue c title requested)) (fun _ _ _ _ => trivial) fun s op r s' _ hI ht => step s op r s' hI trivial ht
  exact wp_stops (I := fun s => Sound s ∧ Grows tasks s) step (kept tasks ⟨hs, .refl _⟩) ⟨hs, .refl _⟩ hstop

theorem Sound.grown {tasks tasks' : TaskTable} (hs : Sound tasks) (h : Relation.ReflTransGen Enqueues tasks tasks') :
    Sound tasks' ∧ Grows tasks tasks' := by
  induction h with
  | refl => exact ⟨hs, .refl _⟩
  | tail _ he ih =>
    obtain ⟨hs', hg⟩ := ih.1.enqueues he
    exact ⟨hs', ih.2.trans hg⟩

end TaskTable

end EmbyxManager.Merge
