import EmbyxManager.FillActor.CloudSafety
/-!
# Processes that move files at CloudDrive

Processes apply plans and reconcile moves one operation after another, and share the
repository, CloudDrive and the mutation lock. One that stops loses the lock; what it
has left behind is taken up by whoever comes next.
-/

namespace EmbyxManager.FillActor

open Atom Prog

/-! ## What a process runs -/

inductive CloudJob where
  | apply (planId revision : String) (candidateIds : List String)
  | reconcile

def CloudJob.program (svc : FillActorService) : CloudJob → FillActorService.Locked Unit
  | apply planId revision candidateIds => discard (svc.apply planId revision candidateIds).attempt
  | reconcile => discard svc.reconcileMoves.attempt

/-- Its jobs, each under the configuration of its time. -/
def process (jobs : List (FillActorService × CloudJob)) : FillActorService.Locked Unit :=
  Prog.forEach jobs fun j => j.2.program j.1

/-- Before any move: a repository with its plans, and the processes that will work on it. -/
def unmoved {ι : Type} {b : Backend} (store : b.Store) (jobs : ι → List (FillActorService × CloudJob)) :
    Pool (Locking.Ans CloudOp.Res) CloudExc Unit (Locking.Guarded (CloudWorld b) ι) ι :=
  ⟨⟨⟨store, []⟩, none, fun _ => False⟩, fun i => process (jobs i)⟩

/-- What some interleaving reaches. -/
abbrev MoveReach {ι : Type} [DecidableEq ι] (b : Backend) :=
  Pool.Reach (α := Unit) (Locking.env (ι := ι) (CloudWorld.answers b))

variable {b : Backend} {C : String × String → Option CandidateRecord} {ι : Type} [DecidableEq ι]

theorem sound_unmoved {s : b.Store} (hop : ∀ k, b.operation s k = none) (hres : ∀ k, b.moveResult s k = none) :
    Sound (b.candidate s) ⟨s, []⟩ where
  candidates _ := rfl
  placed k row hrow := by
    rw [show b.operation s k = none from hop k] at hrow
    cases hrow
  single k _ row _ hrow := by
    rw [show b.operation s k = none from hop k] at hrow
    cases hrow
  unresolved k _ _ _ := hres k
  finalized k row hrow := by
    rw [show b.operation s k = none from hop k] at hrow
    cases hrow
  moved k result hresult := by
    rw [show b.moveResult s k = none from hres k] at hresult
    cases hresult
  journalled _ _ _ he := by cases he
  once _ := Nat.zero_le _
  legal _ he := by cases he

/-! ## Looks outside the lock -/

/-- What a process asks without the lock. -/
def Free (op : CloudOp) : Prop := op.looks = true ∧ op.noted = false

section locked
variable {svc : FillActorService}

/-- Without the lock before, and without it after. -/
abbrev Unlocked {α : Type} (b : Backend) (C : String × String → Option CandidateRecord) (p : FillActorService.Locked α) : Prop :=
  Keeps (Locking.view (CloudWorld.answers b) (Sound C)) (Locking.guard Allowed Free) (fun q => q = none) (fun _ q => q = none) p

theorem unlocked_look {op : CloudOp} (hf : Free op) : Unlocked b C (FillActorService.look op) := by
  rintro _ rfl
  exact Locking.wp_look hf (fun _ _ _ _ _ => rfl) fun _ => rfl

/-- What a look has found is in the repository. -/
theorem wp_looked {op : CloudOp} (hf : Free op) {Q : op.Res → Option (CloudWorld b) → Prop}
    (hQ : ∀ a w, Sound C w → CloudWorld.answers b w op (.ok a) w → Q a none) :
    (FillActorService.look op).wp (Locking.view (CloudWorld.answers b) (Sound C)) (Locking.guard Allowed Free) Q
      (fun _ q => q = none) none := by
  refine Locking.wp_look hf (fun a w w' hs ht => ?_) fun _ => rfl
  obtain rfl := answers_quiet hf.2 ht
  exact hQ a w' hs ht

theorem wp_clock {Q : Time → Option (CloudWorld b) → Prop} (hQ : ∀ time, Q time none) :
    (Locking.lift now).wp (Locking.view (CloudWorld.answers b) (Sound C)) (Locking.guard Allowed Free) Q
      (fun _ q => q = none) none := by
  change (FillActorService.look .now).wp _ _ _ _ _
  exact wp_looked ⟨rfl, rfl⟩ fun time _ _ _ => hQ time

theorem unlocked_within {α : Type} {p : Move α}
    (h : ∀ w, Sound C w → p.wp (CloudWorld.answers b) Allowed (fun _ _ => True) (fun _ _ => True) w) :
    Unlocked b C (Locking.within p) := by
  rintro _ rfl
  refine Locking.wp_within (fun _ => rfl) fun w hs => ?_
  exact wp_mono (h w hs) (fun _ _ _ => rfl) fun _ _ _ => rfl

theorem unlocked_runMove {planId : String} {record : CandidateRecord} (hcand : C (planId, record.candidateId) = some record) :
    Unlocked b C (svc.runMove planId record) := by
  unfold FillActorService.runMove
  split
  · rename_i cloud hcloud
    have hrun : Unlocked b C (Locking.within (svc.runLocked planId record cloud)) :=
      unlocked_within fun w hs => wp_runLocked hs hcand hcloud
    have hready : Unlocked b C FillActorService.rootsReady := unlocked_look ⟨rfl, rfl⟩
    unfold FillActorService.runCloudMove
    intro q hq
    refine wp_ite (fun _ => hq) fun _ => ?_
    refine keeps_bind hready (fun ready q hq => ?_) q hq
    exact wp_ite (fun _ => hq) fun _ => hrun q hq
  · exact unlocked_look ⟨rfl, rfl⟩

theorem unlocked_applyEach {planId : String} (records : List CandidateRecord)
    (hcand : ∀ x ∈ records, C (planId, x.candidateId) = some x) (results : List MoveResult) :
    Unlocked b C (svc.applyEach planId records results) := by
  induction records generalizing results with
  | nil => exact keeps_pure _
  | cons record rest ih =>
    have hrest := fun results => ih (fun x hx => hcand x (List.mem_cons_of_mem _ hx)) results
    have hstop : Unlocked b C FillActorService.stopRequested := unlocked_look ⟨rfl, rfl⟩
    refine keeps_bind hstop fun stop q hq => wp_ite (fun _ => hq) fun _ => ?_
    refine keeps_bind (unlocked_look ⟨rfl, rfl⟩) (fun cached => ?_) q hq
    cases cached with
    | some cached => exact hrest _
    | none => exact keeps_bind (unlocked_runMove (hcand record List.mem_cons_self)) fun _ => hrest _

/-- A plan that was read is the repository's. -/
theorem wp_storedPlan {planId revision : String} {Q : PlanRecord → Option (CloudWorld b) → Prop}
    (hQ : ∀ r : PlanRecord, (∀ candidateId x, r.candidate candidateId = some x → C (planId, x.candidateId) = some x) → Q r none) :
    (svc.storedPlan planId revision).wp (Locking.view (CloudWorld.answers b) (Sound C)) (Locking.guard Allowed Free) Q
      (fun _ q => q = none) none := by
  unfold FillActorService.storedPlan
  refine (wp_bind _ _).2 (wp_looked ⟨rfl, rfl⟩ fun found w hs hplan => ?_)
  cases found with
  | none => rfl
  | some stored =>
    have hstored := hplan.1.2 _ rfl
    refine wp_ite (fun _ => rfl) fun _ => wp_ite (fun _ => rfl) fun _ => (wp_bind _ _).2 (wp_clock fun time => ?_)
    refine wp_ite (fun _ => rfl) fun _ => hQ stored fun candidateId x hx => ?_
    have hfound := Backend.getPlan_ok hstored hx
    rw [Backend.candidate_id hfound]
    exact (hs.candidates _).symm.trans hfound

theorem unlocked_apply (planId revision : String) (candidateIds : List String) :
    Unlocked b C (svc.apply planId revision candidateIds) := by
  rintro _ rfl
  unfold FillActorService.apply
  refine wp_ite (fun _ => rfl) fun _ => (wp_bind _ _).2 (wp_storedPlan fun stored hstored => ?_)
  refine wp_ite (fun _ => rfl) fun _ => wp_ite (fun _ => rfl) fun _ => ?_
  refine unlocked_applyEach _ (fun x hx => ?_) [] _ rfl
  obtain ⟨candidateId, -, hx⟩ := List.mem_filterMap.1 hx
  exact hstored candidateId x hx

theorem unlocked_reconcileMoves : Unlocked b C svc.reconcileMoves := by
  have hready : Unlocked b C FillActorService.rootsReady := unlocked_look ⟨rfl, rfl⟩
  have hlist : Unlocked b C (FillActorService.look .listUnresolvedCloudMoves) := unlocked_look ⟨rfl, rfl⟩
  unfold FillActorService.reconcileMoves
  intro q hq
  refine wp_ite (fun _ => hq) fun _ => ?_
  refine keeps_bind hready (fun ready => ?_) q hq
  intro q hq
  refine wp_ite (fun _ => hq) fun _ => ?_
  refine keeps_bind hlist (fun operations => keeps_foldEach (fun operation _ results => ?_) _) q hq
  rintro _ rfl
  refine (wp_bind _ _).2 (wp_looked ⟨rfl, rfl⟩ fun found w hs hfound => ?_)
  have hrecord := Backend.getCandidate_ok (hfound.1.2 _ rfl)
  cases found with
  | none => rfl
  | some record =>
    dsimp only
    split
    · rfl
    · rename_i cloud hcloud
      have hcand : C (operation.planId, operation.candidateId) = some record := (hs.candidates _).symm.trans hrecord.symm
      exact keeps_bind (unlocked_within fun w hs => wp_reconcileLocked hs hcand hcloud) (fun _ => keeps_pure _) _ rfl

theorem unlocked_process (jobs : List (FillActorService × CloudJob)) : Unlocked b C (process jobs) := by
  refine keeps_forEach fun j _ => ?_
  obtain ⟨svc, job⟩ := j
  cases job with
  | apply planId revision candidateIds =>
    exact keeps_discard (keeps_attempt (unlocked_apply planId revision candidateIds) fun _ _ h => h)
  | reconcile => exact keeps_discard (keeps_attempt unlocked_reconcileMoves fun _ _ h => h)

end locked

/-! ## Every run -/

section runs
variable {s : b.Store} {jobs : ι → List (FillActorService × CloudJob)}
  {c c' : Pool (Locking.Ans CloudOp.Res) CloudExc Unit (Locking.Guarded (CloudWorld b) ι) ι}

theorem process_wp (jobs : List (FillActorService × CloudJob)) :
    (process jobs).wp (Locking.view (CloudWorld.answers b) (Sound C)) (Locking.guard Allowed Free) (fun _ _ => True)
      (fun _ _ => True) none :=
  wp_mono (unlocked_process jobs none rfl) (fun _ _ _ => trivial) fun _ _ _ => trivial

theorem free_answers {w w' : CloudWorld b} {op : CloudOp} {r : Except CloudExc op.Res} (hf : Free op)
    (ht : CloudWorld.answers b w op r w') : w' = w :=
  answers_quiet hf.2 ht

theorem sound_reach (hop : ∀ k, b.operation s k = none) (hres : ∀ k, b.moveResult s k = none)
    (h : MoveReach b (unmoved s jobs) c) : Sound (b.candidate s) c.world.state :=
  Locking.reach (fun _ _ _ _ hs hg ht => (hs.step hg ht).1) (fun _ _ _ _ hf ht => free_answers hf ht)
    (sound_unmoved hop hres) (fun i => process_wp (jobs i)) h

theorem keeping_reach (hop : ∀ k, b.operation s k = none) (hres : ∀ k, b.moveResult s k = none)
    (h : MoveReach b (unmoved s jobs) c) (h' : MoveReach b c c') : Keeping c.world.state c'.world.state :=
  Locking.reach_between (R := Keeping) (fun _ _ _ hk => hk) (fun _ _ _ h h' k result hk => h' k result (h k result hk))
    (fun _ _ _ _ hs hg ht => hs.step hg ht) (fun _ _ _ _ hf ht => free_answers hf ht) (sound_unmoved hop hres) (fun i => process_wp (jobs i)) h h'

/-- The move of a candidate is submitted at most once, when its operation is journalled as
submitting and no other unresolved operation has its source. -/
theorem submitted_once (hop : ∀ k, b.operation s k = none) (hres : ∀ k, b.moveResult s k = none)
    (h : MoveReach b (unmoved s jobs) c) :
    (∀ k, c.world.state.log.countP (fun e => e.op.submits k) ≤ 1) ∧
      ∀ e ∈ c.world.state.log, ∀ planId candidateId source dir, e.op = .moveFile planId candidateId source dir →
        Submitting (planId, candidateId) source e.store :=
  have hs := sound_reach hop hres h
  ⟨hs.once, fun e he => (hs.legal e he).submitting⟩

/-- Every requested transition is allowed; an operation is terminal exactly where a result was
finalized with it, and has none otherwise; a move is `moved` only when it was observed; and a
stored result stays. -/
theorem operations_agree (hop : ∀ k, b.operation s k = none) (hres : ∀ k, b.moveResult s k = none)
    (h : MoveReach b (unmoved s jobs) c) :
    (∀ e ∈ c.world.state.log, ∀ record ∈ e.op.requests,
      record.state ∈ cloudMoveTransitions ((b.operation e.store record.key).map (·.state))) ∧
    (∀ k row, b.operation c.world.state.store k = some row →
      (row.state.terminal = true ↔ ∃ result, b.moveResult c.world.state.store k = some result ∧
        ∃ e ∈ c.world.state.log, e.op = .finalizeCloudMove row result) ∧
      (row.state.terminal = false → b.moveResult c.world.state.store k = none)) ∧
    (∀ k result, b.moveResult c.world.state.store k = some result → result.state = .moved →
      ∃ x cloud, b.candidate s k = some x ∧ x.cloud = some cloud ∧ Observed cloud c.world.state.log) ∧
    ∀ c', MoveReach b c c' → ∀ k result, b.moveResult c.world.state.store k = some result →
      b.moveResult c'.world.state.store k = some result := by
  have hs := sound_reach hop hres h
  refine ⟨fun e he => (hs.legal e he).transition, fun k row hrow => ⟨⟨hs.finalized k row hrow, ?_⟩, hs.unresolved k row hrow⟩,
    hs.moved, fun c' h' => keeping_reach hop hres h h'⟩
  rintro ⟨result, hresult, -⟩
  by_contra hopen
  have hnone := hs.unresolved k row hrow (by simpa using hopen)
  rw [hnone] at hresult
  cases hresult

end runs

/-! ## Two processes and one file -/

namespace Example

def digest : String := "0123456789abcdef0123456789abcdef0123456789abcdef0123456789abcdef"

def file : CloudFileMetadata := ⟨"/in/a.mp4", "1", "a.mp4", 5, 7, []⟩

def cloud : CloudSource := ⟨digest, "/lib/x", file, by decide⟩

def candidate : CandidateRecord := ⟨"c", "ABC-001", "/s/a.strm", "/s", "", ⟨1, 2, 3, 4, 5⟩, some cloud⟩

def plan : PlanRecord := ⟨⟨"p", "r", 0, 100, [("c", "ABC-001")], ""⟩, [candidate], 1, by decide⟩

def stored : Memory := Memory.empty.savePlan plan

def service : FillActorService := ⟨true, true, true, some ⟨"/lib"⟩, ["/s"], fun _ => some "x", 1⟩

/-- Both processes apply the plan; the second reconciles first. -/
def work : Bool → List (FillActorService × CloudJob)
  | false => [(service, .apply "p" "r" ["c"])]
  | true => [(service, .reconcile), (service, .apply "p" "r" ["c"])]

def wrote (s : Memory) : Except RepositoryError Memory → Except CloudExc Unit × Memory
  | .ok s' => (.ok (), s')
  | .error _ => (.error (.value ""), s)

/-- CloudDrive moves the file at once. -/
def listing (log : List (CloudEntry .memory)) (directory : String) : List CloudFileMetadata :=
  if log.any (·.op.submits ("p", "c")) then
    if directory = "/lib/x" then [{ file with path := "/lib/x/a.mp4" }] else []
  else if directory = "/in" then [file] else []

def answer (w : CloudWorld .memory) : (op : CloudOp) → Except CloudExc op.Res × Memory
  | .now => (.ok (5 : Time), w.store)
  | .token => (.ok "t", w.store)
  | .sleep => (.ok (), w.store)
  | .rootsReady => (.ok true, w.store)
  | .stopRequested => (.ok false, w.store)
  | .localMove .. => (.error (.other ""), w.store)
  | .hasSymlinkComponent .. => (.ok false, w.store)
  | .isWithin .. => (.ok true, w.store)
  | .isFile _ => (.ok true, w.store)
  | .fingerprint _ => (.ok candidate.fingerprint, w.store)
  | .parseMapping .. => (.ok ⟨digest, file.path⟩, w.store)
  | .listDirectory directory => (.ok (listing w.log directory), w.store)
  | .ensureDirectory .. => (.ok true, w.store)
  | .moveFile .. => (.ok ⟨true, none, []⟩, w.store)
  | .getPlan planId => (.ok (Memory.getPlan planId w.store), w.store)
  | .getCandidate planId candidateId => (.ok (Memory.getCandidate planId candidateId w.store), w.store)
  | .getMoveResult planId candidateId => (.ok (Memory.getMoveResult planId candidateId w.store), w.store)
  | .getCloudMoveOperation planId candidateId => (.ok (Memory.getCloudMoveOperation planId candidateId w.store), w.store)
  | .listUnresolvedCloudMoves => (.ok (Memory.listUnresolvedCloudMoves w.store), w.store)
  | .saveMoveResult planId result => wrote w.store (Memory.saveMoveResult planId result w.store)
  | .saveCloudMoveOperation record => wrote w.store (Memory.saveCloudMoveOperation record w.store)
  | .finalizeCloudMove operation result => wrote w.store (Memory.finalizeCloudMove operation result w.store)

/-- The lock is given where it is free. -/
def pick (i : Bool) (_ : Unit) (g : Locking.Guarded (CloudWorld .memory) Bool) :
    (op : Locking CloudOp) → Except CloudExc (Locking.Ans CloudOp.Res op) × Locking.Guarded (CloudWorld .memory) Bool
  | .acquire =>
    if g.holder = none then (.ok (), { g with holder := some i }) else (.error (.other "locked"), g)
  | .release => (.ok (), { g with holder := if g.holder = some i then none else g.holder })
  | .act op =>
    ((answer g.state op).1, { g with state :=
      ⟨(answer g.state op).2, if op.noted then ⟨op, (answer g.state op).1, g.state.store⟩ :: g.state.log else g.state.log⟩ })

theorem wrote_written {s : Memory} (write : Except RepositoryError Memory) :
    Written (b := .memory) s (wrote s write).2 write (wrote s write).1 := by
  cases write with
  | ok s' => exact .inl ⟨rfl, rfl⟩
  | error e => exact .inr ⟨⟨_, rfl⟩, .inl rfl⟩

theorem answers_answer (w : CloudWorld .memory) (op : CloudOp) :
    Backend.answers .memory w.store (answer w op).2 op (answer w op).1 := by
  cases op with
  | saveMoveResult | saveCloudMoveOperation | finalizeCloudMove => exact wrote_written _
  | getPlan | getCandidate | getMoveResult | getCloudMoveOperation =>
    refine ⟨rfl, ?_⟩
    rintro _ ⟨⟩
    rfl
  | listUnresolvedCloudMoves =>
    refine ⟨rfl, ?_⟩
    rintro _ ⟨⟩
    rfl
  | _ => rfl

theorem pick_env (i : Bool) (x : Unit) (g : Locking.Guarded (CloudWorld .memory) Bool) (op : Locking CloudOp)
    (hg : g.stopped = fun _ => False) :
    Locking.env (CloudWorld.answers .memory) i g op (pick i x g op).1 (pick i x g op).2 ∧
      (pick i x g op).2.stopped = fun _ => False := by
  have hrun : ¬g.stopped i := by rw [hg]; exact id
  cases op with
  | acquire =>
    unfold pick
    by_cases hfree : g.holder = none
    · rw [if_pos hfree]
      refine ⟨⟨hrun, rfl, .inl ⟨rfl, ?_, rfl, ?_⟩⟩, hg⟩
      · rw [hfree]
        exact nofun
      · funext j
        simp [hg, hfree]
    · rw [if_neg hfree]
      exact ⟨⟨hrun, rfl, .inr ⟨⟨_, rfl⟩, rfl, rfl⟩⟩, hg⟩
  | release => exact ⟨⟨hrun, rfl, rfl, rfl⟩, hg⟩
  | act op => exact ⟨⟨hrun, ⟨answers_answer g.state op, rfl⟩, rfl, rfl⟩, hg⟩

/-- The first process to its end, and then the second. -/
def moved : Pool (Locking.Ans CloudOp.Res) CloudExc Unit (Locking.Guarded (CloudWorld .memory) Bool) Bool :=
  (List.replicate 60 (false, ()) ++ List.replicate 60 (true, ())).foldl (Pool.turn pick) (unmoved (b := .memory) stored work)

theorem moved_reach : MoveReach .memory (unmoved stored work) moved :=
  Pool.reach_turns_of (J := fun g => g.stopped = fun _ => False) pick_env _ rfl

theorem stored_operation (k : String × String) : Backend.operation .memory stored k = none := rfl

theorem stored_result (k : String × String) : Backend.moveResult .memory stored k = none := rfl

set_option maxRecDepth 4000 in
/-- The file is moved, by one submission. -/
theorem moved_once : moved.world.state.log.countP (fun e => e.op.submits ("p", "c")) = 1 ∧
    Backend.moveResult .memory moved.world.state.store ("p", "c") = some ⟨"c", "ABC-001", "a.mp4", .moved, none⟩ := by
  with_unfolding_all decide

end Example

theorem submitted_once_moved : Example.moved.world.state.log.countP (fun e => e.op.submits ("p", "c")) = 1 ∧
    ∀ k, Example.moved.world.state.log.countP (fun e => e.op.submits k) ≤ 1 :=
  ⟨Example.moved_once.1, (submitted_once Example.stored_operation Example.stored_result Example.moved_reach).1⟩

theorem operations_agree_moved : ∃ x cloud, Backend.candidate .memory Example.stored ("p", "c") = some x ∧
    x.cloud = some cloud ∧ Observed cloud Example.moved.world.state.log :=
  (operations_agree Example.stored_operation Example.stored_result Example.moved_reach).2.2.1 ("p", "c")
    ⟨"c", "ABC-001", "a.mp4", .moved, none⟩ Example.moved_once.2 rfl

end EmbyxManager.FillActor
