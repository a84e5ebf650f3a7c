import EmbyxManager.FillActor.CloudMoves
import EmbyxManager.FillActor.LocalMoves
/-!
# The configuration an apply runs under

The service reads its settings through a callable, and every read returns what is saved by
then. A plan carries the version it was scanned under; `_get_plan` compares it once, and
from there on each candidate is checked, journalled and moved under whatever the settings
have become. Here every read of the runtime is an action of its own, so that a
configuration can be saved between any two of them.
-/

namespace EmbyxManager.FillActor.Versions

open Atom

/-! ## Actions -/

/-- A view of the settings; what only the checks of the file system read is left to them. -/
structure FillActorRuntime where
  version : Nat
  applyEnabled : Bool
  cloudMovePaths : Option CloudMovePaths
  additionalBrandPaths : List String

inductive LiveOp where
  /-- `self._runtime()`. -/
  | runtime
  /-- `self._runtime()` where `_get_plan` compares the versions. -/
  | runtimeFor (stored : PlanRecord)
  | getPlan (planId : String)
  /-- `_apply_lock`. -/
  | acquireApply | releaseApply
  /-- The mutation lock. -/
  | acquire | release
  /-- The move of this candidate that an earlier apply has left running, and its result. -/
  | inFlight (planId candidateId : String)
  | cloud (op : CloudOp)
  | disk (op : Local.LocalOp)

def LiveOp.Res : LiveOp → Type
  | runtime | runtimeFor _ => FillActorRuntime
  | getPlan _ => Option PlanRecord
  | acquireApply | releaseApply | acquire | release => Unit
  | inFlight .. => Option MoveResult
  | cloud op => op.Res
  | disk op => Except Local.LocalExc op.Res

abbrev Live := Prog LiveOp.Res CloudExc

def LiveOp.ask (op : LiveOp) : Live op.Res := Prog.call op

def runtime : Live FillActorRuntime := LiveOp.ask .runtime

def CloudOp.live (op : CloudOp) : Live op.Res := LiveOp.ask (.cloud op)

def now : Live Time := CloudOp.live .now

def rootsReady : Live Bool := CloudOp.live .rootsReady

def stopRequested : Live Bool := CloudOp.live .stopRequested

/-- A part of a move at CloudDrive that reads no settings. -/
def atCloud {α : Type} (p : Move α) : Live α := p.handle CloudOp.live

/-- A move on the disk; its checks read the paths as they are by then. -/
def onDisk {α : Type} : Local.LocalMove α → Live (Except Local.LocalExc α)
  | .ret a => .ret (.ok a)
  | .raise e => .ret (.error e)
  | .act op k => (LiveOp.ask (.disk op)).bind fun r => onDisk (k r)

/-- `async with`: given back however the body ends. -/
def during {α : Type} (take giveBack : Live Unit) (p : Live α) : Live α := do
  take
  let r ← p.attempt
  giveBack
  match r with
  | .ok a => pure a
  | .error e => .raise e

def underLock {α : Type} (p : Live α) : Live α := during (LiveOp.ask .acquire) (LiveOp.ask .release) p

/-! ## The service -/

/-- What a service has besides its settings. -/
structure Deployment where
  /-- `_cloud_file_mover` is there. -/
  mover : Bool
  resolveBrand : String → Option String

/-- The service, under one view of its settings. -/
def Deployment.under (d : Deployment) (rt : FillActorRuntime) : FillActorService where
  applyEnabled := rt.applyEnabled
  cloudMode := d.mover && rt.cloudMovePaths.isSome
  mover := d.mover
  cloudMovePaths := rt.cloudMovePaths
  additionalBrandPaths := rt.additionalBrandPaths
  resolveBrand := d.resolveBrand
  configVersion := rt.version

open FillActorService (cloudResult saved statCloudFile listCloudDirectory recoverCloudMove checkDestination)

variable (d : Deployment)

/-- From the first look at CloudDrive on. -/
def preflightCloudMove (planId : String) (record : CandidateRecord) (cloud : CloudSource) : Live MoveResult := do
  let looks : Move (Option CloudFileMetadata × Option (List CloudFileMetadata)) := do
    let source ← statCloudFile cloud.sourcePath
    let listing ← listCloudDirectory cloud.destinationDir
    pure (source, listing)
  match ← (atCloud looks).attempt with
  | .error _ => pure (cloudResult record cloud .failed (some "cloud_preflight_failed"))
  | .ok (none, _) => atCloud (saved planId (cloudResult record cloud .stale (some "cloud_source_missing")))
  | .ok (some source, listing) =>
    if !cloud.file.matchesIdentity source then
      atCloud (saved planId (cloudResult record cloud .stale (some "cloud_source_changed")))
    else match listing with
      | some listing => atCloud (checkDestination planId record cloud listing)
      | none => do
        let rt ← runtime
        match ← atCloud ((d.under rt).ensureDestination planId record cloud) with
        | .error result => pure result
        | .ok listing => atCloud (checkDestination planId record cloud listing)

/-- `_run_cloud_move` under the lock. -/
def runCloudLocked (planId : String) (record : CandidateRecord) (cloud : CloudSource) : Live MoveResult := do
  match ← CloudOp.live (.getMoveResult planId record.candidateId) with
  | some cached => pure cached
  | none =>
    match ← CloudOp.live (.getCloudMoveOperation planId record.candidateId) with
    | some operation => atCloud (recoverCloudMove planId record cloud operation)
    | none => do
      let rt ← runtime
      match ← atCloud ((d.under rt).validateCloudMapping record cloud) with
      | some mappingError => atCloud (saved planId (cloudResult record cloud .stale (some mappingError)))
      | none => preflightCloudMove d planId record cloud

def runCloudMove (planId : String) (record : CandidateRecord) (cloud : CloudSource) : Live MoveResult := do
  let rt ← runtime
  if !d.mover || rt.cloudMovePaths.isNone then
    pure (cloudResult record cloud .failed (some "cloud_move_not_configured"))
  else if !(← rootsReady) then pure (cloudResult record cloud .failed (some "root_unavailable"))
  else underLock (runCloudLocked d planId record cloud)

/-- `_run_move` of a candidate on the disk; whatever is raised inside is a failed move. -/
def runLocalMove (planId : String) (record : CandidateRecord) : Live MoveResult := do
  match ← onDisk Local.rootsReady with
  | .error _ => .raise (.other "roots")
  | .ok false => pure (Local.failed record "roots_unavailable")
  | .ok true =>
    match ← (underLock (onDisk (Local.runLocked planId record))).attempt with
    | .ok (.ok result) => pure result
    | _ => pure (Local.failed record "move_failed")

/-- `_run_move`. -/
def runMove (planId : String) (record : CandidateRecord) : Live MoveResult :=
  match record.cloud with
  | some cloud => runCloudMove d planId record cloud
  | none => runLocalMove planId record

/-- One candidate after the other, until a stop is requested. -/
def applyEach (planId : String) : List CandidateRecord → List MoveResult → Live (List MoveResult)
  | [], results => pure results
  | record :: rest, results => do
    if ← stopRequested then pure results
    else
      match ← CloudOp.live (.getMoveResult planId record.candidateId) with
      | some cached => applyEach planId rest (results ++ [cached])
      | none => do
        let result ←
          match ← LiveOp.ask (.inFlight planId record.candidateId) with
          | some result => pure result
          | none => runMove d planId record
        applyEach planId rest (results ++ [result])

/-- `_get_plan`. -/
def storedPlan (planId revision : String) : Live PlanRecord := do
  match ← LiveOp.ask (.getPlan planId) with
  | none => .raise (.other "unknown_plan")
  | some stored =>
    if stored.plan.revision ≠ revision then .raise (.other "revision_mismatch")
    else
      let rt ← LiveOp.ask (.runtimeFor stored)
      if stored.configVersion ≠ rt.version then .raise (.other "legacy_plan")
      else if (← now) ≥ stored.plan.expiresAt then .raise (.other "expired_plan")
      else pure stored

/-- With the plan at hand. -/
def applyPlan (planId : String) (stored : PlanRecord) (candidateIds : List String) : Live (List MoveResult) := do
  let selected := candidateIds.eraseDups
  let records := selected.filterMap stored.candidate
  if records.length ≠ selected.length then .raise (.other "unknown_candidate")
  else
    let rt ← runtime
    if (d.under rt).cloudMode && records.any (·.cloud.isNone) then .raise (.other "legacy_plan")
    else applyEach d planId records []

def apply (planId revision : String) (candidateIds : List String) : Live (List MoveResult) := do
  let rt ← runtime
  if !rt.applyEnabled then .raise (.other "move_disabled")
  else
    during (LiveOp.ask .acquireApply) (LiveOp.ask .releaseApply) do
      let stored ← storedPlan planId revision
      applyPlan d planId stored candidateIds

/-! ## Applies under way -/

/-- A move is begun: its journal entry or its operation is written in state `prepared`. -/
def LiveOp.begins : LiveOp → Bool
  | cloud (.saveCloudMoveOperation record) => record.state = .prepared
  | disk (.saveMoveJournal record) => record.state = .prepared
  | _ => false

/-- What an apply has read of its plan, and whether the versions agreed. -/
structure Party where
  plan : Option PlanRecord := none
  checked : Bool := false

/-- An apply after one action. -/
def Party.after (q : Party) : (op : LiveOp) → Except CloudExc op.Res → Party
  | .getPlan _, .ok stored => { plan := stored }
  | .runtimeFor stored, .ok rt => { q with checked := stored.configVersion = rt.version }
  | _, _ => q

/-- The settings as saved, the applies, and every move begun so far: under which plan, and
at which version of the settings. -/
structure Site (ι : Type) where
  runtime : FillActorRuntime
  prog : ι → Live (List MoveResult)
  party : ι → Party := fun _ => {}
  begun : List (Option PlanRecord × Nat) := []

/-- Reads of the settings answer what is saved; everything else may answer anything. -/
def Answers (rt : FillActorRuntime) : (op : LiveOp) → Except CloudExc op.Res → Prop
  | .runtime, r | .runtimeFor _, r => r = .ok rt
  | _, _ => True

variable {ι : Type} [DecidableEq ι]

/-- One action of an apply that answers `r` and goes on as `next`. -/
def Site.after (c : Site ι) (i : ι) (op : LiveOp) (r : Except CloudExc op.Res) (next : Live (List MoveResult)) : Site ι where
  runtime := c.runtime
  prog := Function.update c.prog i next
  party := Function.update c.party i ((c.party i).after op r)
  begun := if op.begins then ((c.party i).plan, c.runtime.version) :: c.begun else c.begun

/-- No apply that has its plan checked can still begin a move. -/
def Settled (c : Site ι) : Prop :=
  ∀ i, (c.party i).checked = true → (c.prog i).Uses fun op => op.begins = false

/-- An action of one apply, or a configuration saved while `S` allows it. -/
inductive Step (S : Site ι → Prop) : Site ι → Site ι → Prop
  | act {c : Site ι} (i : ι) {op k r} : c.prog i = .act op k → Answers c.runtime op r → Step S c (c.after i op r (k r))
  | save {c : Site ι} (rt : FillActorRuntime) : S c → Step S c { c with runtime := rt }

def Reach (S : Site ι → Prop) : Site ι → Site ι → Prop := Relation.ReflTransGen (Step S)

/-- Any number of applies, none of them begun. -/
def Fresh (d : Deployment) (c : Site ι) : Prop :=
  (∀ i, (∃ planId revision candidateIds, c.prog i = apply d planId revision candidateIds) ∧ c.party i = {}) ∧ c.begun = []

/-- Every move was begun at the version its plan was scanned under. -/
def BegunUnderPlan (c : Site ι) : Prop := ∀ b ∈ c.begun, b.1.map (·.configVersion) = some b.2

/-! ## What an apply asks for -/

/-- Neither the plan nor its version is read. -/
def Quiet : LiveOp → Prop
  | .getPlan _ | .runtimeFor _ => False
  | _ => True

theorem uses_atCloud {α : Type} (p : Move α) : (atCloud p).Uses Quiet :=
  Prog.uses_handle (h := CloudOp.live) (fun op => (Prog.uses_call (C := Quiet) (LiveOp.cloud op)).2 trivial) p

theorem uses_onDisk {α : Type} (p : Local.LocalMove α) : (onDisk p).Uses Quiet := by
  induction p with
  | ret a => trivial
  | raise e => trivial
  | act op k ih => exact Prog.uses_bind (f := fun r => onDisk (k r)) ((Prog.uses_call _).2 trivial) ih

theorem uses_during {α : Type} {C : LiveOp → Prop} {take giveBack : Live Unit} {p : Live α} (ht : take.Uses C)
    (hg : giveBack.Uses C) (hp : p.Uses C) : (during take giveBack p).Uses C := by
  unfold during
  refine Prog.uses_bind ht fun _ => Prog.uses_bind (Prog.uses_attempt hp) fun r => Prog.uses_bind hg fun _ => ?_
  cases r <;> trivial

theorem uses_underLock {α : Type} {p : Live α} (hp : p.Uses Quiet) : (underLock p).Uses Quiet :=
  uses_during ((Prog.uses_call _).2 trivial) ((Prog.uses_call _).2 trivial) hp

theorem uses_ask {op : LiveOp} (h : Quiet op) : op.ask.Uses Quiet := (Prog.uses_call op).2 h

theorem uses_preflightCloudMove (planId : String) (record : CandidateRecord) (cloud : CloudSource) :
    (preflightCloudMove d planId record cloud).Uses Quiet := by
  unfold preflightCloudMove
  refine Prog.uses_bind (Prog.uses_attempt (uses_atCloud _)) fun looks => ?_
  split
  · trivial
  · exact uses_atCloud _
  · refine Prog.uses_ite (uses_atCloud _) ?_
    split
    · exact uses_atCloud _
    · refine Prog.uses_bind (uses_ask trivial) fun rt => Prog.uses_bind (uses_atCloud _) fun r => ?_
      split
      · trivial
      · exact uses_atCloud _

theorem uses_runCloudLocked (planId : String) (record : CandidateRecord) (cloud : CloudSource) :
    (runCloudLocked d planId record cloud).Uses Quiet := by
  unfold runCloudLocked
  refine Prog.uses_bind (uses_ask trivial) fun cached => ?_
  split
  · trivial
  · refine Prog.uses_bind (uses_ask trivial) fun operation => ?_
    split
    · exact uses_atCloud _
    · refine Prog.uses_bind (uses_ask trivial) fun rt => Prog.uses_bind (uses_atCloud _) fun r => ?_
      split
      · exact uses_atCloud _
      · exact uses_preflightCloudMove d planId record cloud

theorem uses_runMove (planId : String) (record : CandidateRecord) : (runMove d planId record).Uses Quiet := by
  unfold runMove
  split
  · unfold runCloudMove
    refine Prog.uses_bind (uses_ask trivial) fun rt => Prog.uses_ite trivial ?_
    refine Prog.uses_bind (uses_ask trivial) fun ready => Prog.uses_ite trivial ?_
    exact uses_underLock (uses_runCloudLocked d planId record _)
  · unfold runLocalMove
    refine Prog.uses_bind (uses_onDisk _) fun ready => ?_
    split
    · trivial
    · trivial
    · refine Prog.uses_bind (Prog.uses_attempt (uses_underLock (uses_onDisk _))) fun r => ?_
      split <;> trivial

theorem uses_applyEach (planId : String) (records : List CandidateRecord) (results : List MoveResult) :
    (applyEach d planId records results).Uses Quiet := by
  induction records generalizing results with
  | nil => trivial
  | cons record rest ih =>
    unfold applyEach
    refine Prog.uses_bind (uses_ask trivial) fun stop => Prog.uses_ite trivial ?_
    refine Prog.uses_bind (uses_ask trivial) fun cached => ?_
    split
    · exact ih _
    · refine Prog.uses_bind (uses_ask trivial) fun running => ?_
      split
      · exact ih _
      · exact Prog.uses_bind (uses_runMove d planId record) fun result => ih _

theorem uses_applyPlan (planId : String) (stored : PlanRecord) (candidateIds : List String) :
    (applyPlan d planId stored candidateIds).Uses Quiet := by
  unfold applyPlan
  refine Prog.uses_ite trivial ?_
  refine Prog.uses_bind (uses_ask trivial) fun rt => Prog.uses_ite trivial ?_
  exact uses_applyEach d planId _ []

/-! ## The check comes first -/

/-- An apply on its own, as far as its plan goes. -/
def reads : Env LiveOp.Res CloudExc Party := fun q op r q' => q' = q.after op r

/-- Moves are begun after the check, and the check is of the plan that was read. -/
def InOrder (q : Party) (op : LiveOp) : Prop :=
  (op.begins = true → q.checked = true) ∧ ∀ stored, op = .runtimeFor stored → q.plan = some stored

theorem Party.after_quiet {op : LiveOp} (h : Quiet op) (q : Party) (r : Except CloudExc op.Res) : q.after op r = q := by
  cases op <;> first | rfl | cases h

theorem inOrder_quiet {op : LiveOp} (h : Quiet op) {q : Party} (hq : q.checked = true) : InOrder q op :=
  ⟨fun _ => hq, by rintro stored rfl; cases h⟩

/-- With the plan checked, whatever does not read it again is in order. -/
theorem wp_quiet {α : Type} {p : Live α} (h : p.Uses Quiet) {q : Party} (hq : q.checked = true) :
    p.wp reads InOrder (fun _ _ => True) (fun _ _ => True) q := by
  have keeps := Prog.keeps_of_uses (T := reads) (G := InOrder) (I := fun q => q.checked = true) h
    (fun _ _ hop hI => inOrder_quiet hop hI)
    (fun s op r s' hop hI ht => by rw [show s' = s from ht.trans (s.after_quiet hop r)]; exact hI)
  exact Prog.wp_mono (keeps q hq) (fun _ _ _ => trivial) fun _ _ _ => trivial

theorem wp_ask (op : LiveOp) {Q : op.Res → Party → Prop} {X : CloudExc → Party → Prop} {q : Party} (hg : InOrder q op)
    (hok : ∀ a, Q a (q.after op (.ok a))) (herr : ∀ e, X e (q.after op (.error e))) : op.ask.wp reads InOrder Q X q :=
  (Prog.wp_call op).2 ⟨hg, fun a _ h => h ▸ hok a, fun e _ h => h ▸ herr e⟩

theorem wp_during {α : Type} {take giveBack : Live Unit} {p : Live α} {Q : α → Party → Prop} {X : CloudExc → Party → Prop}
    {q : Party} : (during take giveBack p).wp reads InOrder Q X q ↔
      take.wp reads InOrder (fun _ q =>
        p.wp reads InOrder (fun a q => giveBack.wp reads InOrder (fun _ q => Q a q) X q)
          (fun e q => giveBack.wp reads InOrder (fun _ q => X e q) X q) q) X q := by
  simp only [during, Prog.wp_bind, Prog.wp_attempt, Prog.wp_pure, Prog.wp_raise]

theorem early (op : LiveOp) (hb : op.begins = false) (hq : Quiet op) (q : Party) : InOrder q op :=
  ⟨fun h => by simp [hb] at h, fun stored h => by subst h; exact hq.elim⟩

theorem wp_now {Q : Time → Party → Prop} {q : Party} (h : ∀ time, Q time q) :
    now.wp reads InOrder Q (fun _ _ => True) q :=
  wp_ask (.cloud .now) (early (.cloud .now) rfl trivial q) h fun _ => trivial

/-- Up to the comparison nothing is begun; what has passed it holds a plan that agreed. -/
theorem wp_storedPlan (planId revision : String) (q : Party) :
    (storedPlan planId revision).wp reads InOrder (fun _ q => q.checked = true) (fun _ _ => True) q := by
  unfold storedPlan
  rw [Prog.wp_bind]
  refine wp_ask _ ⟨by rintro ⟨⟩, by rintro stored ⟨⟩⟩ (fun stored => ?_) fun _ => trivial
  cases stored with
  | none => trivial
  | some stored =>
    refine Prog.wp_ite (fun _ => trivial) fun _ => ?_
    rw [Prog.wp_bind]
    refine wp_ask _ ⟨by rintro ⟨⟩, by rintro _ ⟨⟩; rfl⟩ (fun rt => ?_) fun _ => trivial
    refine Prog.wp_ite (fun _ => trivial) fun hversion => ?_
    have hchecked : (Party.after { plan := some stored } (.runtimeFor stored) (.ok rt)).checked = true := by
      simpa [Party.after] using hversion
    rw [Prog.wp_bind]
    exact wp_now fun time => Prog.wp_ite (fun _ => trivial) fun _ => hchecked

theorem wp_apply (planId revision : String) (candidateIds : List String) :
    (apply d planId revision candidateIds).wp reads InOrder (fun _ _ => True) (fun _ _ => True) {} := by
  have released : ∀ q : Party,
      (LiveOp.ask .releaseApply).wp reads InOrder (fun _ _ => True) (fun _ _ => True) q := fun q =>
    wp_ask .releaseApply (early .releaseApply rfl trivial q) (fun _ => trivial) fun _ => trivial
  unfold apply
  rw [Prog.wp_bind]
  refine wp_ask .runtime (early .runtime rfl trivial _) (fun rt => ?_) fun _ => trivial
  refine Prog.wp_ite (fun _ => trivial) fun _ => ?_
  refine wp_during.2 (wp_ask .acquireApply (early .acquireApply rfl trivial _) (fun _ => ?_) fun _ => trivial)
  rw [Prog.wp_bind]
  refine Prog.wp_mono (wp_storedPlan planId revision _) (fun stored q hq => ?_) fun e q _ => released q
  exact Prog.wp_mono (wp_quiet (uses_applyPlan d planId stored candidateIds) hq) (fun a q _ => released q)
    fun e q _ => released q

/-! ## Saving while no move can be begun -/

variable {ι : Type} [DecidableEq ι] {d : Deployment}

/-- What every step keeps: each apply goes on in order, one that has its plan checked still agrees with
what is saved or begins no more moves, and every move so far was begun under its plan. -/
structure Agrees (c : Site ι) : Prop where
  inOrder : ∀ i, (c.prog i).wp reads InOrder (fun _ _ => True) (fun _ _ => True) (c.party i)
  checked : ∀ i, (c.party i).checked = true →
    (c.party i).plan.map (·.configVersion) = some c.runtime.version ∨ (c.prog i).Uses fun op => op.begins = false
  begun : BegunUnderPlan c

theorem Agrees.act {c : Site ι} (h : Agrees c) {i : ι} {op : LiveOp} {k : Except CloudExc op.Res → Live (List MoveResult)}
    {r : Except CloudExc op.Res} (hprog : c.prog i = .act op k) (hr : Answers c.runtime op r) :
    Agrees (c.after i op r (k r)) := by
  have hwp := h.inOrder i
  rw [hprog] at hwp
  obtain ⟨hguard, hnext⟩ := hwp
  have hold : op.begins = true → (c.party i).plan.map (·.configVersion) = some c.runtime.version := by
    intro hb
    rcases h.checked i (hguard.1 hb) with hv | hu
    · exact hv
    · rw [hprog] at hu
      rw [hu.1] at hb
      cases hb
  refine ⟨fun j => ?_, fun j hj => ?_, ?_⟩
  · by_cases hji : j = i
    · subst hji
      simpa [Site.after] using hnext r _ rfl
    · simpa [Site.after, Function.update_of_ne hji] using h.inOrder j
  · by_cases hji : j = i
    · subst hji
      simp only [Site.after, Function.update_self] at hj ⊢
      -- only reading the plan and reading the runtime change what a call has
      by_cases hsame : (c.party j).after op r = c.party j
      · rw [hsame] at hj ⊢
        refine (h.checked j hj).imp_right fun hu => ?_
        rw [hprog] at hu
        exact hu.2 r
      · left
        cases op with
        | getPlan planId =>
          cases r with
          | ok stored => simp [Party.after] at hj
          | error e => exact absurd rfl hsame
        | runtimeFor stored =>
          rw [show r = .ok c.runtime from hr] at hj ⊢
          simp only [Party.after, decide_eq_true_eq] at hj ⊢
          rw [hguard.2 stored rfl, Option.map_some, hj]
        | _ => exact absurd rfl hsame
    · simp only [Site.after, Function.update_of_ne hji] at hj ⊢
      exact h.checked j hj
  · intro b hb
    simp only [Site.after] at hb ⊢
    by_cases hbegins : op.begins = true
    · rw [if_pos hbegins] at hb
      rcases List.mem_cons.1 hb with rfl | hb
      · exact hold hbegins
      · exact h.begun b hb
    · rw [if_neg hbegins] at hb
      exact h.begun b hb

omit [DecidableEq ι] in
theorem Agrees.save {c : Site ι} (h : Agrees c) (hc : Settled c) (rt : FillActorRuntime) :
    Agrees { c with runtime := rt } :=
  ⟨h.inOrder, fun i hi => .inr (hc i hi), h.begun⟩

theorem agrees_reach {c₀ c : Site ι} (h₀ : Fresh d c₀) (h : Reach Settled c₀ c) : Agrees c := by
  induction h with
  | refl =>
    refine ⟨fun i => ?_, fun i hi => ?_, fun b hb => by simp [h₀.2] at hb⟩
    · obtain ⟨⟨planId, revision, candidateIds, hprog⟩, hparty⟩ := h₀.1 i
      rw [hprog, hparty]
      exact wp_apply d planId revision candidateIds
    · rw [(h₀.1 i).2] at hi
      cases hi
  | tail _ hstep ih =>
    cases hstep with
    | act i hprog hr => exact ih.act hprog hr
    | save rt hc => exact ih.save hc rt

/-- Where settings are saved only while no apply that has its plan checked can still begin a move,
every move is begun at the version its plan was scanned under. -/
theorem begun_under_plan (c₀ c : Site ι) (h₀ : Fresh d c₀) (h : Reach Settled c₀ c) : BegunUnderPlan c :=
  (agrees_reach h₀ h).begun

/-! ## Runs -/

/-- The next action of an apply, answered by a function. -/
def Site.turn (answer : FillActorRuntime → (op : LiveOp) → Except CloudExc op.Res) (i : ι) (c : Site ι) : Site ι :=
  match c.prog i with
  | .act op k => c.after i op (answer c.runtime op) (k (answer c.runtime op))
  | _ => c

theorem reach_turns {S : Site ι → Prop} {answer : FillActorRuntime → (op : LiveOp) → Except CloudExc op.Res}
    (h : ∀ rt op, Answers rt op (answer rt op)) (i : ι) (n : Nat) (c : Site ι) :
    Reach S c ((Site.turn answer i)^[n] c) := by
  induction n generalizing c with
  | zero => exact .refl
  | succ n ih =>
    refine .trans ?_ (ih _)
    unfold Site.turn
    split
    · rename_i op k hprog
      exact .single (.act i hprog (h _ _))
    · exact .refl

namespace Saved

def candidate : CandidateRecord := ⟨"c", "ABC-001", "/s/a.mp4", "/s", "/lib/x/a.mp4", ⟨1, 2, 3, 4, 5⟩, none⟩

def plan : PlanRecord := ⟨⟨"p", "r", 0, 100, [("c", "ABC-001")], ""⟩, [candidate], 1, by decide⟩

def settings (version : Nat) : FillActorRuntime := ⟨version, true, none, ["/s"]⟩

def deployment : Deployment := ⟨false, fun _ => none⟩

def site (version : Nat) : Site Unit where
  runtime := settings version
  prog _ := apply deployment "p" "r" ["c"]

/-- The plan is there, nothing is in the way, and nothing was journalled before. -/
def answer (rt : FillActorRuntime) : (op : LiveOp) → Except CloudExc op.Res
  | .runtime | .runtimeFor _ => .ok rt
  | .getPlan _ => .ok (some plan)
  | .acquireApply | .releaseApply | .acquire | .release => .ok ()
  | .inFlight .. => .ok none
  | .cloud .now => .ok (10 : Time)
  | .cloud .stopRequested => .ok false
  | .cloud (.getMoveResult ..) => .ok none
  | .cloud _ => .error (.other "")
  | .disk .now => .ok (.ok (10 : Time))
  | .disk (.check _) => .ok (.ok true)
  | .disk (.getMoveResult ..) => .ok (.ok none)
  | .disk (.getMoveJournal ..) => .ok (.ok none)
  | .disk (.saveMoveJournal _) => .ok (.ok ())
  | .disk _ => .ok (.error (.os .other))

theorem answers (rt : FillActorRuntime) (op : LiveOp) : Answers rt op (answer rt op) := by
  cases op <;> trivial

theorem fresh (version : Nat) : Fresh deployment (site version) :=
  ⟨fun _ => ⟨⟨"p", "r", ["c"], rfl⟩, rfl⟩, rfl⟩

/-- Saved before the apply has read its plan. -/
def early : Site Unit := (Site.turn answer ())^[20] { (Site.turn answer ())^[2] (site 0) with runtime := settings 1 }

/-- Saved once the plan has been checked. -/
def late : Site Unit := (Site.turn answer ())^[20] { (Site.turn answer ())^[9] (site 1) with runtime := settings 2 }

end Saved

/-- The move of the plan is begun, and under the settings it was scanned with. -/
theorem begun_under_plan_early :
    BegunUnderPlan Saved.early ∧ Saved.early.begun.map Prod.snd = [1] := by
  refine ⟨begun_under_plan (Saved.site 0) Saved.early (Saved.fresh 0) ?_, by decide⟩
  refine .trans (.tail (reach_turns Saved.answers () 2 _) (.save (Saved.settings 1) ?_)) (reach_turns Saved.answers () 20 _)
  rintro ⟨⟩ hchecked
  exact absurd hchecked (by decide)

/-- Settings saved after the check: the move is begun at version 2, for a plan of version 1. -/
theorem begun_under_other_settings :
    ¬ ∀ c₀ c : Site Unit, Fresh Saved.deployment c₀ → Reach (fun _ => True) c₀ c → BegunUnderPlan c := by
  intro h
  have hreach : Reach (fun _ => True) (Saved.site 1) Saved.late :=
    .trans (.tail (reach_turns Saved.answers () 9 _) (.save (Saved.settings 2) trivial))
      (reach_turns Saved.answers () 20 _)
  have hbegun : Saved.late.begun.map (fun b => (b.1.map (·.configVersion), b.2)) = [(some 1, 2)] := by decide
  obtain ⟨b, rest, hb, hpair, -⟩ := List.map_eq_cons_iff.1 hbegun
  have hv := h _ _ (Saved.fresh 1) hreach b (by rw [hb]; exact List.mem_cons_self)
  simp only [Prod.mk.injEq] at hpair
  rw [hpair.1, hpair.2] at hv
  cases hv

end EmbyxManager.FillActor.Versions
