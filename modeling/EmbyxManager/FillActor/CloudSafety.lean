import EmbyxManager.FillActor.CloudRuns
/-!
# One CloudDrive move at a time

Each program that runs under the mutation lock asks for allowed actions only. Under the
lock nothing else changes the repository, so what a program has read stays true until
it writes.
-/

namespace EmbyxManager.FillActor

open Atom Prog

variable {b : Backend} {C : String × String → Option CandidateRecord} {w w' : CloudWorld b} {α : Type}

/-! ## Looks -/

/-- Neither writes nor submits. -/
def CloudOp.looks : CloudOp → Bool
  | moveFile .. | saveMoveResult .. | saveCloudMoveOperation _ | finalizeCloudMove .. => false
  | _ => true

/-- The repository is as it was, and nothing more is submitted. -/
def Later (w w' : CloudWorld b) : Prop := w'.store = w.store ∧ ∀ k, Unsubmitted k w → Unsubmitted k w'

theorem Later.refl (w : CloudWorld b) : Later w w := ⟨rfl, fun _ h => h⟩

theorem Later.trans {w'' : CloudWorld b} (h : Later w w') (h' : Later w' w'') : Later w w'' :=
  ⟨h'.1.trans h.1, fun k hk => h'.2 k (h.2 k hk)⟩

/-- An action that is not a submission adds none. -/
theorem unsubmitted_step {op : CloudOp} {r : Except CloudExc op.Res} (hs : ∀ k, op.submits k = false)
    (ht : CloudWorld.answers b w op r w') (k : String × String) (hk : Unsubmitted k w) : Unsubmitted k w' := by
  intro e he
  rw [ht.2] at he
  split at he
  · rcases List.mem_cons.1 he with rfl | he
    · exact hs k
    · exact hk e he
  · exact hk e he

theorem later_step {op : CloudOp} {r : Except CloudExc op.Res} (hl : op.looks = true) (ht : CloudWorld.answers b w op r w') :
    Later w w' := by
  refine ⟨?_, unsubmitted_step (fun k => by cases op <;> first | rfl | cases hl) ht⟩
  cases hn : op.noted with
  | false => rw [answers_quiet hn ht]
  | true =>
    cases op with
    | listDirectory directory => exact ht.1
    | moveFile | saveMoveResult | saveCloudMoveOperation | finalizeCloudMove => cases hl
    | _ => cases hn

theorem allowed_look {op : CloudOp} (hl : op.looks = true) : Allowed w op := by
  cases op with
  | moveFile | saveMoveResult | saveCloudMoveOperation | finalizeCloudMove => cases hl
  | _ => trivial

/-- However a program that only looks ends, the repository is as it was. -/
theorem wp_looks {p : Move α} (hp : Uses (fun op => op.looks = true) p) (h : Sound C w) :
    p.wp (CloudWorld.answers b) Allowed (fun _ w' => Sound C w' ∧ Later w w') (fun _ w' => Sound C w' ∧ Later w w') w := by
  refine keeps_of_uses (I := fun w' => Sound C w' ∧ Later w w') hp (fun _ _ hl _ => allowed_look hl) ?_ w ⟨h, .refl w⟩
  rintro s op r s' hl ⟨hs, hlater⟩ ht
  exact ⟨(hs.step (allowed_look hl) ht).1, hlater.trans (later_step hl ht)⟩

/-- An action that leaves no trace. -/
theorem wp_quiet {op : CloudOp} {Q : op.Res → CloudWorld b → Prop} (hl : op.looks = true) (hn : op.noted = false)
    (hQ : ∀ a, CloudWorld.answers b w op (.ok a) w → Q a w) :
    (op.ask).wp (CloudWorld.answers b) Allowed Q (fun _ _ => True) w := by
  refine (wp_call op).2 ⟨allowed_look hl, fun a w' ht => ?_, fun _ _ _ => trivial⟩
  obtain rfl := answers_quiet hn ht
  exact hQ a ht

/-! ## Journalling -/

/-- The operation is the stored one, and there is no result yet. -/
def Live (row : CloudMoveOperationRecord) (w : CloudWorld b) : Prop :=
  b.operation w.store row.key = some row ∧ b.moveResult w.store row.key = none

theorem Live.later {row : CloudMoveOperationRecord} (h : Live row w) (hl : Later w w') : Live row w' := by
  unfold Live
  rw [hl.1]
  exact h

/-- Neither an operation nor a result. -/
def Fresh (k : String × String) (w : CloudWorld b) : Prop := b.operation w.store k = none ∧ b.moveResult w.store k = none

theorem Fresh.later {k : String × String} (h : Fresh k w) (hl : Later w w') : Fresh k w' := by
  unfold Fresh
  rw [hl.1]
  exact h

theorem wp_save (h : Sound C w) {record : CloudMoveOperationRecord} {Q : Unit → CloudWorld b → Prop} {X : CloudExc → CloudWorld b → Prop}
    (hst : record.state ∈ cloudMoveTransitions ((b.operation w.store record.key).map (·.state)))
    (hnone : b.moveResult w.store record.key = none)
    (hQ : ∀ w', Sound C w' → Live record w' → (∀ k, Unsubmitted k w → Unsubmitted k w') → Q () w') (hX : ∀ e w', X e w') :
    (CloudOp.ask (.saveCloudMoveOperation record)).wp (CloudWorld.answers b) Allowed Q X w := by
  have hg : Allowed w (.saveCloudMoveOperation record) := ⟨hst, hnone⟩
  refine (wp_call (CloudOp.saveCloudMoveOperation record)).2 ⟨hg, ?_, fun e w' _ => hX e w'⟩
  rintro ⟨⟩ w' ht
  have hsound := (h.step hg ht).1
  have hans : Written w.store w'.store _ _ := ht.1
  rcases hans with ⟨-, hok⟩ | ⟨⟨e, he⟩, -⟩
  · have hj := (Backend.journalled h.placedHere hok).2
    refine hQ w' hsound ⟨?_, (hj.result _).trans hnone⟩ (unsubmitted_step (fun _ => rfl) ht)
    exact (hj.operation _).trans (if_pos rfl)
  · cases he

/-- The same operation of the same candidate, in some state. -/
structure CloudMoveOperationRecord.Same (row row' : CloudMoveOperationRecord) : Prop where
  key : row'.key = row.key
  planId : row'.planId = row.planId
  source : row'.sourcePath = row.sourcePath
  destination : row'.destinationDir = row.destinationDir

theorem wp_withState {row : CloudMoveOperationRecord} {state : CloudMoveOperationState} {time : Time} {errorCode : Option String}
    {Q : CloudMoveOperationRecord → CloudWorld b → Prop}
    (hQ : ∀ row' : CloudMoveOperationRecord, row.Same row' → row'.state = state → Q row' w) :
    (FillActorService.withState row state time errorCode).wp (CloudWorld.answers b) Allowed Q (fun _ _ => True) w := by
  unfold FillActorService.withState
  split
  · exact hQ _ ⟨rfl, rfl, rfl, rfl⟩ rfl
  · trivial

/-- The same operation in another state, where that state may follow. -/
theorem Live.follows {row row' : CloudMoveOperationRecord} (h : Live row w) (hsame : row.Same row')
    (hst : row'.state ∈ cloudMoveTransitions (some row.state)) :
    row'.state ∈ cloudMoveTransitions ((b.operation w.store row'.key).map (·.state)) ∧
      b.moveResult w.store row'.key = none := by
  rw [hsame.key, h.1]
  exact ⟨hst, h.2⟩

theorem wp_advance (h : Sound C w) {row : CloudMoveOperationRecord} (hlive : Live row w) {state : CloudMoveOperationState}
    {errorCode : Option String} (hst : state ∈ cloudMoveTransitions (some row.state))
    {Q : CloudMoveOperationRecord → CloudWorld b → Prop}
    (hQ : ∀ row' w', Sound C w' → Live row' w' → row.Same row' → row'.state = state →
      (∀ k, Unsubmitted k w → Unsubmitted k w') → Q row' w') :
    (FillActorService.advanceCloudOperation row state errorCode).wp (CloudWorld.answers b) Allowed Q (fun _ _ => True) w := by
  unfold FillActorService.advanceCloudOperation
  refine (wp_bind _ _).2 (wp_quiet rfl rfl fun time _ => (wp_bind _ _).2 (wp_withState fun row' hsame hstate => ?_))
  obtain ⟨htrans, hnone⟩ := hlive.follows hsame (hstate ▸ hst)
  exact (wp_bind _ _).2 (wp_save h htrans hnone (fun w' hs hl hu => hQ _ w' hs hl hsame hstate hu) fun _ _ => trivial)

theorem wp_complete (h : Sound C w) {row : CloudMoveOperationRecord} (hlive : Live row w) {planId : String}
    {record : CandidateRecord} {cloud : CloudSource} {state : CloudMoveOperationState} {moveState : MoveState}
    {errorCode : Option String} (hst : state ∈ cloudMoveTransitions (some row.state))
    (hmoved : moveState = .moved → ∃ x cloud, C row.key = some x ∧ x.cloud = some cloud ∧ Observed cloud w.log)
    {Q : MoveResult → CloudWorld b → Prop} (hQ : ∀ r w', r.errorCode = errorCode → Q r w') :
    (FillActorService.completeCloudMove planId record cloud row state moveState errorCode).wp (CloudWorld.answers b) Allowed Q
      (fun _ _ => True) w := by
  unfold FillActorService.completeCloudMove
  refine wp_ite (fun _ => trivial) fun _ => (wp_bind _ _).2 (wp_quiet rfl rfl fun time _ => (wp_bind _ _).2 ?_)
  refine wp_withState fun row' hsame hstate => ?_
  obtain ⟨htrans, hnone⟩ := hlive.follows hsame (hstate ▸ hst)
  refine (wp_bind _ _).2 ((wp_call (CloudOp.finalizeCloudMove _ _)).2 ⟨⟨htrans, hnone, fun hm => ?_⟩, ?_, fun _ _ _ => trivial⟩)
  · obtain ⟨x, cloud, hx, hrest⟩ := hmoved hm
    exact ⟨x, cloud, (h.candidates _).trans (hsame.key ▸ hx), hrest⟩
  · exact fun _ w' _ => hQ _ w' rfl

/-! ## Observing -/

/-- A listing is noted with its answer. -/
theorem wp_listCloudDirectory (h : Sound C w) {directory : String} {Q : Option (List CloudFileMetadata) → CloudWorld b → Prop}
    {X : CloudExc → CloudWorld b → Prop}
    (hQ : ∀ listing w' ans, Sound C w' → Later w w' → w'.log = ⟨.listDirectory directory, ans, w.store⟩ :: w.log →
      (∀ files, listing = some files → ans = .ok files) → (listing = none → ans = .error .fileNotFound) → Q listing w')
    (hX : ∀ e w', Sound C w' → Later w w' → X e w') :
    (FillActorService.listCloudDirectory directory).wp (CloudWorld.answers b) Allowed Q X w := by
  have hg : Allowed w (.listDirectory directory) := trivial
  have step : ∀ {r w'}, CloudWorld.answers b w (.listDirectory directory) r w' → Sound C w' ∧ Later w w' :=
    fun ht => ⟨(h.step hg ht).1, later_step rfl ht⟩
  unfold FillActorService.listCloudDirectory
  refine (wp_bind _ _).2 ((wp_attempt _).2 ((wp_call (CloudOp.listDirectory directory)).2 ⟨trivial, ?_, ?_⟩))
  · intro files w' ht
    refine hQ _ w' (.ok files) (step ht).1 (step ht).2 ht.2 ?_ nofun
    rintro _ ⟨⟩
    rfl
  · intro e w' ht
    cases e with
    | fileNotFound => exact hQ _ w' (.error .fileNotFound) (step ht).1 (step ht).2 ht.2 nofun fun _ => rfl
    | value text => exact hX _ w' (step ht).1 (step ht).2
    | other text => exact hX _ w' (step ht).1 (step ht).2

/-- What the two looks have found, if the source is gone. -/
theorem wp_observePair (h : Sound C w) {row : CloudMoveOperationRecord} {cloud : CloudSource}
    (hsource : row.sourcePath = cloud.sourcePath)
    {Q : Option CloudFileMetadata × Option CloudFileMetadata → CloudWorld b → Prop} {X : CloudExc → CloudWorld b → Prop}
    (hQ : ∀ source destination w', Sound C w' → Later w w' →
      (source = none → destination.any cloud.file.matchesIdentity = true → Observed cloud w'.log) → Q (source, destination) w')
    (hX : ∀ e w', Sound C w' → Later w w' → X e w') :
    (FillActorService.observePair row (pathJoin cloud.destinationDir cloud.file.name)).wp (CloudWorld.answers b) Allowed Q X w := by
  unfold FillActorService.observePair FillActorService.statCloudFile
  refine (wp_bind _ _).2 ((wp_bind _ _).2 (wp_listCloudDirectory h (fun seen w₁ ans hs₁ hl₁ hlog₁ hok hnone => ?_) hX))
  refine (wp_bind _ _).2 ((wp_bind _ _).2 (wp_listCloudDirectory hs₁ (fun listing w₂ ans₂ hs₂ hl₂ hlog₂ hok₂ _ => ?_)
    fun e w₂ hs₂ hl₂ => hX e w₂ hs₂ (hl₁.trans hl₂)))
  refine hQ _ _ w₂ hs₂ (hl₁.trans hl₂) fun habsent hmatches => ?_
  obtain ⟨f, hf, hid⟩ := (Option.any_eq_true _ _).1 hmatches
  cases listing with
  | none => cases hf
  | some files =>
    obtain rfl := hok₂ files rfl
    refine ⟨w.store, w₁.store, ans, files, f, ⟨[], w.log, ?_⟩, ?_, hf, hid⟩
    · rw [hlog₂, hlog₁, hsource]
      rfl
    · cases seen with
      | none =>
        obtain rfl := hnone rfl
        rfl
      | some seen =>
        obtain rfl := hok seen rfl
        rw [hsource] at habsent
        exact habsent

theorem wp_leaveUnknown (h : Sound C w) {row : CloudMoveOperationRecord} (hlive : Live row w)
    (hst : row.state = .verifying ∨ row.state = .unknown) {errorCode : String} {Q : Unit → CloudWorld b → Prop}
    (hQ : ∀ w', Q () w') :
    (FillActorService.leaveUnknown row errorCode).wp (CloudWorld.answers b) Allowed Q (fun _ _ => True) w := by
  unfold FillActorService.leaveUnknown
  refine wp_ite (fun _ => (wp_discard _).2 (wp_advance h hlive ?_ fun _ w' _ _ _ _ _ => hQ w')) fun _ => hQ w
  rcases hst with hst | hst <;> rw [hst] <;> decide

/-- The facts under which a submitted move is observed. -/
structure Watched (C : String × String → Option CandidateRecord) (record : CandidateRecord) (cloud : CloudSource)
    (row : CloudMoveOperationRecord) (w : CloudWorld b) : Prop where
  sound : Sound C w
  live : Live row w
  candidate : C row.key = some record
  cloud : record.cloud = some cloud

theorem Watched.later {record : CandidateRecord} {cloud : CloudSource} {row : CloudMoveOperationRecord}
    (h : Watched C record cloud row w) (hs : Sound C w') (hl : Later w w') : Watched C record cloud row w' :=
  ⟨hs, h.live.later hl, h.candidate, h.cloud⟩

/-- Its paths are those of its candidate. -/
theorem Watched.paths {record : CandidateRecord} {cloud : CloudSource} {row : CloudMoveOperationRecord}
    (h : Watched C record cloud row w) : row.sourcePath = cloud.sourcePath ∧ row.destinationDir = cloud.destinationDir := by
  obtain ⟨-, x, cloud', hx, hcloud', hpaths⟩ := h.sound.placed row.key row h.live.1
  obtain rfl := Option.some.inj (h.candidate.symm.trans hx)
  obtain rfl := Option.some.inj (h.cloud.symm.trans hcloud')
  exact hpaths

section observe
variable {record : CandidateRecord} {cloud : CloudSource} {row : CloudMoveOperationRecord} {planId : String}
  {response : Option CloudMoveResponse} {final : Bool}

/-- Whatever is concluded may follow; only a look that is not the last leaves the operation as it is. -/
theorem wp_concludeCloudMove (h : Watched C record cloud row w) (hst : row.state = .verifying ∨ row.state = .unknown)
    {source destination : Option CloudFileMetadata}
    (hobs : source = none → destination.any cloud.file.matchesIdentity = true → Observed cloud w.log) :
    (FillActorService.concludeCloudMove planId record cloud row response final source destination).wp (CloudWorld.answers b)
      Allowed (fun r w' => r.errorCode = some "cloud_move_verifying" → Watched C record cloud row w') (fun _ _ => True) w := by
  have complete : ∀ {state moveState errorCode}, (state = .succeeded ∨ state = .conflict ∨ state = .failed) →
      (moveState = .moved → Observed cloud w.log) → errorCode ≠ some "cloud_move_verifying" →
      (FillActorService.completeCloudMove planId record cloud row state moveState errorCode).wp (CloudWorld.answers b) Allowed
        (fun r w' => r.errorCode = some "cloud_move_verifying" → Watched C record cloud row w') (fun _ _ => True) w := by
    intro state moveState errorCode hstate hmoved herr
    refine wp_complete h.sound h.live ?_ (fun hm => ⟨record, cloud, h.candidate, h.cloud, hmoved hm⟩) fun r w' hr hv => ?_
    · rcases hst with hst | hst <;> rw [hst] <;> rcases hstate with rfl | rfl | rfl <;> decide
    · exact absurd (hr.symm.trans hv) herr
  unfold FillActorService.concludeCloudMove
  refine wp_ite (fun hc => ?_) fun _ => ?_
  · simp only [Bool.and_eq_true, Option.isNone_iff_eq_none] at hc
    exact complete (.inl rfl) (fun _ => hobs hc.1 hc.2) nofun
  refine wp_ite (fun _ => complete (.inr (.inl rfl)) nofun (by decide)) fun _ => ?_
  refine wp_ite (fun _ => complete (.inr (.inr rfl)) nofun (by decide)) fun _ => ?_
  refine wp_ite (fun _ => complete (.inr (.inr rfl)) nofun (by decide)) fun _ => ?_
  have undecided : (FillActorService.undecided record cloud row final).wp (CloudWorld.answers b) Allowed
      (fun r w' => r.errorCode = some "cloud_move_verifying" → Watched C record cloud row w') (fun _ _ => True) w := by
    unfold FillActorService.undecided
    refine wp_ite (fun _ _ => h) fun _ => (wp_bind _ _).2 (wp_leaveUnknown h.sound h.live hst fun w' hv => ?_)
    exact absurd (Option.some.inj hv) (show "cloud_move_status_unknown" ≠ "cloud_move_verifying" by decide)
  refine wp_ite (fun _ => (wp_bind _ _).2 (wp_quiet rfl rfl fun time _ => ?_)) fun _ => undecided
  exact wp_ite (fun _ => complete (.inr (.inr rfl)) nofun (by decide)) fun _ => undecided

theorem wp_observeCloudMove (h : Watched C record cloud row w) (hst : row.state = .verifying ∨ row.state = .unknown) :
    (FillActorService.observeCloudMove planId record cloud row response final).wp (CloudWorld.answers b) Allowed
      (fun r w' => r.errorCode = some "cloud_move_verifying" → Watched C record cloud row w') (fun _ _ => True) w := by
  unfold FillActorService.observeCloudMove
  rw [h.paths.2]
  refine (wp_bind _ _).2 ((wp_attempt _).2 (wp_observePair h.sound h.paths.1 (fun source destination w' hs hl hobs => ?_)
    fun e w' hs hl => ?_))
  · exact wp_concludeCloudMove (h.later hs hl) hst hobs
  · refine (wp_bind _ _).2 (wp_leaveUnknown hs (h.live.later hl) hst fun w' hv => ?_)
    exact absurd (Option.some.inj hv) (show "cloud_move_status_unknown" ≠ "cloud_move_verifying" by decide)

theorem wp_verifyCloudMove {response : CloudMoveResponse} (h : Watched C record cloud row w) (hst : row.state = .verifying)
    (attempts : Nat) :
    (FillActorService.verifyCloudMove planId record cloud row response attempts).wp (CloudWorld.answers b) Allowed
      (fun _ _ => True) (fun _ _ => True) w := by
  induction attempts generalizing w with
  | zero => trivial
  | succ left ih =>
    refine (wp_bind _ _).2 (wp_mono (wp_observeCloudMove h (.inl hst)) (fun r w' hr => ?_) fun _ _ h => h)
    refine wp_ite (fun _ => trivial) fun hv => (wp_bind _ _).2 (wp_quiet rfl rfl fun _ _ => ?_)
    exact ih (hr (not_not.1 hv))

end observe

/-! ## Recovering -/

section move
variable {svc : FillActorService} {record : CandidateRecord} {cloud : CloudSource} {planId : String}

/-- Recovery only observes; an operation without a result is never terminal. -/
theorem wp_recoverCloudMove {row : CloudMoveOperationRecord} (h : Watched C record cloud row w) :
    (FillActorService.recoverCloudMove planId record cloud row).wp (CloudWorld.answers b) Allowed
      (fun _ _ => True) (fun _ _ => True) w := by
  have hopen : row.state.terminal = false := by
    by_contra hterm
    obtain ⟨result, hresult, -⟩ := h.sound.finalized row.key row h.live.1 (by simpa using hterm)
    exact absurd hresult (by rw [h.live.2]; exact nofun)
  unfold FillActorService.recoverCloudMove
  refine wp_ite (fun hterm => absurd hterm (by rw [hopen]; exact nofun)) fun _ => ?_
  cases hst : row.state with
  | prepared =>
    exact wp_complete h.sound h.live (by rw [hst]; decide) (by rintro ⟨⟩) fun _ _ _ => trivial
  | submitting =>
    refine (wp_bind _ _).2 (wp_advance h.sound h.live (by rw [hst]; decide) fun row' w' hs hl hsame hstate _ => ?_)
    have hwatched : Watched C record cloud row' w' := ⟨hs, hl, hsame.key ▸ h.candidate, h.cloud⟩
    exact wp_mono (wp_observeCloudMove hwatched (.inr hstate)) (fun _ _ _ => trivial) fun _ _ _ => trivial
  | verifying => exact wp_mono (wp_observeCloudMove h (.inl hst)) (fun _ _ _ => trivial) fun _ _ _ => trivial
  | unknown => exact wp_mono (wp_observeCloudMove h (.inr hst)) (fun _ _ _ => trivial) fun _ _ _ => trivial
  | succeeded | conflict | failed =>
    rw [hst] at hopen
    cases hopen

/-! ## Submitting -/

/-- The facts under which a move may be submitted. -/
structure Ready (C : String × String → Option CandidateRecord) (planId : String) (record : CandidateRecord)
    (cloud : CloudSource) (w : CloudWorld b) : Prop where
  sound : Sound C w
  fresh : Fresh (planId, record.candidateId) w
  candidate : C (planId, record.candidateId) = some record
  cloud : record.cloud = some cloud

theorem Ready.later (h : Ready C planId record cloud w) (hs : Sound C w') (hl : Later w w') :
    Ready C planId record cloud w' :=
  ⟨hs, h.fresh.later hl, h.candidate, h.cloud⟩

theorem wp_submitCloudMove (h : Ready C planId record cloud w) :
    (FillActorService.submitCloudMove planId record cloud).wp (CloudWorld.answers b) Allowed
      (fun _ _ => True) (fun _ _ => True) w := by
  have hunsubmitted := h.sound.journalled _ h.fresh.1
  have hprepared : .prepared ∈ cloudMoveTransitions ((b.operation w.store (planId, record.candidateId)).map (·.state)) := by
    rw [h.fresh.1]
    decide
  unfold FillActorService.submitCloudMove
  refine (wp_bind _ _).2 (wp_quiet rfl rfl fun attemptId _ => (wp_bind _ _).2 (wp_quiet rfl rfl fun time _ => ?_))
  refine (wp_bind _ _).2 ?_
  unfold FillActorService.preparedOperation
  split
  case isFalse => trivial
  rename_i hnamed
  refine (wp_bind _ _).2 ((wp_attempt _).2 (wp_save h.sound hprepared h.fresh.2 (fun w₁ hs₁ hl₁ hu₁ => ?_) fun e w' => ?_))
  · -- the operation is journalled as submitting before the call
    refine (wp_bind _ _).2 (wp_advance hs₁ hl₁ (show _ ∈ cloudMoveTransitions (some .prepared) by decide) fun row w₂ hs₂ hl₂ hsame hstate hu₂ => ?_)
    have hkey : row.key = (planId, record.candidateId) := hsame.key
    have hg : Allowed w₂ (.moveFile planId record.candidateId cloud.sourcePath cloud.destinationDir) :=
      ⟨⟨row, hkey ▸ hl₂.1, hstate, hsame.source⟩, hu₂ _ (hu₁ _ hunsubmitted)⟩
    -- whatever CloudDrive answers, the row stands as it was submitted
    have after : ∀ {r w₃}, CloudWorld.answers b w₂ (.moveFile planId record.candidateId cloud.sourcePath cloud.destinationDir)
        r w₃ → Watched C record cloud row w₃ := by
      intro r w₃ ht
      have hstore : w₃.store = w₂.store := ht.1
      refine ⟨(hs₂.step hg ht).1, ?_, hkey ▸ h.candidate, h.cloud⟩
      unfold Live
      rw [hstore]
      exact hl₂
    refine (wp_bind _ _).2 ((wp_attempt _).2 ((wp_call (CloudOp.moveFile _ _ _ _)).2 ⟨hg, ?_, ?_⟩))
    · intro response w₃ ht
      have h₃ := after ht
      refine (wp_bind _ _).2 (wp_advance h₃.sound h₃.live (by rw [hstate]; decide) fun row' w₄ hs₄ hl₄ hsame' hstate' _ => ?_)
      exact wp_verifyCloudMove ⟨hs₄, hl₄, hsame'.key ▸ h₃.candidate, h₃.cloud⟩ hstate' _
    · intro e w₃ ht
      have h₃ := after ht
      refine (wp_bind _ _).2 (wp_advance h₃.sound h₃.live (by rw [hstate]; decide) fun row' w₄ hs₄ hl₄ hsame' hstate' _ => ?_)
      have hwatched : Watched C record cloud row' w₄ := ⟨hs₄, hl₄, hsame'.key ▸ h₃.candidate, h₃.cloud⟩
      exact wp_mono (wp_observeCloudMove hwatched (.inr hstate')) (fun _ _ _ => trivial) fun _ _ _ => trivial
  · cases e <;> trivial

/-! ## Before a submission -/

theorem wp_saved (h : Ready C planId record cloud w) {state : MoveState} {errorCode : Option String} (hmoved : state ≠ .moved)
    {Q : MoveResult → CloudWorld b → Prop} (hQ : ∀ r w', Q r w') :
    (FillActorService.saved planId (FillActorService.cloudResult record cloud state errorCode)).wp (CloudWorld.answers b) Allowed
      Q (fun _ _ => True) w := by
  refine (wp_bind _ _).2 ((wp_call (CloudOp.saveMoveResult _ _)).2 ⟨⟨h.fresh.1, h.fresh.2, hmoved⟩, ?_, fun _ _ _ => trivial⟩)
  exact fun _ w' _ => hQ _ w'

theorem uses_ask {op : CloudOp} (hl : op.looks = true) : Uses (fun op => op.looks = true) op.ask := (uses_call op).2 hl

theorem uses_listCloudDirectory (directory : String) :
    Uses (fun op => op.looks = true) (FillActorService.listCloudDirectory directory) := by
  unfold FillActorService.listCloudDirectory
  refine uses_bind (uses_attempt (uses_ask rfl)) fun r => ?_
  rcases r with e | files
  · cases e <;> trivial
  · trivial

theorem uses_statCloudFile (apiPath : String) :
    Uses (fun op => op.looks = true) (FillActorService.statCloudFile apiPath) :=
  uses_bind (uses_listCloudDirectory _) fun _ => trivial

theorem uses_validateCloudMapping : Uses (fun op => op.looks = true) (svc.validateCloudMapping record cloud) := by
  have hparse : Uses (fun op => op.looks = true) (svc.parseAgain record cloud) := by
    unfold FillActorService.parseAgain
    refine uses_bind (uses_ask rfl) fun found => uses_ite trivial ?_
    split
    · trivial
    · exact uses_bind (uses_ask rfl) fun parsed => uses_ite trivial (uses_ite trivial trivial)
  unfold FillActorService.validateCloudMapping
  refine uses_ite trivial (uses_bind (uses_ask rfl) fun _ => uses_ite trivial ?_)
  refine uses_bind (uses_ask rfl) fun _ => uses_ite trivial (uses_bind (uses_ask rfl) fun _ => uses_ite trivial ?_)
  refine uses_bind (uses_attempt hparse) fun r => ?_
  rcases r with e | error
  · cases e <;> trivial
  · trivial

/-- A look that is caught, and what is done about either end. -/
theorem wp_caught {p : Move α} {f : Except CloudExc α → Move MoveResult} (hp : Uses (fun op => op.looks = true) p)
    (h : Ready C planId record cloud w)
    (hf : ∀ r w', Ready C planId record cloud w' →
      (f r).wp (CloudWorld.answers b) Allowed (fun _ _ => True) (fun _ _ => True) w') :
    (p.attempt >>= f).wp (CloudWorld.answers b) Allowed (fun _ _ => True) (fun _ _ => True) w := by
  refine (wp_bind _ _).2 ((wp_attempt _).2 (wp_mono (wp_looks hp h.sound) (fun a w' h' => ?_) fun e w' h' => ?_))
  · exact hf _ w' (h.later h'.1 h'.2)
  · exact hf _ w' (h.later h'.1 h'.2)

theorem wp_recheckCloudMove (h : Ready C planId record cloud w) :
    (FillActorService.recheckCloudMove planId record cloud).wp (CloudWorld.answers b) Allowed
      (fun _ _ => True) (fun _ _ => True) w := by
  unfold FillActorService.recheckCloudMove
  refine wp_caught (uses_bind (uses_statCloudFile _) fun _ => uses_bind (uses_statCloudFile _) fun _ => trivial) h fun r w' h' => ?_
  rcases r with e | ⟨source, destination⟩
  · trivial
  · refine wp_ite (fun _ => wp_saved h' (by decide) fun _ _ => trivial) fun _ => ?_
    exact wp_ite (fun _ => wp_saved h' (by decide) fun _ _ => trivial) fun _ => wp_submitCloudMove h'

theorem wp_checkDestination (h : Ready C planId record cloud w) (listing : List CloudFileMetadata) :
    (FillActorService.checkDestination planId record cloud listing).wp (CloudWorld.answers b) Allowed
      (fun _ _ => True) (fun _ _ => True) w := by
  unfold FillActorService.checkDestination
  exact wp_ite (fun _ => wp_saved h (by decide) fun _ _ => trivial) fun _ => wp_recheckCloudMove h

theorem wp_ensureDestination (h : Ready C planId record cloud w) {Q : Except MoveResult (List CloudFileMetadata) → CloudWorld b → Prop}
    (herr : ∀ result w', Q (.error result) w') (hok : ∀ listing w', Ready C planId record cloud w' → Q (.ok listing) w') :
    (svc.ensureDestination planId record cloud).wp (CloudWorld.answers b) Allowed Q (fun _ _ => True) w := by
  unfold FillActorService.ensureDestination
  split
  · exact (wp_bind _ _).2 (wp_saved h (by decide) fun _ _ => herr _ _)
  rename_i parent brand _ _
  have hlooks : Uses (fun op => op.looks = true) (do
      if ← ensureDirectory parent brand then FillActorService.listCloudDirectory cloud.destinationDir else pure none :
        Move (Option (List CloudFileMetadata))) :=
    uses_bind (uses_ask rfl) fun _ => uses_ite (uses_listCloudDirectory _) trivial
  have missing : ∀ w', Ready C planId record cloud w' → (do
      let result ← FillActorService.saved planId
        (FillActorService.cloudResult record cloud .invalidPath (some "cloud_destination_missing"))
      pure (.error result) : Move (Except MoveResult (List CloudFileMetadata))).wp (CloudWorld.answers b) Allowed Q
        (fun _ _ => True) w' :=
    fun w' h' => (wp_bind _ _).2 (wp_saved h' (by decide) fun _ _ => herr _ _)
  refine (wp_bind _ _).2 ((wp_attempt _).2 (wp_mono (wp_looks hlooks h.sound) (fun a w' h' => ?_) fun e w' h' => ?_))
  · cases a with
    | none => exact missing w' (h.later h'.1 h'.2)
    | some listing => exact hok listing w' (h.later h'.1 h'.2)
  · exact missing w' (h.later h'.1 h'.2)

theorem wp_preflightCloudMove (h : Ready C planId record cloud w) :
    (svc.preflightCloudMove planId record cloud).wp (CloudWorld.answers b) Allowed (fun _ _ => True) (fun _ _ => True) w := by
  unfold FillActorService.preflightCloudMove
  refine wp_caught (uses_bind (uses_statCloudFile _) fun _ => uses_bind (uses_listCloudDirectory _) fun _ => trivial) h
    fun r w' h' => ?_
  rcases r with e | ⟨_ | source, listing⟩
  · trivial
  · exact wp_saved h' (by decide) fun _ _ => trivial
  refine wp_ite (fun _ => wp_saved h' (by decide) fun _ _ => trivial) fun _ => ?_
  cases listing with
  | some listing => exact wp_checkDestination h' listing
  | none =>
    refine (wp_bind _ _).2 (wp_ensureDestination h' (fun _ _ => trivial) fun listing w'' h'' => ?_)
    exact wp_checkDestination h'' listing

/-! ## Under the lock -/

theorem wp_runLocked (h : Sound C w) (hcand : C (planId, record.candidateId) = some record) (hcloud : record.cloud = some cloud) :
    (svc.runLocked planId record cloud).wp (CloudWorld.answers b) Allowed (fun _ _ => True) (fun _ _ => True) w := by
  unfold FillActorService.runLocked
  refine (wp_bind _ _).2 (wp_quiet rfl rfl fun cached hcached => ?_)
  have hresult := Backend.getMoveResult_ok (hcached.1.2 _ rfl)
  cases cached with
  | some cached => trivial
  | none =>
    refine (wp_bind _ _).2 (wp_quiet rfl rfl fun operation hop => ?_)
    have hoperation := Backend.getCloudMoveOperation_ok (hop.1.2 _ rfl)
    cases operation with
    | some row =>
      have hkey : row.key = (planId, record.candidateId) := (h.placed _ row hoperation.symm).1
      exact wp_recoverCloudMove ⟨h, ⟨hkey ▸ hoperation.symm, hkey ▸ hresult.symm⟩, hkey ▸ hcand, hcloud⟩
    | none =>
      have hready : Ready C planId record cloud w := ⟨h, ⟨hoperation.symm, hresult.symm⟩, hcand, hcloud⟩
      refine (wp_bind _ _).2 (wp_mono (wp_looks uses_validateCloudMapping h) (fun error w' h' => ?_) fun _ _ _ => trivial)
      cases error with
      | some error => exact wp_saved (hready.later h'.1 h'.2) (by decide) fun _ _ => trivial
      | none => exact wp_preflightCloudMove (hready.later h'.1 h'.2)

theorem wp_reconcileLocked (h : Sound C w) {operation : CloudMoveOperationRecord}
    (hcand : C (operation.planId, operation.candidateId) = some record) (hcloud : record.cloud = some cloud) :
    (FillActorService.reconcileLocked operation record cloud).wp (CloudWorld.answers b) Allowed
      (fun _ _ => True) (fun _ _ => True) w := by
  unfold FillActorService.reconcileLocked
  refine (wp_bind _ _).2 (wp_quiet rfl rfl fun current hop => ?_)
  have hcurrent := Backend.getCloudMoveOperation_ok (hop.1.2 _ rfl)
  cases current with
  | none => trivial
  | some row =>
    refine wp_ite (fun _ => trivial) fun hopen => (wp_bind _ _).2 ?_
    have hkey : row.key = (operation.planId, operation.candidateId) := (h.placed _ row hcurrent.symm).1
    have hnone := h.unresolved _ row hcurrent.symm (by simpa using hopen)
    have hwatched : Watched C record cloud row w := ⟨h, ⟨hkey ▸ hcurrent.symm, hkey ▸ hnone⟩, hkey ▸ hcand, hcloud⟩
    exact wp_mono (wp_recoverCloudMove hwatched) (fun _ _ _ => trivial) fun _ _ _ => trivial

end move

end EmbyxManager.FillActor
