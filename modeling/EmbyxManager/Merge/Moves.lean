import EmbyxManager.Merge.History
/-!
# What the service does to a row

`Move` says once how a row may change, `Legal` what an action has to be for it to
make only such moves and careful deletions, and `Sound` is what every legal
action keeps of a history.
-/

namespace EmbyxManager.Merge
open Atom Prog

/-- The parts may be gone. -/
def MergeState.past : MergeState → Bool
  | replacing | archiving | done | cancelled => true
  | _ => false

/-- A step of the service leads on from it. -/
def MergeState.active : MergeState → Bool
  | done | failed | cancelled => false
  | _ => true

/-- What a write does to the row. -/
inductive Move (m : MergeService) (marks : List Mark) (was now : MergeTask) : Prop
  | stays (stage : now.stage = was.stage) (bytes : now.mergedBytes = was.mergedBytes)
      (sha1 : now.mergedSha1 = was.mergedSha1)
      (fails : now.state = .failed → was.state = .failed ∨ now.stage.active = true)
  | early (early : was.stage.past = false) (stage : now.stage = .queued ∨ now.stage = .merging)
  | merged (merging : was.state = .merging) (uploading : now.state = .uploading)
  | uploads (early : was.stage = .uploading ∨ was.stage = .verifying) (stage : now.stage = .uploading ∨ now.stage = .verifying)
      (bytes : now.mergedBytes = was.mergedBytes) (sha1 : now.mergedSha1 = was.mergedSha1)
  | checked (verifying : was.state = .verifying) (replacing : now.state = .replacing) (checked : Checked m was marks)
  | onward (early : was.stage = .replacing ∨ was.stage = .archiving) (state : now.state = .archiving ∨ now.state = .done)
  | cancelled (state : now.state = .cancelled)

/-- A cancel that drops the merged copy of a title without parts has just seen a whole copy. -/
def Spares (m : MergeService) (row : MergeTask) (marks : List Mark) : Prop :=
  (∃ id, running marks = some (.cancel id)) → PartsDeleted row.id marks → WholeListed m row (thisOperation marks)

/-- What a deletion was preceded by. -/
structure Careful (m : MergeService) (row : MergeTask) (op : Op) (before : List Mark) : Prop where
  checked : ∀ remaining, op = .deleteFiles row.id (.parts remaining) → Checked m row before
  spared : GivesUp row.id op → Spares m row before

structure Sound (m : MergeService) (h : History) : Prop where
  active : h.row.state = .failed → h.row.stage.active = true
  merged : h.row.stage = .uploading ∨ h.row.stage = .verifying →
    ∃ t, lastMerged h.marks = some t ∧ t.mergedBytes = h.row.mergedBytes ∧ t.mergedSha1 = h.row.mergedSha1
  checked : h.row.stage = .replacing ∨ h.row.stage = .archiving → Checked m h.row h.marks
  past : PartsDeleted h.row.id h.marks → h.row.stage.past = true
  careful : ∀ op ans was now before, .did op ans was now :: before <:+ h.marks → Careful m h.row op before

/-- What an action needs of the history it is taken in. -/
def Legal (m : MergeService) (h : History) : Op → Prop
  | .transition id expected state f => id = h.row.id → h.row.state = expected →
    ∀ now, Move m h.marks h.row (h.row.written now (some state) f)
  | .update id f => id = h.row.id → f.failedState = none ∧ f.mergedBytes = none ∧ f.mergedSha1 = none
  | .deleteFiles id (.parts _) => id = h.row.id → h.row.state = .replacing
  | op => GivesUp h.row.id op → Spares m h.row h.marks

/-! ## Stages -/

section stage
variable {t : MergeTask}

theorem stage_of_state {s : MergeState} (h : t.state = s) (hs : s ≠ .failed) : t.stage = s := by
  unfold MergeTask.stage
  rw [h, if_neg hs]

theorem stage_of_failed (h : t.state = .failed) : t.stage = t.failedState.getD .queued := by
  unfold MergeTask.stage
  rw [if_pos h]

end stage

/-! ## Histories -/

section marks
variable {m : MergeService} {row was now : MergeTask} {op : Op} {ans : Except Exc (Res op)} {marks : List Mark}

theorem lastMerged_did (h : ¬(was.state = .merging ∧ now.state = .uploading)) :
    lastMerged (.did op ans was now :: marks) = lastMerged marks := if_neg h

theorem sinceMerge_did (h : ¬(was.state = .merging ∧ now.state = .uploading)) :
    sinceMerge (.did op ans was now :: marks) = .did op ans was now :: sinceMerge marks := by
  unfold sinceMerge
  rw [List.takeWhile_cons_of_pos]
  simpa [Mark.completesMerge, Classical.or_iff_not_imp_left] using h

theorem StagedListed.cons {merged : MergeTask} {k : Mark} (h : StagedListed m row merged marks) :
    StagedListed m row merged (k :: marks) := by
  obtain ⟨paths, staged, was, now, hp, hmem, hfit⟩ := h
  exact ⟨paths, staged, was, now, hp, List.mem_cons_of_mem _ hmem, hfit⟩

theorem NoWholeListed.cons {k : Mark} (h : NoWholeListed m row marks) : NoWholeListed m row (k :: marks) := by
  obtain ⟨paths, ans, was, now, hp, hmem, hnone⟩ := h
  exact ⟨paths, ans, was, now, hp, List.mem_cons_of_mem _ hmem, hnone⟩

theorem WholeListed.cons {k : Mark} (h : WholeListed m row marks) : WholeListed m row (k :: marks) := by
  obtain ⟨paths, entries, was, now, hp, hmem, hwhole⟩ := h
  exact ⟨paths, entries, was, now, hp, List.mem_cons_of_mem _ hmem, hwhole⟩

theorem Checked.did (h : Checked m row marks) (hq : ¬(was.state = .merging ∧ now.state = .uploading)) :
    Checked m row (.did op ans was now :: marks) := by
  obtain ⟨merged, hl, hs, hn⟩ := h
  refine ⟨merged, ?_, ?_, ?_⟩
  · rw [lastMerged_did hq]
    exact hl
  · rw [sinceMerge_did hq]
    exact hs.cons
  · rw [sinceMerge_did hq]
    exact hn.cons

theorem PartsDeleted.of_did {id : Int} (h : PartsDeleted id (.did op ans was now :: marks)) :
    (∃ remaining, op = .deleteFiles id (.parts remaining)) ∨ PartsDeleted id marks := by
  obtain ⟨remaining, ans', was', now', hmem⟩ := h
  rcases List.mem_cons.1 hmem with heq | hmem
  · injection heq with hop
    exact .inl ⟨remaining, hop.symm⟩
  · exact .inr ⟨remaining, ans', was', now', hmem⟩

end marks

/-! ## Every legal action keeps the row sound -/

section sound
variable {m : MergeService} {h h' : History} {row row' : MergeTask} {op : Op} {r : Except Exc (Res op)}

/-- The row after an action is the row before it, or was written. -/
theorem row_cases (ha : rowAnswers row row' op r) :
    row' = row ∨
      (∃ e s f now, op = .transition row.id e s f ∧ row.state = e ∧ row' = row.written now (some s) f) ∨
      ∃ f now, op = .update row.id f ∧ row' = row.written now none f := by
  cases op with
  | transition id e s f =>
    simp only [rowAnswers] at ha
    split at ha
    · rename_i hc
      obtain ⟨rfl, he⟩ := hc
      rcases ha with ⟨now, hrow, -⟩ | ⟨hrow, -⟩
      · exact .inr (.inl ⟨e, s, f, now, rfl, he, hrow⟩)
      · exact .inl hrow
    · exact .inl ha.1
  | update id f =>
    simp only [rowAnswers] at ha
    split at ha
    · rename_i hc
      subst hc
      rcases ha with ⟨now, hrow, -⟩ | ⟨hrow, -⟩
      · exact .inr (.inr ⟨f, now, rfl, hrow⟩)
      · exact .inl hrow
    · exact .inl ha
  | openTasks => exact .inl ha.1
  | getTask id => exact .inl ha.1
  | _ => exact .inl ha

theorem row_id (ha : rowAnswers row row' op r) : row'.id = row.id := by
  rcases row_cases ha with hrow | ⟨_, _, _, _, _, _, hrow⟩ | ⟨_, _, _, hrow⟩ <;> rw [hrow] <;> rfl

/-- What names the task's files is never written. -/
theorem row_same (ha : rowAnswers row row' op r) :
    row'.id = row.id ∧ row'.avid = row.avid ∧ mergePaths m row' = mergePaths m row := by
  rcases row_cases ha with hrow | ⟨_, _, _, _, _, _, hrow⟩ | ⟨_, _, _, hrow⟩ <;> rw [hrow] <;> exact ⟨rfl, rfl, rfl⟩

theorem move_of_legal (hl : Legal m h op) (ha : rowAnswers h.row h'.row op r) : Move m h.marks h.row h'.row := by
  rcases row_cases ha with hrow | ⟨e, s, f, now, rfl, he, hrow⟩ | ⟨f, now, rfl, hrow⟩
  · rw [hrow]
    exact .stays rfl rfl rfl .inl
  · rw [hrow]
    exact hl rfl he now
  · obtain ⟨hf, hb, hs⟩ := hl rfl
    rw [hrow]
    refine .stays ?_ ?_ ?_ .inl
    · simp only [MergeTask.stage, written_state, written_failedState, Option.getD_none, hf]
    · rw [written_mergedBytes, hb, Option.getD_none]
    · rw [written_mergedSha1, hs, Option.getD_none]

section same
variable {row row' : MergeTask} (hid : row'.id = row.id) (havid : row'.avid = row.avid)
  (hpaths : mergePaths m row' = mergePaths m row)
include hid havid hpaths

theorem WholeListed.same {marks : List Mark} (hw : WholeListed m row marks) : WholeListed m row' marks := by
  unfold WholeListed wholeAmong at *
  rw [hid, havid, hpaths]
  exact hw

theorem Checked.same {marks : List Mark} (hc : Checked m row marks) : Checked m row' marks := by
  unfold Checked StagedListed NoWholeListed wholeAmong at *
  rw [hid, havid, hpaths]
  exact hc

theorem Careful.same {op : Op} {before : List Mark} (hc : Careful m row op before) : Careful m row' op before := by
  refine ⟨fun remaining hop => ?_, fun hg hrun hp => ?_⟩
  · rw [hid] at hop
    exact (hc.checked remaining hop).same hid havid hpaths
  · rw [hid] at hg hp
    exact (hc.spared hg hrun hp).same hid havid hpaths

end same

theorem past_of_stage {t : MergeTask} (h : t.stage = .replacing ∨ t.stage = .archiving) : t.stage.past = true := by
  rcases h with h | h <;> rw [h] <;> rfl

section move
variable {marks : List Mark} {was now : MergeTask}

theorem Move.active (hmove : Move m marks was now) (hwas : was.state = .failed → was.stage.active = true)
    (hf : now.state = .failed) : now.stage.active = true := by
  cases hmove with
  | stays hstage _ _ hfails =>
    rcases hfails hf with hw | ha
    · rw [hstage]
      exact hwas hw
    · exact ha
  | early _ hn | uploads _ hn => rcases hn with hn | hn <;> rw [hn] <;> rfl
  | merged _ hn | checked _ hn | cancelled hn =>
    rw [hn] at hf
    cases hf
  | onward _ hn =>
    rw [hf] at hn
    rcases hn with hn | hn <;> cases hn

/-- What is past the check stays past it. -/
theorem Move.past (hmove : Move m marks was now) (hwas : was.stage.past = true) : now.stage.past = true := by
  cases hmove with
  | stays hstage => rwa [hstage]
  | early hw =>
    rw [hwas] at hw
    cases hw
  | merged hw =>
    rw [stage_of_state hw (by decide)] at hwas
    cases hwas
  | uploads hw => rcases hw with hw | hw <;> rw [hw] at hwas <;> cases hwas
  | checked _ hn => exact past_of_stage (.inl (stage_of_state hn (by decide)))
  | onward _ hn => rcases hn with hn | hn <;> rw [stage_of_state hn (by decide)] <;> rfl
  | cancelled hn =>
    rw [stage_of_state hn (by decide)]
    rfl

end move

section step
variable (hs : Sound m h) (hm : h'.marks = .did op r h.row h'.row :: h.marks) (hmove : Move m h.marks h.row h'.row)
include hs hm hmove

/-- The merge a row being uploaded came from. -/
theorem Sound.merged_step (hst : h'.row.stage = .uploading ∨ h'.row.stage = .verifying) :
    ∃ t, lastMerged h'.marks = some t ∧ t.mergedBytes = h'.row.mergedBytes ∧ t.mergedSha1 = h'.row.mergedSha1 := by
  cases hmove with
  | stays hstage hbytes hsha =>
    have hq : ¬(h.row.state = .merging ∧ h'.row.state = .uploading) := by
      rintro ⟨hw, hn⟩
      rw [stage_of_state hw (by decide), stage_of_state hn (by decide)] at hstage
      cases hstage
    rw [hm, lastMerged_did hq, hbytes, hsha]
    rw [hstage] at hst
    exact hs.merged hst
  | early _ hn => rcases hn with hn | hn <;> rw [hn] at hst <;> rcases hst with hst | hst <;> cases hst
  | merged hw hn =>
    refine ⟨h'.row, ?_, rfl, rfl⟩
    rw [hm]
    exact if_pos ⟨hw, hn⟩
  | uploads hw hn hbytes hsha =>
    have hq : ¬(h.row.state = .merging ∧ h'.row.state = .uploading) := by
      rintro ⟨hmerging, -⟩
      rw [stage_of_state hmerging (by decide)] at hw
      rcases hw with hw | hw <;> cases hw
    rw [hm, lastMerged_did hq, hbytes, hsha]
    exact hs.merged hw
  | checked _ hn | cancelled hn =>
    rw [stage_of_state hn (by decide)] at hst
    rcases hst with hst | hst <;> cases hst
  | onward _ hn =>
    rcases hn with hn | hn <;> rw [stage_of_state hn (by decide)] at hst <;> rcases hst with hst | hst <;> cases hst

/-- The check a row being replaced or archived has passed. -/
theorem Sound.checked_step (hid : h'.row.id = h.row.id) (havid : h'.row.avid = h.row.avid)
    (hpaths : mergePaths m h'.row = mergePaths m h.row) (hst : h'.row.stage = .replacing ∨ h'.row.stage = .archiving) :
    Checked m h'.row h'.marks := by
  cases hmove with
  | stays hstage =>
    have hq : ¬(h.row.state = .merging ∧ h'.row.state = .uploading) := by
      rintro ⟨hw, hn⟩
      rw [stage_of_state hw (by decide), stage_of_state hn (by decide)] at hstage
      cases hstage
    rw [hm]
    rw [hstage] at hst
    exact ((hs.checked hst).did hq).same hid havid hpaths
  | early _ hn | uploads _ hn => rcases hn with hn | hn <;> rw [hn] at hst <;> rcases hst with hst | hst <;> cases hst
  | merged _ hn | cancelled hn =>
    rw [stage_of_state hn (by decide)] at hst
    rcases hst with hst | hst <;> cases hst
  | checked hw _ hc =>
    have hq : ¬(h.row.state = .merging ∧ h'.row.state = .uploading) := by
      rintro ⟨hmerging, -⟩
      rw [hw] at hmerging
      cases hmerging
    rw [hm]
    exact (hc.did hq).same hid havid hpaths
  | onward hw hn =>
    have hq : ¬(h.row.state = .merging ∧ h'.row.state = .uploading) := by
      rintro ⟨-, hu⟩
      rw [hu] at hn
      rcases hn with hn | hn <;> cases hn
    rw [hm]
    exact ((hs.checked hw).did hq).same hid havid hpaths

omit hmove in
/-- Parts were deleted only past the check, this action's included. -/
theorem Sound.past_before (hl : Legal m h op) (hp : PartsDeleted h.row.id h'.marks) : h.row.stage.past = true := by
  rw [hm] at hp
  rcases hp.of_did with ⟨remaining, rfl⟩ | hp
  · exact past_of_stage (.inl (stage_of_state (hl rfl) (by decide)))
  · exact hs.past hp

omit hmove in
theorem Sound.careful_step (hl : Legal m h op) (hid : h'.row.id = h.row.id) (havid : h'.row.avid = h.row.avid)
    (hpaths : mergePaths m h'.row = mergePaths m h.row) :
    ∀ op' ans was now before, .did op' ans was now :: before <:+ h'.marks → Careful m h'.row op' before := by
  intro op' ans was now before hsuf
  refine Careful.same hid havid hpaths ?_
  rw [hm] at hsuf
  rcases List.suffix_cons_iff.1 hsuf with heq | hsuf
  · injection heq with hk hb
    subst hb
    injection hk with hop
    subst hop
    refine ⟨?_, ?_⟩
    · rintro remaining rfl
      exact hs.checked (.inl (stage_of_state (hl rfl) (by decide)))
    · intro hg
      cases op' with
      | deleteFiles id what =>
        cases what with
        | parts _ => exact hg.elim
        | stagingDir _ => exact hl hg
        | targetDir _ => exact hl hg
      | unlink id file => exact hl hg
      | _ => exact hg.elim
  · exact hs.careful op' ans was now before hsuf

end step

theorem Sound.step (hs : Sound m h) (hl : Legal m h op) (ht : History.answers h op r h') : Sound m h' := by
  obtain ⟨-, ha, hm⟩ := ht
  obtain ⟨hid, havid, hpaths⟩ := row_same (m := m) ha
  have hmove := move_of_legal hl ha
  exact {
    active := hmove.active hs.active
    merged := hs.merged_step hm hmove
    checked := hs.checked_step hm hmove hid havid hpaths
    past := fun hp => hmove.past (hs.past_before hm hl (hid ▸ hp))
    careful := hs.careful_step hm hl hid havid hpaths }

end sound

end EmbyxManager.Merge
