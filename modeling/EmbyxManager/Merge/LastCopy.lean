import Mathlib.Data.Nat.Init
import EmbyxManager.Merge.Footprint
/-!
# The last copy is never given up

Two of a tick's actions need an argument of their own, the move into `replacing`
and the deletion of the parts; a cancel is about what it deletes. What is left of
each operation keeps a history sound wherever it stops.
-/

namespace EmbyxManager.Merge
open Atom Prog

/-! ## A tick -/

/-- A sound history with this operation under way. -/
def During (m : MergeService) (a : Action) (h : History) : Prop := Sound m h ∧ running h.marks = some a

section During
variable {m : MergeService} {a : Action} {h h' : History} {op : Op} {r : Except Exc (Res op)}

theorem During.step (hd : During m a h) (hl : Legal m h op) (ht : History.answers h op r h') : During m a h' := by
  refine ⟨hd.1.step hl ht, ?_⟩
  rw [ht.2.2]
  exact hd.2

theorem not_cancel (hd : During m a h) (ha : ∀ id, a ≠ .cancel id) : ∀ id, running h.marks ≠ some (.cancel id) := by
  intro id hrun
  rw [hd.2] at hrun
  exact ha id (Option.some.inj hrun)

end During

/-- The history after an action that leaves the row alone. -/
def History.after (h : History) (op : Op) (r : Except Exc (Res op)) : History := ⟨h.row, .did op r h.row h.row :: h.marks⟩

section after
variable (h : History) (op : Op) (r : Except Exc (Res op))

@[simp] theorem after_row : (h.after op r).row = h.row := rfl

theorem not_completes (row : MergeTask) : ¬(row.state = .merging ∧ row.state = .uploading) := by
  rintro ⟨hm, hu⟩
  rw [hm] at hu
  cases hu

theorem lastMerged_after : lastMerged (h.after op r).marks = lastMerged h.marks := lastMerged_did (not_completes h.row)

theorem sinceMerge_after : sinceMerge (h.after op r).marks = .did op r h.row h.row :: sinceMerge h.marks :=
  sinceMerge_did (not_completes h.row)

end after

/-- Writes no row and deletes nothing. -/
def Op.looks : Op → Bool
  | .transition .. | .update .. | .deleteFiles .. | .unlink .. => false
  | _ => true

section looks
variable {m : MergeService} {a : Action} {h h' : History} {op : Op} {r : Except Exc (Res op)}

theorem legal_of_looks (hop : op.looks = true) : Legal m h op := by
  cases op with
  | transition | update | deleteFiles | unlink => cases hop
  | _ => exact fun hg => hg.elim

theorem after_of_answers (hop : op.looks = true) (ht : History.answers h op r h') : h' = h.after op r := by
  have hrow : h'.row = h.row := by
    rcases row_cases ht.2.1 with hrow | ⟨_, _, _, _, rfl, _⟩ | ⟨_, _, rfl, _⟩
    · exact hrow
    · cases hop
    · cases hop
  obtain ⟨row', marks'⟩ := h'
  obtain rfl : row' = h.row := hrow
  obtain rfl : marks' = .did op r h.row h.row :: h.marks := ht.2.2
  rfl

/-- An action that only looks leaves the row as it is, and what it saw in the history. -/
theorem wp_look {Q : Res op → History → Prop} {X : Exc → History → Prop} (hop : op.looks = true) (hd : During m a h)
    (hok : ∀ x, During m a (h.after op (.ok x)) → Q x (h.after op (.ok x)))
    (herr : ∀ o, During m a (h.after op (.error (.outside o))) → X (.outside o) (h.after op (.error (.outside o)))) :
    wp History.answers (Legal m) (ask op) Q X h := by
  have hl : Legal m h op := legal_of_looks hop
  unfold ask
  rw [wp_call]
  refine ⟨hl, fun x h' ht => ?_, fun e h' ht => ?_⟩
  · have hd' := hd.step hl ht
    obtain rfl := after_of_answers hop ht
    exact hok x hd'
  · obtain ⟨o, rfl⟩ := ht.1 e rfl
    have hd' := hd.step hl ht
    obtain rfl := after_of_answers hop ht
    exact herr o hd'

end looks

section ticks
variable {m : MergeService} {task : MergeTask} {paths : MergePaths} {h : History}

/-- What a plain program keeps while a tick is under way. -/
theorem keeps_plain {α : Type} {p : M α} {id : Int} (hp : Uses (Plain id) p) :
    Keeps History.answers (Legal m) (During m .tick) (fun _ => During m .tick) p := by
  have hlegal : ∀ s op, Plain id op → During m .tick s → Legal m s op :=
    fun s op hop hd => legal_of_plain hop (not_cancel hd fun _ => by simp)
  exact keeps_of_uses hp hlegal fun s op r s' hop hd ht => hd.step (hlegal s op hop hd) ht

theorem keeps_writes {α : Type} {p : M α} {id : Int} {s : MergeState} (hp : Uses (Writes id s) p) :
    Keeps History.answers (Legal m) (During m .tick) (fun _ => During m .tick) p :=
  keeps_plain (uses_mono hp fun _ => Writes.plain)

/-- What is done to another task. -/
theorem keeps_ordinary {α : Type} {p : M α} {id : Int} {row : MergeTask} (hp : Uses (Ordinary id) p) (hid : id ≠ row.id) :
    Keeps History.answers (Legal m) (fun h => During m .tick h ∧ h.row = row) (fun _ h => During m .tick h ∧ h.row = row) p := by
  have hlegal : ∀ s op, Ordinary id op → During m .tick s ∧ s.row = row → Legal m s op := by
    rintro s op hop ⟨hd, rfl⟩
    unfold Ordinary at hop
    split at hop
    · exact fun hi => absurd (hop.symm.trans hi) hid
    · exact fun hi => absurd (hop.symm.trans hi) hid
    · exact fun hi => absurd (hop.symm.trans hi) hid
    · exact legal_of_plain hop (not_cancel hd fun _ => by simp)
  refine keeps_of_uses hp hlegal fun s op r s' hop hI ht => ⟨hI.1.step (hlegal s op hop hI) ht, ?_⟩
  obtain ⟨-, rfl⟩ := hI
  rcases row_cases ht.2.1 with hrow | ⟨e, t, f, now, rfl, -, -⟩ | ⟨f, now, rfl, -⟩
  · exact hrow
  · exact absurd (Ordinary.task_eq hop) (Ne.symm hid)
  · exact absurd hop.1 (Ne.symm hid)

theorem wp_requireCloud {Q : Unit → History → Prop} {X : Exc → History → Prop} (hQ : Q () h) (hX : ∀ e, X e h) :
    wp History.answers (Legal m) (requireCloud m) Q X h := by
  unfold requireCloud
  split
  · exact hQ
  · exact hX _

/-- The last look: the listing beside the parts is in the history, and it showed no whole copy. -/
theorem wp_refuseWholeCopy {Q : Unit → History → Prop} {X : Exc → History → Prop} (hd : During m .tick h)
    (hX : ∀ h', During m .tick h' → ∀ e, X e h')
    (hQ : ∀ ans, During m .tick (h.after (.listDirectory task.id (partsDir paths)) ans) →
      (ans = .error (.outside .fileNotFound) ∨ ∃ entries, ans = .ok entries ∧ wholeAmong m task entries = none) →
      Q () (h.after (.listDirectory task.id (partsDir paths)) ans)) :
    wp History.answers (Legal m) (refuseWholeCopy m task paths) Q X h := by
  unfold refuseWholeCopy wholeCopy
  simp only [wp_bind]
  refine wp_requireCloud ?_ (hX h hd)
  refine wp_ite (fun _ => hX h hd _) fun _ => ?_
  rw [wp_bind, wp_attempt]
  refine wp_look rfl hd (fun entries hd' => ?_) fun o hd' => ?_
  · rw [wp_pure]
    cases hw : wholeAmong m task entries with
    | none => exact hQ _ hd' (.inr ⟨entries, rfl, hw⟩)
    | some whole => exact hX _ hd' _
  · cases o with
    | fileNotFound => exact hQ _ hd' (.inl rfl)
    | _ => exact hX _ hd' _

theorem wp_replacing (hd : During m .tick h) (hs : h.row.state = .verifying) (hc : Checked m h.row h.marks) :
    wp History.answers (Legal m) (discard (transition task .verifying .replacing { notice := some none }))
      (fun _ => During m .tick) (fun _ => During m .tick) h := by
  rw [wp_discard]
  have hl : Legal m h (.transition task.id .verifying .replacing { notice := some none }) := fun _ _ _ => .checked hs rfl hc
  exact (wp_call _).2 ⟨hl, fun _ _ ht => hd.step hl ht, fun _ _ ht => hd.step hl ht⟩

theorem wp_verify (hd : During m .tick h) (hrow : h.row = task) (hs : task.state = .verifying)
    (hp : mergePaths m task = .ok paths) :
    wp History.answers (Legal m) (verify m task paths) (fun _ => During m .tick) (fun _ => During m .tick) h := by
  subst hrow
  have hupdate : ∀ {h' : History} {f : Fields}, (f.failedState = none ∧ f.mergedBytes = none ∧ f.mergedSha1 = none) →
      During m .tick h' →
      wp History.answers (Legal m) (update h.row f) (fun _ => During m .tick) (fun _ => During m .tick) h' := by
    intro h' f hf hd'
    have huses : Uses (Plain h.row.id) (update h.row f) := uses_update ⟨rfl, hf⟩
    exact keeps_plain huses h' hd'
  obtain ⟨merged, hmerged, hbytes, hsha⟩ := hd.1.merged (.inr (stage_of_state hs (by decide)))
  unfold verify
  rw [wp_bind]
  refine wp_requireCloud ?_ fun _ => hd
  rw [wp_bind]
  refine wp_look rfl hd (fun time hd₁ => ?_) fun o hd₁ => hd₁
  rw [wp_bind]
  refine wp_look rfl hd₁ (fun staged hd₂ => ?_) fun o hd₂ => hd₂
  cases staged with
  | none => exact wp_ite (fun _ => hupdate ⟨rfl, rfl, rfl⟩ hd₂) fun _ => hd₂
  | some staged =>
    refine wp_ite (fun _ => hd₂) fun hsize => ?_
    refine wp_ite (fun _ => wp_ite (fun _ => hupdate ⟨rfl, rfl, rfl⟩ hd₂) fun _ => hd₂) fun hsome => ?_
    refine wp_ite (fun _ => hd₂) fun hsame => ?_
    rw [wp_bind]
    refine wp_refuseWholeCopy hd₂ (fun _ hd' _ => hd') fun ans hd₃ hans => ?_
    -- both looks are in the history of the row as the last merge left it
    have hchecked : Checked m h.row (((h.after .now (.ok time)).after (.statFile h.row.id paths.stagedFile)
        (.ok (some staged))).after (.listDirectory h.row.id (partsDir paths)) ans).marks := by
      refine ⟨merged, ?_, ?_, ?_⟩
      · rw [lastMerged_after, lastMerged_after, lastMerged_after, hmerged]
      · rw [sinceMerge_after, sinceMerge_after]
        refine StagedListed.cons ⟨paths, staged, _, _, hp, List.mem_cons_self, ?_, hsome, ?_⟩
        · rw [hbytes]
          exact Decidable.not_not.1 hsize
        · rw [hsha]
          exact Decidable.not_not.1 hsame
      · rw [sinceMerge_after]
        exact ⟨paths, ans, _, _, hp, List.mem_cons_self, hans⟩
    exact wp_replacing hd₃ hs hchecked

/-- What only looks changes neither the row nor what is under way. -/
theorem keeps_looking {α : Type} {a : Action} {p : M α} {row : MergeTask} (hp : Uses (fun op => op.looks = true) p) :
    Keeps History.answers (Legal m) (fun h => During m a h ∧ h.row = row) (fun _ h => During m a h ∧ h.row = row) p := by
  refine keeps_of_uses hp (fun s op hop _ => legal_of_looks hop) fun s op r s' hop hI ht => ?_
  refine ⟨hI.1.step (legal_of_looks hop) ht, ?_⟩
  rw [after_of_answers hop ht]
  exact hI.2

theorem wp_replace (hd : During m .tick h) (hrow : h.row = task) (hs : task.state = .replacing) :
    wp History.answers (Legal m) (replace m task paths) (fun _ => During m .tick) (fun _ => During m .tick) h := by
  have hlook : ∀ files, Uses (fun op => op.looks = true) (present pathLe task files) := fun _ => uses_present fun _ => rfl
  have hmove := keeps_writes (m := m) (writes_moveIntoIntake task paths)
  unfold replace
  rw [wp_bind]
  refine wp_requireCloud ?_ fun _ => hd
  rw [wp_bind]
  refine wp_mono (keeps_looking (hlook _) h ⟨hd, hrow⟩) (fun remaining h₁ hh₁ => ?_) fun _ _ hh₁ => hh₁.1
  obtain ⟨hd₁, rfl⟩ := hh₁
  refine wp_ite (fun _ => hmove h₁ hd₁) fun _ => ?_
  rw [wp_bind]
  have hl : Legal m h₁ (.deleteFiles h₁.row.id (.parts remaining)) := fun _ => hs
  refine (wp_call _).2 ⟨hl, fun result h₂ ht => ?_, fun _ _ ht => hd₁.step hl ht⟩
  have hd₂ := hd₁.step hl ht
  rw [wp_bind]
  refine wp_mono (keeps_looking (hlook _) h₂ ⟨hd₂, rfl⟩) (fun remaining h₃ hh₃ => ?_) fun _ _ hh₃ => hh₃.1
  refine wp_ite (fun _ => hmove h₃ hh₃.1) fun _ => ?_
  have huses : ∀ text, Uses (Plain h₁.row.id) (update h₁.row { notice := text }) :=
    fun _ => uses_update ⟨rfl, rfl, rfl, rfl⟩
  exact keeps_plain (huses _) h₃ hh₃.1

theorem wp_handler (hd : During m .tick h) (hrow : h.row = task) (hp : mergePaths m task = .ok paths) :
    wp History.answers (Legal m) (handler m task paths) (fun _ => During m .tick) (fun _ => During m .tick) h := by
  unfold handler
  split
  · exact keeps_writes (writes_startMerge m task paths) h hd
  · exact keeps_writes (writes_watchMerge m task paths) h hd
  · exact keeps_writes (writes_watchUpload m task paths) h hd
  · exact wp_verify hd hrow (by assumption) hp
  · exact wp_replace hd hrow (by assumption)
  · exact keeps_writes (writes_watchArchive m task paths) h hd
  · exact hd

theorem wp_step (hd : During m .tick h) (hrow : h.row = task) (hs : task.state.active = true) :
    wp History.answers (Legal m) (step m task) (fun _ => During m .tick) (fun _ => During m .tick) h := by
  unfold step
  rw [wp_bind, wp_attempt, wp_bind]
  have hcaught : ∀ e h', During m .tick h' → wp History.answers (Legal m) (stepped task (.error e))
      (fun _ => During m .tick) (fun _ => During m .tick) h' := by
    intro e h' hd'
    cases e with
    | failed text => exact keeps_plain (uses_discard (uses_transition (plain_failed hs _))) h' hd'
    | action | outside =>
      have huses : ∀ text, Uses (Plain task.id) (update task { notice := text }) := fun _ => uses_update ⟨rfl, rfl, rfl, rfl⟩
      exact keeps_plain (huses _) h' hd'
  cases hp : mergePaths m task with
  | error e => exact hcaught e h hd
  | ok paths =>
    change wp _ _ (handler m task paths) _ _ h
    exact wp_mono (wp_handler hd hrow hp) (fun _ _ hd' => hd') hcaught

/-- One round of the loop of `tick`. -/
theorem wp_round {G : History → Op → Prop} {merging : Bool} {Q : Bool → History → Prop} {X : Exc → History → Prop}
    (hsame : ∀ b, Q b h) (hstep : task.state ≠ .failed → wp History.answers G (step m task) (fun _ h' => ∀ b, Q b h') X h) :
    wp History.answers G (round m merging task) Q X h := by
  unfold round
  refine wp_ite (fun _ => hsame _) fun hf => wp_ite (fun _ => wp_ite (fun _ => hsame _) fun _ => ?_) fun _ => ?_
  · rw [wp_bind]
    exact wp_mono (hstep hf) (fun _ _ h => h _) fun _ _ h => h
  · rw [wp_bind]
    exact wp_mono (hstep hf) (fun _ _ h => h _) fun _ _ h => h

theorem active_of_open {t : MergeTask} (ho : ¬t.state.finished = true) (hf : t.state ≠ .failed) : t.state.active = true := by
  cases h : t.state with
  | done | cancelled =>
    rw [h] at ho
    exact absurd rfl ho
  | failed => exact absurd h hf
  | _ => rfl

/-- No program gives the row another id. -/
theorem wp_same_id {α : Type} {p : M α} {G : History → Op → Prop} {Q : α → History → Prop} {X : Exc → History → Prop} {i : Int}
    (hw : wp History.answers G p Q X h) (hi : h.row.id = i) :
    wp History.answers G p (fun a s => Q a s ∧ s.row.id = i) (fun e s => X e s ∧ s.row.id = i) h := by
  induction p generalizing h with
  | ret a => exact ⟨hw, hi⟩
  | raise e => exact ⟨hw, hi⟩
  | act op k ih =>
    refine ⟨hw.1, fun r s' ht => ih r (hw.2 r s' ht) ?_⟩
    rw [row_id ht.2.1, hi]

theorem wp_tick (hd : During m .tick h) :
    wp History.answers (Legal m) (tick m) (fun _ => During m .tick) (fun _ => During m .tick) h := by
  unfold tick
  refine wp_ite (fun _ => hd) fun _ => ?_
  have hl : Legal m h .openTasks := fun hg => hg.elim
  rw [wp_bind]
  refine (wp_call _).2 ⟨hl, fun tasks h₁ ht => ?_, fun _ _ ht => hd.step hl ht⟩
  have hd₁ := hd.step hl ht
  obtain ⟨-, ⟨hsame, hopen⟩, -⟩ := ht
  have hopen := hopen tasks rfl
  rw [← hsame] at hopen
  -- the rounds of other tasks leave the row alone
  have hother : ∀ (row : MergeTask) (acc : Bool) (y : MergeTask) s, y.id ≠ row.id → During m .tick s ∧ s.row = row →
      wp History.answers (Legal m) (round m acc y) (fun _ s => During m .tick s ∧ s.row = row)
        (fun _ => During m .tick) s := by
    intro row acc y s hy hs
    refine wp_round (fun _ => hs) fun _ => ?_
    exact wp_mono (keeps_ordinary (uses_step m y) hy s hs) (fun _ _ h _ => h) fun _ _ h => h.1
  rw [wp_discard]
  by_cases hfin : h₁.row.state.finished = true
  · rw [if_pos hfin] at hopen
    refine wp_mono (wp_foldEach_none (fun acc y s => hother h₁.row acc y s) hopen ⟨hd₁, rfl⟩) (fun _ _ h => h.1) fun _ _ h => h
  · rw [if_neg hfin] at hopen
    refine wp_mono (wp_foldEach_one (Q := fun _ s => During m .tick s ∧ s.row.id = h₁.row.id)
      (fun acc y s => hother h₁.row acc y s) ?_ ?_ hopen ⟨hd₁, rfl⟩) (fun _ _ h => h.1) fun _ _ h => h
    · rintro acc s ⟨hs, hrow⟩
      refine wp_round (fun _ => ⟨hs, by rw [hrow]⟩) fun hf => ?_
      refine wp_mono (wp_same_id (wp_step hs hrow (active_of_open hfin hf)) rfl) (fun _ s' hs' _ => ⟨hs'.1, ?_⟩) fun _ _ hs' => hs'.1
      rw [hs'.2, hrow]
    · rintro acc y s hy ⟨hs, hid⟩
      refine wp_mono (hother s.row acc y s (by rwa [hid]) ⟨hs, rfl⟩) (fun _ s' hs' => ⟨hs'.1, ?_⟩) fun _ _ h => h
      rw [hs'.2, hid]

end ticks

/-! ## Retries and cancels -/

/-- A retry that clears the failure takes the row up where it failed. -/
theorem move_of_resume {m : MergeService} {marks : List Mark} {row : MergeTask} (hs : row.state = .failed)
    (ha : row.stage.active = true) (now : Time) : Move m marks row
      (row.written now (some (row.failedState.getD .queued).resume) (retryFields (row.failedState.getD .queued).resume)) := by
  have hstage := stage_of_failed hs
  have hne : ∀ s : MergeState, s.resume ≠ .failed := by intro s; cases s <;> decide
  have hnow : ∀ f, (row.written now (some (row.failedState.getD .queued).resume) f).stage =
      (row.failedState.getD .queued).resume := fun f => stage_of_state rfl (hne _)
  cases hf : row.failedState.getD .queued with
  | queued | merging =>
    rw [hf] at hstage hnow
    exact .early (by rw [hstage]; rfl) (.inl (hnow _))
  | uploading | verifying =>
    rw [hf] at hstage hnow
    refine .uploads ?_ (.inl (hnow _)) rfl rfl
    rw [hstage]
    simp
  | replacing | archiving =>
    rw [hf] at hstage hnow
    exact .stays ((hnow _).trans hstage.symm) rfl rfl fun hf => nomatch hf
  | done | failed | cancelled =>
    rw [hstage, hf] at ha
    cases ha


section operator
variable {m : MergeService} {task row : MergeTask} {paths : MergePaths} {id : Int} {h : History}

/-- The row an operator's action works on is the row as it is. -/
theorem wp_getTask {a : Action} {Q : Option MergeTask → History → Prop} {X : Exc → History → Prop} (hd : During m a h)
    (hnone : ∀ h', During m a h' → Q none h') (hsome : ∀ t, During m a (h.after (.getTask id) (.ok (some t))) → t.id = id →
      (id = h.row.id → t = h.row) → Q (some t) (h.after (.getTask id) (.ok (some t))))
    (hX : ∀ h', During m a h' → ∀ e, X e h') :
    wp History.answers (Legal m) (ask (.getTask id)) Q X h := by
  have hl : Legal m h (.getTask id) := legal_of_looks rfl
  refine (wp_call _).2 ⟨hl, fun found h' ht => ?_, fun e h' ht => hX h' (hd.step hl ht) e⟩
  have hd' := hd.step hl ht
  obtain rfl := after_of_answers rfl ht
  obtain ⟨-, ⟨-, hfound⟩, -⟩ := ht
  obtain ⟨hrow, hid⟩ := hfound found rfl
  cases found with
  | none => exact hnone _ hd'
  | some t => exact hsome t hd' (hid t rfl) fun hi => Option.some.inj (hrow hi)

theorem wp_retry (hd : During m (.retry id) h) :
    wp History.answers (Legal m) (retry m id) (fun _ _ => True) (fun _ _ => True) h := by
  unfold retry
  rw [wp_bind]
  refine wp_getTask hd (fun _ _ => trivial) (fun t hd₁ hid ht => ?_) fun _ _ _ => trivial
  refine wp_ite (fun _ => trivial) fun hs => ?_
  have hstate : t.state = .failed := Decidable.not_not.1 hs
  have hrest : ∀ h', During m (.retry id) h' ∧ h'.row = h.row → wp History.answers (Legal m) (resumed t) (fun _ _ => True) (fun _ _ => True) h' := by
    rintro h' ⟨hd', hrow⟩
    unfold resumed
    rw [wp_bind]
    refine (wp_call _).2 ⟨fun hi hf now => ?_, fun r _ _ => by cases r <;> trivial, fun _ _ _ => trivial⟩
    obtain rfl := (ht (hid ▸ hrow ▸ hi)).trans hrow.symm
    exact move_of_resume hf (hd'.1.active hf) now
  refine wp_ite (fun _ => ?_) fun _ => hrest _ ⟨hd₁, rfl⟩
  rw [wp_bind]
  exact wp_mono (keeps_looking (uses_dropJob fun _ => rfl) _ ⟨hd₁, rfl⟩) (fun _ h' hh => hrest h' hh) fun _ _ _ => trivial

/-- Deletes, for one task, but not its parts; no row is written. -/
def Drops (id : Int) : Op → Prop
  | .transition .. | .update .. | .getTask _ | .deleteFiles _ (.parts _) => False
  | .deleteFiles i _ | .unlink i _ => i = id
  | _ => True

/-- The row is not touched, and a cancel of a title without parts has just seen a whole copy. -/
def Sparing (m : MergeService) (id i : Int) (row : MergeTask) (h : History) : Prop :=
  (During m (.cancel id) h ∧ h.row = row) ∧ (i = row.id → PartsDeleted row.id h.marks → WholeListed m row (thisOperation h.marks))

theorem keeps_drops {α : Type} {p : M α} {i : Int} (hp : Uses (Drops i) p) :
    Keeps History.answers (Legal m) (Sparing m id i row) (fun _ => Sparing m id i row) p := by
  have hlegal : ∀ s op, Drops i op → Sparing m id i row s → Legal m s op := by
    rintro s op hop ⟨⟨-, rfl⟩, hw⟩
    cases op with
    | transition | update | getTask => exact hop.elim
    | deleteFiles j what =>
      cases what with
      | parts _ => exact hop.elim
      | _ => exact fun hg _ => hw (hop.symm.trans hg)
    | unlink j file =>
      intro hg _
      cases file with
      | output => exact hw (hop.symm.trans hg)
      | _ => exact hg.elim
    | _ => exact fun hg => hg.elim
  refine keeps_of_uses hp hlegal fun s op r s' hop hI ht => ?_
  have hd' := hI.1.1.step (hlegal s op hop hI) ht
  have hrow : s'.row = s.row := by
    rcases row_cases ht.2.1 with hrow | ⟨_, _, _, _, rfl, _⟩ | ⟨_, _, rfl, _⟩
    · exact hrow
    · exact hop.elim
    · exact hop.elim
  refine ⟨⟨hd', hrow.trans hI.1.2⟩, fun hi hparts => ?_⟩
  rw [ht.2.2] at hparts ⊢
  rcases hparts.of_did with ⟨_, rfl⟩ | hparts
  · exact hop.elim
  · exact (hI.2 hi hparts).cons

theorem uses_dropStaged : Uses (Drops task.id) (dropStaged task paths) := by
  unfold dropStaged
  refine uses_bind (uses_suppress (uses_bind (uses_copyTask trivial) fun copy => ?_)) fun _ => ?_
  · split
    · exact uses_ite (uses_ask trivial) trivial
    · trivial
  · exact uses_suppress (uses_discard (uses_ask rfl))

theorem uses_dropUpload : Uses (Drops task.id) (dropUpload m task paths) := uses_ite uses_dropStaged trivial

theorem uses_dropLocal : Uses (Drops task.id) (dropLocal task) :=
  uses_bind (uses_unlink rfl) fun _ => uses_bind (uses_unlink rfl) fun _ => uses_bind (uses_unlink rfl) fun _ =>
    uses_ask trivial

theorem uses_dropFiles : Uses (Drops task.id) (dropFiles m task paths) :=
  uses_bind (uses_dropJob fun _ => trivial) fun _ => uses_bind uses_dropUpload fun _ => uses_dropLocal

theorem uses_discardFound (whole : Except Exc (Option String)) : Uses (Drops task.id) (discardFound task paths whole) := by
  unfold discardFound
  split
  · trivial
  · trivial
  · refine uses_bind (uses_attempt (uses_bind (uses_discard (uses_ask rfl)) fun _ => uses_ask trivial)) fun r => ?_
    split
    · trivial
    · trivial
    · exact uses_ite trivial trivial

theorem uses_discardDuplicate : Uses (Drops task.id) (discardDuplicate m task paths) := by
  unfold discardDuplicate
  refine uses_ite ?_ ?_
  · exact uses_bind (uses_attempt (uses_wholeCopy fun _ => trivial)) fun _ => uses_discardFound _
  · exact uses_bind (uses_pure _) fun _ => uses_discardFound _

/-- Nothing is deleted unless the listing just made holds a whole copy. -/
theorem wp_discardDuplicate (hd : During m (.cancel id) h) (hp : mergePaths m h.row = .ok paths) :
    wp History.answers (Legal m) (discardDuplicate m h.row paths) (fun _ => Sparing m id h.row.id h.row)
      (fun _ _ => True) h := by
  have hfound : ∀ whole s, (∀ name, whole = .ok (some name) → Sparing m id h.row.id h.row s) →
      wp History.answers (Legal m) (discardFound h.row paths whole) (fun _ => Sparing m id h.row.id h.row) (fun _ _ => True) s := by
    intro whole s hs
    cases whole with
    | error e => trivial
    | ok whole =>
      cases whole with
      | none => trivial
      | some name =>
        exact wp_mono (keeps_drops (uses_discardFound (.ok (some name))) s (hs name rfl)) (fun _ _ h => h) fun _ _ _ => trivial
  unfold discardDuplicate
  refine wp_ite (fun _ => ?_) fun _ => ?_
  · rw [wp_bind, wp_attempt]
    unfold wholeCopy
    rw [wp_bind]
    refine wp_requireCloud ?_ fun e => hfound _ h fun _ he => nomatch he
    refine wp_ite (fun _ => hfound _ h fun _ he => nomatch he) fun _ => ?_
    rw [wp_bind, wp_attempt]
    refine wp_look rfl hd (fun entries hd' => hfound _ _ fun name he => ⟨⟨hd', rfl⟩, fun _ _ => ?_⟩) fun o hd' => ?_
    · have hwhole : wholeAmong m h.row entries = some name := Except.ok.inj he
      exact ⟨paths, entries, h.row, h.row, hp, List.mem_cons_self, by rw [hwhole]; rfl⟩
    · cases o with
      | fileNotFound => exact hfound _ _ fun _ he => nomatch he
      | _ => exact hfound _ _ fun _ he => nomatch he
  · change wp _ _ (discardFound h.row paths (.ok none)) _ _ h
    exact hfound _ h fun _ he => nomatch he

/-- Nothing is gone while the task is at one of these. -/
theorem not_deleted (hs : Sound m h) (hc : h.row.state.cancellable = true)
    (hr : ¬(h.row.state = .failed ∧ h.row.failedState = some .replacing))
    (ha : ¬(h.row.state = .failed ∧ h.row.failedState = some .archiving)) : ¬PartsDeleted h.row.id h.marks := by
  intro hp
  have hpast := hs.past hp
  by_cases hf : h.row.state = .failed
  · have hactive := hs.active hf
    rw [stage_of_failed hf] at hpast hactive
    cases hfs : h.row.failedState with
    | none =>
      rw [hfs] at hpast
      cases hpast
    | some s =>
      rw [hfs] at hpast hactive
      cases s with
      | replacing => exact hr ⟨hf, hfs⟩
      | archiving => exact ha ⟨hf, hfs⟩
      | done | failed | cancelled => cases hactive
      | _ => cases hpast
  · rw [stage_of_state rfl hf] at hpast
    cases hst : h.row.state with
    | replacing | archiving | done | cancelled =>
      rw [hst] at hc
      cases hc
    | failed => exact hf hst
    | _ =>
      rw [hst] at hpast
      cases hpast

theorem wp_cancel (hd : During m (.cancel id) h) :
    wp History.answers (Legal m) (cancel m id) (fun _ _ => True) (fun _ _ => True) h := by
  unfold cancel
  rw [wp_bind]
  refine wp_getTask hd (fun _ _ => trivial) (fun t hd₁ hid ht => ?_) fun _ _ _ => trivial
  refine wp_ite (fun _ => trivial) fun hc => wp_ite (fun _ => trivial) fun hr => ?_
  rw [wp_bind]
  cases hp : mergePaths m t with
  | error e => trivial
  | ok paths =>
    -- once nothing can be lost, the rest only deletes what is to spare
    have hrest : ∀ h', Sparing m id t.id h.row h' → wp History.answers (Legal m) (do
        dropFiles m t paths
        cancelRow t) (fun _ _ => True) (fun _ _ => True) h' := by
      intro h' hh
      rw [wp_bind]
      refine wp_mono (keeps_drops uses_dropFiles h' hh) (fun _ h₂ hh₂ => ?_) fun _ _ _ => trivial
      unfold cancelRow
      rw [wp_bind]
      refine wp_look rfl hh₂.1.1 (fun time hd₃ => ?_) fun _ _ => trivial
      rw [wp_bind]
      exact (wp_call _).2 ⟨fun _ _ _ => .cancelled rfl, fun r _ _ => by cases r <;> trivial, fun _ _ _ => trivial⟩
    have hown : t.id = h.row.id → t = h.row := fun hi => ht (hid.symm.trans hi)
    change wp _ _ (if t.state = .failed ∧ t.failedState = some .archiving then do
      discardDuplicate m t paths
      dropFiles m t paths
      cancelRow t
    else do
      dropFiles m t paths
      cancelRow t) _ _ _
    refine wp_ite (fun _ => ?_) fun ha => hrest _ ⟨⟨hd₁, rfl⟩, fun hi hdel => ?_⟩
    · rw [wp_bind]
      by_cases hi : t.id = h.row.id
      · have hw := wp_discardDuplicate (h := h.after (.getTask id) (.ok (some t))) hd₁ (hown hi ▸ hp)
        rw [after_row, ← hown hi] at hw
        exact wp_mono hw (fun _ h' hh => hrest h' (hown hi ▸ hh)) fun _ _ _ => trivial
      · have hs : Sparing m id t.id h.row (h.after (.getTask id) (.ok (some t))) := ⟨⟨hd₁, rfl⟩, fun he => absurd he hi⟩
        exact wp_mono (keeps_drops uses_discardDuplicate _ hs) (fun _ h' hh => hrest h' hh) fun _ _ _ => trivial
    · obtain rfl := hown hi
      exact absurd hdel (not_deleted hd₁.1 (by simpa using hc) hr ha)

end operator

/-! ## Every history -/

theorem wp_action {m : MergeService} {h : History} (a : Action) (hd : During m a h) :
    wp History.answers (Legal m) (a.program m) (fun _ _ => True) (fun _ _ => True) h := by
  cases a with
  | tick => exact wp_mono (wp_tick hd) (fun _ _ _ => trivial) fun _ _ _ => trivial
  | cancel id => exact (wp_discard _).2 (wp_cancel hd)
  | retry id => exact (wp_discard _).2 (wp_retry hd)

theorem Sound.begun {m : MergeService} {h : History} (hs : Sound m h) (a : Action) : Sound m (h.begun a) := by
  refine ⟨hs.active, hs.merged, fun hst => ?_, fun hp => ?_, fun op ans was now before hsuf => ?_⟩
  · obtain ⟨merged, hl, hstaged, hnone⟩ := hs.checked hst
    exact ⟨merged, hl, hstaged.cons, hnone.cons⟩
  · obtain ⟨remaining, ans, was, now, hmem⟩ := hp
    rcases List.mem_cons.1 hmem with heq | hmem
    · cases heq
    · exact hs.past ⟨remaining, ans, was, now, hmem⟩
  · rcases List.suffix_cons_iff.1 hsuf with heq | hsuf
    · cases heq
    · exact hs.careful op ans was now before hsuf

theorem sound_of_reach {m : MergeService} {h : History} (hr : History.Reach m h) : Sound m h := by
  induction hr with
  | created id avid source parts mergedName now =>
    refine ⟨fun hf => (nomatch hf), fun hst => ?_, fun hst => ?_, fun hp => ?_, fun _ _ _ _ _ hsuf => ?_⟩
    · rcases hst with hst | hst <;> cases hst
    · rcases hst with hst | hst <;> cases hst
    · obtain ⟨_, _, _, _, hmem⟩ := hp
      cases hmem
    · cases List.suffix_nil.1 hsuf
  | operated a _ hstops ih =>
    have hd : During m a (History.begun _ a) := ⟨ih.begun a, rfl⟩
    exact wp_stops (fun _ _ _ _ hs hl ht => hs.step hl ht) (wp_action a hd) hd.1 hstops

/-- The parts of a title are deleted only once the staged file has been listed,
since the last completed merge, with the merged file's size and SHA-1, and a look
beside the parts found no whole copy; and from then on a cancel deletes the
staging folder, the target folder or the local output only after it has itself
listed a whole copy in the library. -/
theorem last_copy_kept (m : MergeService) (h : History) (hr : History.Reach m h) (op : Op) (ans : Except Exc (Res op))
    (was now : MergeTask) (before : List Mark) (hsuf : .did op ans was now :: before <:+ h.marks) :
    (∀ remaining, op = .deleteFiles h.row.id (.parts remaining) → Checked m h.row before) ∧
      (GivesUp h.row.id op → (∃ id, running before = some (.cancel id)) → PartsDeleted h.row.id before →
        WholeListed m h.row (thisOperation before)) := by
  obtain ⟨hchecked, hspared⟩ := (sound_of_reach hr).careful op ans was now before hsuf
  exact ⟨hchecked, hspared⟩

/-! ## A title merged -/

namespace Example

def service : MergeService where
  kube := true
  cloud := true
  cloudConfigured := true
  mergeConfigured := true
  merge := ⟨["downloads", "upload"], ["downloads", "upload"], ["115", "upload"], ["mnt", "cd2"], 20⟩
  archive := ⟨some ["mnt", "cd2", "115", "clt"], some ["mnt", "cd2", "115", "library"]⟩
  jobName := fun _ avid => avid
  wholeCopies := fun avid names => names.filter (· = avid ++ ".mp4")
  upper := id

def part (name : String) : CloudFile := ⟨name, ["115", "library", "ABC", name], 1, false, []⟩

def task : MergeTask :=
  .created 1 "ABC-123" ["vr"] [["mnt", "cd2", "115", "library", "ABC", "ABC-123-cd1.mp4"],
    ["mnt", "cd2", "115", "library", "ABC", "ABC-123-cd2.mp4"]] "ABC-123.mp4" 0

/-- The Job finishes, the copy completes, and the parts stay listed. -/
def world : (op : Op) → Except Exc (Res op)
  | .now => .ok (0 : Int)
  | .openTasks => .ok ([] : List MergeTask)
  | .getTask _ | .transition .. | .update .. | .getJob .. | .uploadFatalError .. => .ok none
  | .logTail .. => .ok ""
  | .copyTasks _ => .ok ([⟨["downloads"], ["115", "upload", "merge-1"], .completed, 2, false, []⟩] : List CopyTask)
  | .listDirectory .. => .ok [part "ABC-123-cd1.mp4", part "ABC-123-cd2.mp4"]
  | .statFile .. => .ok (some ⟨"ABC-123.mp4", [], 2, false, [("2", "A9")]⟩ : Option CloudFile)
  | .deleteFiles .. | .moveFile .. | .copyFile .. => .ok ⟨true, ""⟩
  | .readStatus _ => .ok (some { state := some "done", size := some 2, sha1 := some "A9" } : Option JobStatus)
  | .outputSize _ => .ok (some 2 : Option Int)
  | .unlink .. => .ok true
  | .trigger _ | .createJob .. | .deleteJob .. | .ensureDirectory .. | .restartCopyTask .. | .cancelCopyTask ..
  | .removeStagedParts _ => .ok ()

/-- The database answers by the row, the rest of the world as above. -/
def serve (h : History) : (op : Op) → Except Exc (Res op) × History
  | .openTasks =>
    let r : Except Exc (Res .openTasks) := .ok (if h.row.state.finished then [] else [h.row])
    (r, h.after .openTasks r)
  | .getTask id =>
    let r : Except Exc (Res (.getTask id)) := .ok (if id = h.row.id then some h.row else none)
    (r, h.after (.getTask id) r)
  | .transition id e s f =>
    let row := if id = h.row.id ∧ h.row.state = e then h.row.written 0 (some s) f else h.row
    let r : Except Exc (Option MergeTask) := .ok (if id = h.row.id ∧ h.row.state = e then some row else none)
    (r, ⟨row, .did (.transition id e s f) r h.row row :: h.marks⟩)
  | .update id f =>
    let row := if id = h.row.id then h.row.written 0 none f else h.row
    let r : Except Exc (Option MergeTask) := .ok (if id = h.row.id then some row else none)
    (r, ⟨row, .did (.update id f) r h.row row :: h.marks⟩)
  | op => (world op, h.after op (world op))

theorem serve_answers (h : History) (op : Op) : History.answers h op (serve h op).1 (serve h op).2 := by
  cases op with
  | openTasks =>
    refine ⟨fun e he => (by cases he), ⟨rfl, ?_⟩, rfl⟩
    rintro tasks ⟨⟩
    change List.filter (fun t : MergeTask => decide (t.id = h.row.id)) (if h.row.state.finished then [] else [h.row]) = _
    split
    · rfl
    · simp
  | getTask id =>
    refine ⟨fun e he => (by cases he), ⟨rfl, ?_⟩, rfl⟩
    rintro found ⟨⟩
    refine ⟨fun hid => if_pos hid, fun t ht => ?_⟩
    change (if id = h.row.id then some h.row else none) = some t at ht
    by_cases hid : id = h.row.id
    · rw [if_pos hid] at ht
      cases ht
      exact hid.symm
    · rw [if_neg hid] at ht
      cases ht
  | transition id e s f =>
    refine ⟨fun e he => (by cases he), ?_, rfl⟩
    simp only [rowAnswers, serve]
    by_cases hc : id = h.row.id ∧ h.row.state = e
    · rw [if_pos hc, if_pos hc]
      exact .inl ⟨0, rfl, fun t ht => (Except.ok.inj ht).symm.trans (if_pos hc)⟩
    · rw [if_neg hc, if_neg hc]
      exact ⟨rfl, fun _ t ht => (Except.ok.inj ht).symm.trans (if_neg hc)⟩
  | update id f =>
    refine ⟨fun e he => (by cases he), ?_, rfl⟩
    simp only [rowAnswers, serve]
    by_cases hc : id = h.row.id
    · rw [if_pos hc, if_pos hc]
      exact .inl ⟨0, rfl, fun t ht => (Except.ok.inj ht).symm.trans (if_pos hc)⟩
    · rw [if_neg hc, if_neg hc]
  | _ => exact ⟨fun e he => (by cases he), rfl, rfl⟩

def operate (h : History) (a : Action) : History := (Prog.exec serve (h.begun a) (a.program service)).2

theorem reach_operate {h : History} (hr : History.Reach service h) (a : Action) : History.Reach service (operate h a) :=
  .operated a hr (exec_runs serve_answers _ _).stops

/-- Five ticks: the fifth deletes the parts. -/
def history : History := [.tick, .tick, .tick, .tick, .tick].foldl operate ⟨task, []⟩

def Mark.deletesParts : Mark → Bool
  | .did (.deleteFiles 1 (.parts _)) _ _ _ => true
  | _ => false

theorem exists_deletion {marks : List Mark} (h : marks.any Mark.deletesParts = true) :
    ∃ remaining ans was now before, .did (.deleteFiles 1 (.parts remaining)) ans was now :: before <:+ marks := by
  obtain ⟨k, hk, hdel⟩ := List.any_eq_true.1 h
  obtain ⟨later, before, rfl⟩ := List.append_of_mem hk
  unfold Mark.deletesParts at hdel
  split at hdel
  · exact ⟨_, _, _, _, before, later, rfl⟩
  · cases hdel

end Example

open Example in
theorem last_copy_kept_merged : history.row.state = .replacing ∧ ∃ before, before <:+ history.marks ∧
    Checked service history.row before := by
  have hreach : History.Reach service history :=
    reach_operate (reach_operate (reach_operate (reach_operate (reach_operate (.created 1 _ _ _ _ 0) _) _) _) _) _
  have hid : history.row.id = 1 := by with_unfolding_all decide
  obtain ⟨remaining, ans, was, now, before, hsuf⟩ := exists_deletion (by with_unfolding_all decide : history.marks.any Mark.deletesParts = true)
  refine ⟨by with_unfolding_all decide, before, (List.suffix_cons _ _).trans hsuf, ?_⟩
  exact (last_copy_kept service history hreach _ ans was now before hsuf).1 remaining (by rw [hid])

end EmbyxManager.Merge
