import Mathlib.Data.List.Sort
import EmbyxManager.Merge.TaskTable
/-!
# Merge tasks stay well formed

What a step writes is told by `Steps`, and a write only goes through out of the
state its caller expects; so whether a row stays fit is a matter of the action
alone. Only two operations rest on what they have read: a tick on the Job slot
being free, and a retry on where the task had failed.
-/

namespace EmbyxManager.Merge
open Atom Prog

/-! ## Rows -/

section rows
variable {t : MergeTask} {e s : MergeState} {f : Fields} (now : Time)

theorem stage_written_light (hf : f.light) : (t.written now none f).stage = t.stage := by
  simp only [MergeTask.stage, written_state, written_failedState, Option.getD_none, hf.1]

theorem MergeTask.Fit.noted (ht : t.Fit) (hf : f.light) : (t.written now none f).Fit := by
  obtain ⟨hfailed, hjob, hbytes, hsha⟩ := hf
  refine ⟨fun hq => ?_, fun hx => ?_, fun hc => ?_⟩
  · change f.jobName.getD t.jobName = none
    rw [hjob]
    exact ht.queued hq
  · rw [written_failedState, hfailed]
    exact ht.failed hx
  · rw [stage_written_light now ⟨hfailed, hjob, hbytes, hsha⟩] at hc
    rw [written_mergedBytes, written_mergedSha1, hbytes, hsha]
    exact ht.carries hc

/-- A row that leaves for a later state keeps the result. -/
theorem MergeTask.Fit.carried (ht : t.Fit) (he : t.state = e) (hc : e.carries = true) (hs : s.carries = true) (hf : f.light) :
    (t.written now (some s) f).Fit := by
  obtain ⟨-, -, hbytes, hsha⟩ := hf
  have hresult := ht.carries (by rwa [stage_of_state he (by rintro rfl; cases hc)])
  refine ⟨fun hq => ?_, fun hx => ?_, fun _ => ?_⟩
  · obtain rfl : s = .queued := hq
    cases hs
  · obtain rfl : s = .failed := hx
    cases hs
  · rw [written_mergedBytes, written_mergedSha1, hbytes, hsha]
    exact hresult

/-- A state without a job and without a result asks for nothing. -/
theorem MergeTask.Fit.bare (hq : s ≠ .queued) (hx : s ≠ .failed) (hc : s.carries = false) : (t.written now (some s) f).Fit := by
  refine ⟨fun h => absurd h hq, fun h => absurd h hx, fun h => ?_⟩
  rw [stage_of_state (s := s) rfl hx, hc] at h
  cases h

/-- Back in the queue, the job forgotten. -/
theorem MergeTask.Fit.requeued (hf : f.jobName = some none) : (t.written now (some .queued) f).Fit := by
  refine ⟨fun _ => ?_, fun h => (nomatch h), fun h => ?_⟩
  · change f.jobName.getD t.jobName = none
    rw [hf]
    rfl
  · rw [stage_of_state (s := .queued) rfl (by decide)] at h
    cases h

theorem MergeTask.Fit.advanced (ht : t.Fit) (he : t.state = e) (hm : advance e s f) : (t.written now (some s) f).Fit := by
  unfold advance at hm
  split at hm
  · exact MergeTask.Fit.bare now (by decide) (by decide) rfl
  · obtain ⟨⟨bytes, hbytes⟩, ⟨sha1, hsha⟩, -⟩ := hm
    refine ⟨fun h => (nomatch h), fun h => (nomatch h), fun _ => ?_⟩
    rw [written_mergedBytes, written_mergedSha1, hbytes, hsha]
    exact ⟨rfl, rfl⟩
  · exact MergeTask.Fit.requeued now hm
  · exact ht.carried now he rfl rfl hm
  · exact ht.carried now he rfl rfl hm
  · exact MergeTask.Fit.bare now (by decide) (by decide) rfl
  · exact hm.elim

/-- A failed row says where it failed, and keeps what it had there. -/
theorem MergeTask.Fit.failing (ht : t.Fit) (he : t.state = e) (ha : e.active = true) (hf : f.failedState = some (some e))
    (hb : f.mergedBytes = none) (hs : f.mergedSha1 = none) : (t.written now (some .failed) f).Fit := by
  refine ⟨fun h => (nomatch h), fun _ => ⟨e, ?_, ha⟩, fun hc => ?_⟩
  · rw [written_failedState, hf]
    rfl
  · rw [stage_of_failed (t := t.written now (some .failed) f) rfl, written_failedState, hf] at hc
    rw [written_mergedBytes, written_mergedSha1, hb, hs]
    refine ht.carries ?_
    rw [stage_of_state he]
    · exact hc
    · rintro rfl
      cases ha

/-- A retry takes the task up with what it failed with. -/
theorem MergeTask.Fit.retried (ht : t.Fit) (hx : t.state = .failed) :
    (t.written now (some (t.failedState.getD .queued).resume) (retryFields (t.failedState.getD .queued).resume)).Fit := by
  have hstage := stage_of_failed hx
  generalize t.failedState.getD .queued = place at hstage ⊢
  have resumed : place.resume.carries = true → place.carries = true := by
    cases place <;> decide
  have written : place.resume.carries = true →
      (retryFields place.resume).mergedBytes = none ∧ (retryFields place.resume).mergedSha1 = none := by
    cases place <;> exact fun _ => ⟨rfl, rfl⟩
  refine ⟨fun hq => ?_, fun hf => ?_, fun hc => ?_⟩
  · have hq' : place.resume = .queued := hq
    change (retryFields place.resume).jobName.getD t.jobName = none
    rw [hq']
    rfl
  · cases place <;> cases hf
  · have hne : place.resume ≠ .failed := by cases place <;> decide
    rw [stage_of_state (s := place.resume) rfl hne] at hc
    obtain ⟨hb, hs⟩ := written hc
    rw [written_mergedBytes, written_mergedSha1, hb, hs]
    refine ht.carries ?_
    rw [hstage]
    exact resumed hc

end rows

namespace TaskTable

/-! ## The table -/

/-- What a write needs of the table. -/
def Legal (tasks : TaskTable) : Op → Prop
  | .transition id e s f =>
    e.finished = false ∧ ∀ t, tasks.find id = some t → t.state = e →
      (∀ now, (t.written now (some s) f).Fit) ∧
        (s = .merging → ∀ k u, tasks.find k = some u → u.state = .merging → k = id)
  | .update _ f => f.light
  | _ => True

/-- No finished task changes its state. -/
def Onward (tasks tasks' : TaskTable) : Prop :=
  ∀ k t, tasks.find k = some t → ∃ t', tasks'.find k = some t' ∧ (t.state.finished = true → t'.state = t.state)

theorem Onward.trans {a b c : TaskTable} (h : Onward a b) (h' : Onward b c) : Onward a c := by
  intro k t hk
  obtain ⟨t', hk', hsame⟩ := h k t hk
  obtain ⟨t'', hk'', hsame'⟩ := h' k t' hk'
  refine ⟨t'', hk'', fun hf => ?_⟩
  have hstate := hsame hf
  exact (hsame' (by rw [hstate]; exact hf)).trans hstate

theorem Grows.onward {tasks tasks' : TaskTable} (h : Grows tasks tasks') : Onward tasks tasks' :=
  fun k t hk => ⟨t, h.keeps k t hk, fun _ => rfl⟩

section wrote
variable {tasks tasks' : TaskTable} {op : Op} {r : Except Exc (Res op)} {t t' : MergeTask} {k : Int}

theorem Wrote.avid (hw : Wrote op t t') : t'.avid = t.avid := by
  cases hw <;> rfl

theorem Wrote.merging (hw : Wrote op t t') (hm : t'.state = .merging) :
    t.state = .merging ∨ ∃ f, op = .transition t.id t.state .merging f := by
  cases hw with
  | kept => exact .inl hm
  | @moved s f now hop =>
    obtain rfl : s = .merging := hm
    exact .inr ⟨f, hop⟩
  | noted now hop => exact .inl hm

/-- A row that is written into another state was not finished. -/
theorem Wrote.finished (hw : Wrote op t t') (hl : Legal tasks op) (hf : t.state.finished = true) : t'.state = t.state := by
  cases hw with
  | kept => rfl
  | @moved s f now hop =>
    subst hop
    have hopen := hl.1
    rw [hf] at hopen
    cases hopen
  | noted now hop => rfl

theorem Wrote.fit (hw : Wrote op t t') (hl : Legal tasks op) (hk : tasks.find k = some t) (ht : t.Fit) : t'.Fit := by
  cases hw with
  | kept => exact ht
  | moved now hop =>
    subst hop
    rw [← Table.find_key hk] at hk
    exact (hl.2 t hk rfl).1 now
  | noted now hop =>
    subst hop
    exact ht.noted now hl

theorem Sound.wrote (hs : Sound tasks) (hl : Legal tasks op) (ha : rowsAnswer tasks tasks' op r) :
    Sound tasks' ∧ Onward tasks tasks' := by
  -- only one task may be moved to merging, and only when no other one is
  have merging : ∀ {j k t u t' u'}, tasks.find j = some t → Wrote op t t' → tasks.find k = some u → Wrote op u u' →
      t'.state = .merging → u'.state = .merging → j = k := by
    intro j k t u t' u' ht hwt hu hwu hmt hmu
    obtain rfl := Table.find_key ht
    obtain rfl := Table.find_key hu
    rcases hwt.merging hmt with hmt | ⟨f, rfl⟩
    · rcases hwu.merging hmu with hmu | ⟨f, rfl⟩
      · exact hs.oneMerging _ _ t u ht hu hmt hmu
      · exact (hl.2 u hu rfl).2 rfl _ t ht hmt
    · rcases hwu.merging hmu with hmu | ⟨f', hop⟩
      · exact ((hl.2 t ht rfl).2 rfl _ u hu hmu).symm
      · injection hop
  refine ⟨⟨fun k t' hk => ?_, fun j k t' u' hj hk hmt hmu => ?_, fun j k t' u' hj hk havid hft hfu => ?_⟩, ?_⟩
  · obtain ⟨t, ht, hw⟩ := find_before ha hk
    exact hw.fit hl ht (hs.fit k t ht)
  · obtain ⟨t, ht, hwt⟩ := find_before ha hj
    obtain ⟨u, hu, hwu⟩ := find_before ha hk
    exact merging ht hwt hu hwu hmt hmu
  · obtain ⟨t, ht, hwt⟩ := find_before ha hj
    obtain ⟨u, hu, hwu⟩ := find_before ha hk
    rw [hwt.avid, hwu.avid] at havid
    refine hs.oneOpen j k t u ht hu havid ?_ ?_
    · by_contra hf
      rw [hwt.finished hl (by simpa using hf)] at hft
      exact hf hft
    · by_contra hf
      rw [hwu.finished hl (by simpa using hf)] at hfu
      exact hf hfu
  · intro k t hk
    obtain ⟨t', hk', hw⟩ := find_after ha hk
    exact ⟨t', hk', hw.finished hl⟩

theorem Sound.step (hs : Sound tasks) (hl : Legal tasks op) (ha : answers tasks op r tasks') :
    Sound tasks' ∧ Onward tasks tasks' := by
  obtain ⟨-, mid, hrow, hgrown⟩ := ha
  obtain ⟨hs', hon⟩ := hs.wrote hl hrow
  obtain ⟨hs'', hg⟩ := hs'.grown hgrown
  exact ⟨hs'', hon.trans hg.onward⟩

end wrote

/-! ## A tick -/

/-- Only such tasks are merging. -/
def Slot (P : Int → Prop) (tasks : TaskTable) : Prop := ∀ k t, tasks.find k = some t → t.state = .merging → P k

section tick
variable {tasks tasks' : TaskTable} {P : Int → Prop} {op : Op} {r : Except Exc (Res op)} {id : Int} {s : MergeState}

theorem Slot.grown (h : Slot P tasks) (hg : Grows tasks tasks') : Slot P tasks' := by
  intro k t hk hm
  rcases hg.added k t hk with hk | hq
  · exact h k t hk hm
  · rw [hq] at hm
    cases hm

theorem Slot.step (h : Slot P tasks) (hs : Sound tasks) (hl : Legal tasks op) (ha : answers tasks op r tasks')
    (hop : ∀ id e f, op = .transition id e .merging f → P id) : Slot P tasks' := by
  obtain ⟨-, mid, hrow, hgrown⟩ := ha
  have written : Slot P mid := by
    intro k t' hk hm
    obtain ⟨t, ht, hw⟩ := find_before hrow hk
    rcases hw.merging hm with hm | ⟨f, hmove⟩
    · exact h k t ht hm
    · rw [← Table.find_key ht]
      exact hop _ _ _ hmove
  exact written.grown ((hs.wrote hl hrow).1.grown hgrown).2

/-- A step starts no merge but its own, and that out of the queue. -/
theorem starts_of_steps {i : Int} {e : MergeState} {f : Fields} (hop : Steps id s (.transition i e .merging f)) :
    i = id ∧ s = .queued := by
  rcases hop with ⟨hid, rfl, hm⟩ | hop | hop
  · refine ⟨hid, ?_⟩
    cases e <;> first | rfl | exact hm.elim
  · cases e <;> exact hop.elim
  · exact hop.elim

/-- What a step asks for is legal, a start of a merge as long as nothing else is merging. -/
theorem legal_of_steps (hs : Sound tasks) (ha : s.active = true) (hfree : s = .queued → Slot (· = id) tasks)
    (hop : Steps id s op) : Legal tasks op := by
  cases op with
  | transition i e s' f =>
    have hopen : s.finished = false := by
      cases s <;> first | rfl | cases ha
    have slot : s' = .merging → ∀ k u, tasks.find k = some u → u.state = .merging → k = i := by
      rintro rfl k u hk hm
      obtain ⟨rfl, rfl⟩ := starts_of_steps hop
      exact hfree rfl k u hk hm
    rcases hop with ⟨rfl, rfl, hm⟩ | hop | hop
    · exact ⟨hopen, fun t ht he => ⟨fun now => (hs.fit _ t ht).advanced now he hm, slot⟩⟩
    · have hlate : e = .verifying ∧ s' = .replacing ∧ f.light := by
        unfold Delicate at hop
        split at hop
        · rename_i heq
          cases heq
          exact ⟨rfl, rfl, hop.2⟩
        · rename_i heq
          cases heq
        · exact hop.elim
      obtain ⟨rfl, rfl, hf⟩ := hlate
      exact ⟨rfl, fun t ht he => ⟨fun now => (hs.fit _ t ht).carried now he rfl rfl hf, slot⟩⟩
    · cases s' with
      | failed =>
        obtain ⟨rfl, rfl, hf, hb, hsha⟩ := hop
        exact ⟨hopen, fun t ht he => ⟨fun now => (hs.fit _ t ht).failing now he ha hf hb hsha, slot⟩⟩
      | _ => exact hop.elim
  | update i f =>
    rcases hop with hop | hop | hop
    · exact hop.2.1
    · exact hop.elim
    · exact hop.elim
  | _ => trivial

/-- A step keeps the table sound and takes no slot but a free one. -/
theorem keeps_step (m : MergeService) {task : MergeTask} (ha : task.state.active = true)
    (hP : ∀ k, P k → task.state = .queued → k = task.id) (hown : task.state = .queued → P task.id) :
    Keeps answers Legal (fun s => Sound s ∧ Slot P s) (fun _ s => Sound s ∧ Slot P s) (step m task) := by
  have hlegal : ∀ s op, Steps task.id task.state op → Sound s ∧ Slot P s → Legal s op := by
    rintro s op hop ⟨hs, hslot⟩
    exact legal_of_steps hs ha (fun hq k t hk hm => hP k (hslot k t hk hm) hq) hop
  refine keeps_of_uses (steps_step m task) hlegal fun s op r s' hop hI ht => ?_
  refine ⟨(hI.1.step (hlegal s op hop hI) ht).1, hI.2.step hI.1 (hlegal s op hop hI) ht ?_⟩
  rintro id e f rfl
  obtain ⟨rfl, hq⟩ := starts_of_steps hop
  exact hown hq

/-- The slot as a tick keeps account of it. -/
def Accounted (merging : Bool) (tasks : TaskTable) : Prop :=
  Sound tasks ∧ (merging = false → Slot (fun _ => False) tasks)

theorem wp_round (m : MergeService) {merging : Bool} {task : MergeTask} (hopen : task.state.finished = false)
    (h : Accounted merging tasks) :
    wp answers Legal (round m merging task) Accounted (fun _ _ => True) tasks := by
  obtain ⟨hs, hslot⟩ := h
  unfold round
  refine wp_ite (fun _ => ⟨hs, hslot⟩) fun hfailed => ?_
  have ha : task.state.active = true := by
    cases hstate : task.state <;> simp_all [MergeState.finished, MergeState.active]
  refine wp_ite (fun hq => wp_ite (fun _ => ⟨hs, hslot⟩) fun hfree => ?_) fun hq => ?_
  · -- the slot is free, and this task takes it
    have hfree' : Slot (· = task.id) tasks := fun k t hk hm => (hslot (by simpa using hfree) k t hk hm).elim
    rw [wp_bind]
    refine wp_mono (keeps_step m ha (fun k hk _ => hk) (fun _ => rfl) tasks ⟨hs, hfree'⟩) ?_ fun _ _ _ => trivial
    exact fun _ s hI => ⟨hI.1, fun hm => (nomatch hm)⟩
  · rw [wp_bind]
    cases merging with
    | true =>
      have hany : Slot (fun _ => True) tasks := fun _ _ _ _ => trivial
      refine wp_mono (keeps_step m ha (fun _ _ h => absurd h hq) (fun h => absurd h hq) tasks ⟨hs, hany⟩) ?_
        fun _ _ _ => trivial
      exact fun _ s hI => ⟨hI.1, fun hm => (nomatch hm)⟩
    | false =>
      refine wp_mono (keeps_step m ha (fun _ h => h.elim) (fun h => absurd h hq) tasks ⟨hs, hslot rfl⟩) ?_
        fun _ _ _ => trivial
      exact fun _ s hI => ⟨hI.1, fun _ => hI.2⟩

theorem wp_tick (m : MergeService) (hs : Sound tasks) :
    wp answers Legal (Merge.tick m) (fun _ _ => True) (fun _ _ => True) tasks := by
  unfold Merge.tick
  refine wp_ite (fun _ => trivial) fun _ => (wp_bind _ _).2 ((wp_call _).2 ⟨trivial, ?_, fun _ _ _ => trivial⟩)
  rintro (found : List MergeTask) tasks' ⟨-, mid, ⟨rfl, hfound⟩, hgrown⟩
  obtain ⟨hperm, -⟩ := hfound found rfl
  obtain ⟨hs', hg⟩ := hs.grown hgrown
  have hopen : ∀ t ∈ found, t.state.finished = false := by
    intro t ht
    simpa using (List.mem_filter.1 (hperm.mem_iff.1 ht)).2
  -- what is merging is not finished, so the listing holds it
  have hslot : found.any (·.state = .merging) = false → Slot (fun _ => False) tasks' := by
    intro hnone
    refine Slot.grown (fun k t hk hm => ?_) hg
    have ht : t ∈ found := hperm.mem_iff.2 (List.mem_filter.2 ⟨Table.mem_of_find hk, by rw [hm]; rfl⟩)
    simp only [List.any_eq_false, decide_eq_true_eq] at hnone
    exact hnone t ht hm
  refine (wp_discard _).2 ?_
  refine wp_foldEach (fun ys merging s => ys ⊆ found ∧ Accounted merging s) ?_ (fun _ _ _ => trivial)
    ⟨fun _ h => h, hs', hslot⟩
  rintro task ys merging s ⟨hsub, hI⟩
  refine wp_mono (wp_round m (hopen task (hsub (by simp))) hI) (fun _ _ h => ⟨fun y hy => hsub (by simp [hy]), h⟩) ?_
  exact fun _ _ h => h

end tick

/-! ## Operator actions -/

/-- Writes no row but to cancel it. -/
def Closes : Op → Prop
  | .transition _ expected state _ => expected.finished = false ∧ state = .cancelled
  | .update .. => False
  | _ => True

section operator
variable {tasks : TaskTable} {op : Op} (m : MergeService) (id : Int)

theorem legal_of_closes (hop : Closes op) : Legal tasks op := by
  cases op with
  | transition i e s f =>
    obtain ⟨hopen, rfl⟩ := hop
    exact ⟨hopen, fun t ht he => ⟨fun now => MergeTask.Fit.bare now (by decide) (by decide) rfl, fun h => (nomatch h)⟩⟩
  | update i f => exact hop.elim
  | _ => trivial

theorem closes_of_drops {i : Int} (hop : Drops i op) : Closes op := by
  cases op with
  | transition | update => exact hop.elim
  | _ => trivial

theorem closes_cancel : Uses Closes (Merge.cancel m id) := by
  unfold Merge.cancel
  refine uses_bind (uses_ask trivial) fun found => ?_
  split
  · trivial
  rename_i task
  by_cases hc : (!task.state.cancellable) = true
  · rw [if_pos hc]
    trivial
  rw [if_neg hc]
  have hopen : task.state.finished = false := by
    cases hstate : task.state <;> simp_all [MergeState.finished, MergeState.cancellable]
  refine uses_ite trivial (uses_bind (uses_ofExcept _) fun paths => ?_)
  have rest : Uses Closes (do
      dropFiles m task paths
      cancelRow task) := by
    refine uses_bind (uses_mono uses_dropFiles fun _ => closes_of_drops) fun _ => ?_
    unfold cancelRow
    refine uses_bind (uses_ask trivial) fun time => uses_bind (uses_transition ⟨hopen, rfl⟩) fun r => ?_
    split <;> trivial
  exact uses_ite (uses_bind (uses_mono uses_discardDuplicate fun _ => closes_of_drops) fun _ => rest) rest

theorem wp_cancel (hs : Sound tasks) :
    wp answers Legal (Merge.cancel m id) (fun _ _ => True) (fun _ _ => True) tasks := by
  have hkeeps := keeps_of_uses (T := answers) (G := Legal) (I := Sound) (closes_cancel m id)
    (fun _ _ hop _ => legal_of_closes hop) fun s op r s' hop hs ht => (hs.step (legal_of_closes hop) ht).1
  exact wp_mono (hkeeps tasks hs) (fun _ _ _ => trivial) fun _ _ _ => trivial

/-- The row a retry has read stays as it is until the retry writes it. -/
theorem keeps_found {α : Type} {p : M α} {task : MergeTask} (hp : Uses (fun op => op.looks = true) p) :
    Keeps answers Legal (fun s => Sound s ∧ s.find id = some task) (fun _ s => Sound s ∧ s.find id = some task) p := by
  have hlegal : ∀ (s : TaskTable) op, op.looks = true → Legal s op := by
    intro s op hop
    cases op with
    | transition | update => cases hop
    | _ => trivial
  refine keeps_of_uses hp (fun s op hop _ => hlegal s op hop) fun s op r s' hop hI ht => ?_
  refine ⟨(hI.1.step (hlegal s op hop) ht).1, ?_⟩
  obtain ⟨-, mid, hrow, hgrown⟩ := ht
  obtain ⟨t, hk, hw⟩ := find_after hrow hI.2
  have ht : t = task := by
    cases hw with
    | kept => rfl
    | moved now hmove =>
      subst hmove
      cases hop
    | noted now hnote =>
      subst hnote
      cases hop
  subst ht
  exact ((hI.1.wrote (hlegal s op hop) hrow).1.grown hgrown).2.keeps id t hk

theorem wp_retry (hs : Sound tasks) :
    wp answers Legal (Merge.retry m id) (fun _ _ => True) (fun _ _ => True) tasks := by
  unfold Merge.retry
  refine (wp_bind _ _).2 ((wp_call _).2 ⟨trivial, ?_, fun _ _ _ => trivial⟩)
  rintro (found : Option MergeTask) tasks' ⟨-, mid, ⟨rfl, hfound⟩, hgrown⟩
  obtain ⟨hs', hg⟩ := hs.grown hgrown
  have hread := hfound found rfl
  cases found with
  | none => trivial
  | some task =>
    obtain rfl : task.id = id := Table.find_key hread.symm
    have hrow : tasks'.find task.id = some task := hg.keeps _ _ hread.symm
    refine wp_ite (fun _ => trivial) fun hfailed => ?_
    have hfailed : task.state = .failed := Decidable.not_not.1 hfailed
    have hlegal : ∀ s : TaskTable, Sound s ∧ s.find task.id = some task → Legal s (.transition task.id .failed
        (task.failedState.getD .queued).resume (retryFields (task.failedState.getD .queued).resume)) := by
      rintro s ⟨hs, hrow⟩
      refine ⟨rfl, fun t ht _ => ?_⟩
      obtain rfl : t = task := Option.some.inj (ht.symm.trans hrow)
      refine ⟨fun now => (hs.fit _ t ht).retried now hfailed, fun hm => ?_⟩
      cases h : t.failedState.getD .queued <;> rw [h] at hm <;> cases hm
    have rest : ∀ s : TaskTable, Sound s ∧ s.find task.id = some task → wp answers Legal (resumed task) (fun _ _ => True) (fun _ _ => True) s := by
      intro s hI
      refine (wp_bind _ _).2 ((wp_call _).2 ⟨hlegal s hI, fun (written : Option MergeTask) s' _ => ?_, fun _ _ _ => trivial⟩)
      cases written <;> trivial
    refine wp_ite (fun _ => (wp_bind _ _).2 ?_) fun _ => rest tasks' ⟨hs', hrow⟩
    exact wp_mono (keeps_found task.id (uses_dropJob fun _ => rfl) tasks' ⟨hs', hrow⟩) (fun _ s hI => rest s hI)
      fun _ _ _ => trivial

/-- Each operation asks for legal writes only. -/
theorem wp_action (a : Action) (hs : Sound tasks) :
    wp answers Legal (a.program m) (fun _ _ => True) (fun _ _ => True) tasks := by
  cases a with
  | tick => exact wp_tick m hs
  | cancel id => exact (wp_discard _).2 (wp_cancel m id hs)
  | retry id => exact (wp_discard _).2 (wp_retry m id hs)

end operator

end TaskTable

/-! ## Every run -/

namespace Run

/-- The table is sound, and no task finished earlier has changed its state. -/
def Kept (run : Run) : Prop := TaskTable.Sound run.tasks ∧ ∀ earlier ∈ run.past, TaskTable.Onward earlier run.tasks

theorem Kept.later {run : Run} {tasks : TaskTable} (hk : run.Kept)
    (h : TaskTable.Sound tasks ∧ TaskTable.Onward run.tasks tasks) : Kept ⟨tasks, run.tasks :: run.past⟩ := by
  refine ⟨h.1, fun earlier he => ?_⟩
  rcases List.mem_cons.1 he with rfl | he
  · exact h.2
  · exact (hk.2 earlier he).trans h.2

theorem kept_of_reach {run : Run} (hr : Reach run) : run.Kept := by
  have step : ∀ run op r run', Kept run → TaskTable.Legal run.tasks op → answers run op r run' → Kept run' := by
    rintro run op r ⟨tasks, past⟩ hk hl ⟨ht, hpast⟩
    obtain rfl : past = run.tasks :: run.past := hpast
    exact hk.later (hk.1.step hl ht)
  induction hr with
  | start =>
    have hnone : ∀ k t, (Table.empty : TaskTable).find k ≠ some t := fun k t h => by cases h
    refine ⟨⟨fun k t h => absurd h (hnone k t), fun j k t u h => absurd h (hnone j t),
      fun j k t u h => absurd h (hnone j t)⟩, fun earlier he => (nomatch he)⟩
  | enqueued _ he ih =>
    obtain ⟨hs, hg⟩ := ih.1.enqueues he
    exact ih.later ⟨hs, hg.onward⟩
  | operated m a _ hstop ih =>
    have hwp := wp_through (U := answers) Run.tasks (fun _ _ _ _ h => h.1) (TaskTable.wp_action m a ih.1)
    exact wp_stops step hwp ih hstop

end Run

/-- No two rows of which a condition holds. -/
theorem filter_length_le_one {tasks : TaskTable} {p : MergeTask → Bool}
    (h : ∀ j k t u, tasks.find j = some t → tasks.find k = some u → p t = true → p u = true → j = k) :
    (tasks.rows.filter p).length ≤ 1 := by
  have hnodup : ((tasks.rows.filter p).map MergeTask.id).Nodup := tasks.nodup.sublist (List.filter_sublist.map _)
  cases hrows : tasks.rows.filter p with
  | nil => exact Nat.zero_le 1
  | cons t rest =>
    cases rest with
    | nil => exact Nat.le_refl 1
    | cons u rest =>
      rw [hrows] at hnodup
      obtain ⟨ht, hpt⟩ := List.mem_filter.1 (hrows ▸ List.mem_cons_self : t ∈ tasks.rows.filter p)
      obtain ⟨hu, hpu⟩ := List.mem_filter.1 (hrows ▸ List.mem_cons_of_mem _ List.mem_cons_self : u ∈ tasks.rows.filter p)
      have hid := h _ _ t u (Table.find_eq_some.2 ⟨ht, rfl⟩) (Table.find_eq_some.2 ⟨hu, rfl⟩) hpt hpu
      simp [hid] at hnodup

/-- In every run one task at most is merging and one at most of each AVID is unfinished, every
row is filled in as its state needs it, and a finished task stays as it finished. -/
theorem tasks_well_formed {run : Run} (hr : Run.Reach run) :
    (run.tasks.rows.filter (·.state = .merging)).length ≤ 1 ∧
    (∀ avid, (run.tasks.rows.filter fun t => t.avid = avid && !t.state.finished).length ≤ 1) ∧
    (∀ t ∈ run.tasks.rows,
      (t.state = .queued → t.jobName = none) ∧
      (t.state = .failed → ∃ s, t.failedState = some s ∧
        (s = .queued ∨ s = .merging ∨ s = .uploading ∨ s = .verifying ∨ s = .replacing ∨ s = .archiving)) ∧
      (t.stage = .uploading ∨ t.stage = .verifying ∨ t.stage = .replacing ∨ t.stage = .archiving →
        t.mergedBytes ≠ none ∧ t.mergedSha1 ≠ none)) ∧
    ∀ earlier ∈ run.past, ∀ t ∈ earlier.rows, t.state = .done ∨ t.state = .cancelled →
      ∃ t', run.tasks.find t.id = some t' ∧ t'.state = t.state := by
  obtain ⟨hs, hpast⟩ := Run.kept_of_reach hr
  refine ⟨?_, fun avid => ?_, fun t ht => ?_, fun earlier he t ht hstate => ?_⟩
  · exact filter_length_le_one fun j k t u hj hk hpt hpu =>
      hs.oneMerging j k t u hj hk (of_decide_eq_true hpt) (of_decide_eq_true hpu)
  · refine filter_length_le_one fun j k t u hj hk hpt hpu => ?_
    simp only [Bool.and_eq_true, decide_eq_true_eq, Bool.not_eq_true'] at hpt hpu
    exact hs.oneOpen j k t u hj hk (hpt.1.trans hpu.1.symm) hpt.2 hpu.2
  · have hfit := hs.fit t.id t (Table.find_eq_some.2 ⟨ht, rfl⟩)
    refine ⟨hfit.queued, fun hf => ?_, fun hst => ?_⟩
    · obtain ⟨s, hfailed, ha⟩ := hfit.failed hf
      refine ⟨s, hfailed, ?_⟩
      cases s <;> simp_all [MergeState.active]
    · have hc : t.stage.carries = true := by
        rcases hst with h | h | h | h <;> rw [h] <;> rfl
      obtain ⟨hb, hsha⟩ := hfit.carries hc
      exact ⟨Option.isSome_iff_ne_none.1 hb, Option.isSome_iff_ne_none.1 hsha⟩
  · obtain ⟨t', hk, hsame⟩ := hpast earlier he t.id t (Table.find_eq_some.2 ⟨ht, rfl⟩)
    refine ⟨t', hk, hsame ?_⟩
    rcases hstate with h | h <;> rw [h] <;> rfl

/-! ## Two titles -/

namespace Example

def catalog : Catalog := ⟨[["vr"]], fun _ _ => none, fun _ => ".mp4"⟩

def title (avid : String) : Title :=
  ⟨avid, [["mnt", "cd2", "115", "library", "ABC", avid ++ "-cd1.mp4"]], [], some "library", some "ABC", none⟩

def older (t u : MergeTask) : Prop := t.id ≤ u.id

instance : DecidableRel older := fun t u => inferInstanceAs (Decidable (t.id ≤ u.id))

/-- The database answers at once, the rest of the world as it does for one task. -/
def serveTable (run : Run) : (op : Op) → Except Exc (Res op) × Run
  | .openTasks =>
    let found := (run.tasks.rows.filter fun t => !t.state.finished).insertionSort older
    (.ok found, ⟨run.tasks, run.tasks :: run.past⟩)
  | .getTask id => (.ok (run.tasks.find id), ⟨run.tasks, run.tasks :: run.past⟩)
  | .transition id e s f =>
    let tasks := run.tasks.modify id (fun t => t.state = e) (fun t => t.written 0 (some s) f) fun _ => rfl
    let r : Option MergeTask := if run.tasks.matched id fun t => t.state = e then tasks.find id else none
    (.ok r, ⟨tasks, run.tasks :: run.past⟩)
  | .update id f =>
    let tasks := run.tasks.modify id (fun _ => true) (fun t => t.written 0 none f) fun _ => rfl
    (.ok (tasks.find id), ⟨tasks, run.tasks :: run.past⟩)
  | op => (world op, ⟨run.tasks, run.tasks :: run.past⟩)

theorem serveTable_answers (run : Run) (op : Op) : Run.answers run op (serveTable run op).1 (serveTable run op).2 := by
  cases op with
  | openTasks =>
    refine ⟨⟨fun e he => (nomatch he), run.tasks, ⟨rfl, ?_⟩, .refl⟩, rfl⟩
    rintro found ⟨⟩
    have : Std.Total older := ⟨fun t u => Int.le_total t.id u.id⟩
    have : IsTrans MergeTask older := ⟨fun _ _ _ => Int.le_trans⟩
    exact ⟨List.perm_insertionSort older _, List.pairwise_insertionSort older _⟩
  | getTask id => exact ⟨⟨fun e he => (nomatch he), run.tasks, ⟨rfl, fun found hf => (Except.ok.inj hf).symm⟩, .refl⟩, rfl⟩
  | transition id e s f =>
    exact ⟨⟨fun e he => (nomatch he), _, .inl ⟨0, rfl, fun t ht => (Except.ok.inj ht).symm⟩, .refl⟩, rfl⟩
  | update id f =>
    exact ⟨⟨fun e he => (nomatch he), _, .inl ⟨0, rfl, fun t ht => (Except.ok.inj ht).symm⟩, .refl⟩, rfl⟩
  | _ => exact ⟨⟨fun e he => (nomatch he), run.tasks, rfl, .refl⟩, rfl⟩

def tickRun (run : Run) : Run := (Prog.exec serveTable run (Action.tick.program service)).2

theorem reach_tickRun {run : Run} (hr : Run.Reach run) : Run.Reach (tickRun run) :=
  .operated service .tick hr (exec_runs serveTable_answers _ _).stops

def row (id : Int) (avid : String) : MergeTask := .created id avid ["vr"] (title avid).targets (avid ++ ".mp4") 0

def oneTask : TaskTable := (Table.empty : TaskTable).insertNew (row 1 "ABC-123")
def twoTasks : TaskTable := oneTask.insertNew (row 2 "ABC-124")

/-- Both titles are queued, the first one through its whole call. -/
theorem reach_twoTasks : Run.Reach ⟨twoTasks, [oneTask, .empty]⟩ := by
  refine .enqueued (.enqueued .start ?_) ?_
  · refine ⟨catalog, some (title "ABC-123"), some ["vr"], ?_⟩
    exact .act (r := .ok (row 1 "ABC-123")) (.inl ⟨1, 0, rfl, fun _ h => (nomatch h), rfl, fun _ h => (Except.ok.inj h).symm⟩)
      (.here _ _)
  · refine ⟨catalog, some (title "ABC-124"), some ["vr"], ?_⟩
    refine .act (r := .ok (row 2 "ABC-124")) (.inl ⟨2, 0, rfl, fun t ht ha => ?_, rfl, fun _ h => (Except.ok.inj h).symm⟩)
      (.here _ _)
    obtain rfl : t = row 1 "ABC-123" := List.mem_singleton.1 ht
    exact absurd ha (by decide)

/-- Three ticks: the second title starts once the first is off to CloudDrive. -/
def twoTitles : Run := tickRun (tickRun (tickRun ⟨twoTasks, [oneTask, .empty]⟩))

end Example

open Example in
theorem tasks_well_formed_twoTitles : twoTitles.tasks.rows.map (·.state) = [.verifying, .merging] ∧
    (twoTitles.tasks.rows.filter (·.state = .merging)).length ≤ 1 := by
  have hreach : Run.Reach twoTitles := reach_tickRun (reach_tickRun (reach_tickRun reach_twoTasks))
  exact ⟨by decide, (tasks_well_formed hreach).1⟩

end EmbyxManager.Merge
