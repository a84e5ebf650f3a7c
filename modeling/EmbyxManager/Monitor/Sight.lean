import EmbyxManager.Monitor.OwnStep
/-!
# What a poll leaves of the attempts it finds

The join takes every live attempt whose hash is listed, the sweep those in flight whose
hash is not. A finished or archiving attempt that no listing holds any more, and one
without a hash, is in neither: no poll comes to it again. Nor is an orphaned download
concluded whose folder could not be filed: it is left finished, and unlisted.
-/

namespace EmbyxManager
open Atom Prog AcquisitionRepository Archive

/-! ## What it means to be considered -/

/-- A listing of this poll holds the hash. -/
def InListing (byHash : Listing) (r : MagnetAttemptRecord) : Prop := ∃ h, r.infoHash = some h ∧ h ∈ byHash.map (·.1)

/-- What is left of an attempt `r` in the ledger after the poll: a listed attempt is advanced; one that is not, and whose
grace was over when the poll began, is archived from its folder or concluded. -/
def Considered (t : Tracker) (start : Time) (h : List Event) (l' : Ledger) (r : MagnetAttemptRecord) : Prop :=
  (∀ hash task dir, r.infoHash = some hash → (tasksRead h).lookup hash = some (task, dir) →
    ∃ r', l'.att r.key = some r' ∧ Advanced task (fun s => sawIn s r.key h) r r') ∧
  (¬ InListing (tasksRead h) r → t.inGrace r start = false → ∃ r', l'.att r.key = some r' ∧ FiledOrLost r')

/-- Unlisted and out of its grace, it must be in flight and have a hash, and when its folder is on the mount the library
must take what is in it. -/
def Sweepable (t : Tracker) (start : Time) (h : List Event) (r : MagnetAttemptRecord) : Prop :=
  ¬ InListing (tasksRead h) r → t.inGrace r start = false →
    r.state ∈ AttemptState.inFlight ∧ r.infoHash ≠ none ∧ (sawIn .found r.key h = true → sawIn .took r.key h = true)

namespace Tracker
variable (t : Tracker)

/-! ## Leaving an attempt to its own step -/

section Others
variable {ι : Type} [DecidableEq ι] {who : ι} {k : AttemptKey} {r : MagnetAttemptRecord} {saw : Sign → Bool} {w : World ι}

/-- In another attempt's step. -/
def OtherStep (k : AttemptKey) (saw : Sign → Bool) (h : List Event) : Prop := stepOf h ≠ some k ∧ ∀ s, sawIn s k h = saw s

theorem OtherStep.step {op : Op} {a : Except Exn op.Res} {h : List Event} (hop : OfStep op) (hh : OtherStep k saw h) :
    OtherStep k saw (⟨op, a⟩ :: h) := by
  have hstep : stepOf (⟨op, a⟩ :: h) ≠ some k := by
    rw [stepOf_same hop]
    exact hh.1
  exact ⟨hstep, fun s => (sawIn_away hstep).trans (hh.2 s)⟩

theorem stays_bland {op : Op} {a : Except Exn op.Res} {w' : World ι} (hp : r.state ≠ .pending) (hs : RowStays who k r saw w)
    (h : alone who w op a w') (hop : Bland op) : RowStays who k r saw w' :=
  ⟨att_aside hp hs.row h hop.1, fun s => by rw [history_alone h, sawIn_blank (hop.2 s a), hs.saw]⟩

theorem bland_checkCancelled (c : Point) : Bland (.checkCancelled c) := ⟨rfl, fun s _ => by cases s <;> rfl⟩

theorem stays_uses (hp : r.state ≠ .pending) {α : Type} {p : M α} (hu : Uses Bland p) :
    p.Keeps (alone who) (fun _ _ => True) (RowStays who k r saw) fun _ _ => True :=
  keeps_mono (keeps_of_uses hu (fun _ _ _ _ => trivial) fun _ _ _ _ hop hs h => stays_bland hp hs h hop) fun _ _ _ => trivial

theorem stays_step {c : Point} {p : M Unit} (hp : r.state ≠ .pending)
    (hc : ∀ (a : Except Exn Unit) h, stepOf (⟨.checkCancelled c, a⟩ :: h) ≠ some k) (hspares : Spares OfStep who k r p) :
    (do checkCancelled c; p).Keeps (alone who) (fun _ _ => True) (RowStays who k r saw) fun _ _ => True := by
  intro w hs
  rw [wp_bind, wp_call]
  refine ⟨trivial, fun a w₁ h₁ => ?_, fun _ _ _ => trivial⟩
  have hs₁ := stays_bland hp hs h₁ (bland_checkCancelled c)
  have hh₁ : OtherStep k saw (w₁.history who) := ⟨by rw [history_alone h₁]; exact hc _ _, hs₁.saw⟩
  refine wp_mono (wp_spared hspares (fun _ _ _ hop hh => hh.step hop) hs₁.row hh₁) ?_ fun _ _ _ => trivial
  exact fun _ w₂ ⟨hr₂, hh₂⟩ => ⟨hr₂, hh₂.2⟩

theorem stays_consider (hp : r.state ≠ .pending) (byHash : Listing) {j : InfoHash × MagnetAttemptRecord} (hne : j.2.key ≠ k) :
    (t.consider byHash j).Keeps (alone who) (fun _ _ => True) (RowStays who k r saw) fun _ _ => True := by
  unfold consider
  split
  · exact stays_step hp (fun _ _ hk => hne (Option.some.inj hk)) (t.spares_advance hp hne _ _)
  · exact keeps_raise fun _ _ => trivial

theorem stays_sweepOne (hp : r.state ≠ .pending) {byHash : Listing} {at_ : Time} {attempt : MagnetAttemptRecord}
    (hskip : attempt.key ≠ k ∨ listed byHash attempt = true) :
    (t.sweepOne byHash at_ attempt).Keeps (alone who) (fun _ _ => True) (RowStays who k r saw) fun _ _ => True := by
  unfold sweepOne
  by_cases hlist : listed byHash attempt = true
  · rw [if_pos hlist]
    exact keeps_bind (stays_uses hp (uses_ok (bland_checkCancelled _))) fun _ => keeps_pure _
  · have hne : attempt.key ≠ k := hskip.resolve_right hlist
    refine stays_step hp (fun _ _ hk => hne (Option.some.inj hk)) ?_
    rw [if_neg hlist]
    split
    · exact spares_pure _
    · refine spares_bind (spares_uses hp (uses_ok ⟨(Option.some_ne_none k).symm, rfl⟩)) fun located => ?_
      split
      · exact t.spares_archiveOrphaned hp hne _ _
      · exact spares_mono (spares_discard (t.spares_giveUp hp hne _ _)) fun _ => And.left

/-- The sweep does not come to an attempt that is not in flight, is listed, or has no hash. -/
theorem stays_sweepLost (hp : r.state ≠ .pending) {byHash : Listing}
    (hskip : r.state ∉ AttemptState.inFlight ∨ listed byHash r = true) :
    (t.sweepLost byHash).Keeps (alone who) (fun _ _ => True) (RowStays who k r saw) fun _ _ => True := by
  unfold sweepLost
  refine keeps_bind (stays_uses hp (uses_ok ⟨rfl, fun s _ => by cases s <;> rfl⟩)) fun at_ w hs => ?_
  rw [wp_bind, wp_call]
  refine ⟨trivial, fun rows w₁ h₁ => ?_, fun _ _ _ => trivial⟩
  have hs₁ := stays_bland hp hs h₁ ⟨rfl, fun s _ => by cases s <;> rfl⟩
  obtain ⟨clock, l', -, -, ha, rfl⟩ := h₁
  simp only [Answers, Sql.Gives, Sql.run, Except.ok.injEq, Prod.mk.injEq] at ha
  refine keeps_forEach (fun attempt hmem => t.stays_sweepOne hp ?_) _ hs₁
  by_cases hkey : attempt.key = k
  · rw [← ha.1] at hmem
    obtain ⟨hatt, hf⟩ := Ledger.mem_inFlightAttempts.1 hmem
    rw [hkey, hs.row] at hatt
    cases hatt
    exact .inr (hskip.resolve_left fun hn => hn hf)
  · exact .inl hkey

variable {P : (Sign → Bool) → MagnetAttemptRecord → Prop}

/-- What is left of an attempt is left alone. -/
theorem left_keeps {p : M Unit} (h : ∀ r' saw, r'.state ≠ .pending → r'.infoHash = r.infoHash →
      p.Keeps (alone who) (fun _ _ => True) (RowStays who k r' saw) fun _ _ => True) :
    p.Keeps (alone who) (fun _ _ => True) (LeftAs P who k r) fun _ _ => True := by
  rintro w ⟨r', saw, hs, hp, hhash, hP⟩
  exact wp_mono (h r' saw hp hhash w hs) (fun _ _ hs' => ⟨r', saw, hs', hp, hhash, hP⟩) fun _ _ _ => trivial

end Others

/-! ## The listings and the join -/

section Poll
variable {ι : Type} [DecidableEq ι] {who : ι} {r : MagnetAttemptRecord} {w : World ι}

/-- The poll has seen these tasks and come to no attempt yet. -/
structure ListingsRead (who : ι) (w : World ι) (byHash : Listing) (w' : World ι) : Prop where
  ledger : w'.ledger = w.ledger
  later : w.clock ≤ w'.clock
  tasks : tasksRead (w'.history who) = byHash
  unseen : ∀ s k, sawIn s k (w'.history who) = false

theorem wp_listTasks_alone (hnew : w.history who = []) :
    t.listTasks.wp (alone who) (fun _ _ => True) (ListingsRead who w) (fun _ _ => True) w := by
  unfold listTasks
  refine wp_foldEach (fun _ => ListingsRead who w) ?_ (fun _ _ h => h)
    ⟨rfl, le_refl _, by rw [hnew]; rfl, fun _ _ => by rw [hnew]; rfl⟩
  intro taskDir _ byHash w₁ hs
  have moved : ∀ {op : Op} {a : op.Res} {w₁ w₂ : World ι}, Bland op → w₁.ledger = w.ledger → w.clock ≤ w₁.clock →
      (∀ s k, sawIn s k (w₁.history who) = false) → alone who w₁ op (.ok a) w₂ →
      (∀ {t l l'}, Answers t l op (.ok a) l' → l' = l) → ListingsRead who w (tasksRead (w₂.history who)) w₂ := by
    intro op a w₁ w₂ hop hledger hlater hunseen h hans
    have hh := history_alone h
    obtain ⟨t, l', hle, -, ha, rfl⟩ := h
    refine ⟨(hans ha).trans hledger, hlater.trans hle, rfl, fun s k => ?_⟩
    rw [hh, sawIn_blank (hop.2 s _), hunseen]
  rw [wp_bind, wp_call]
  refine ⟨trivial, fun _ w₂ h => ?_, fun _ _ _ => trivial⟩
  have hs₂ := moved (bland_checkCancelled _) hs.ledger hs.later hs.unseen h fun ha => ha.2
  have htasks : tasksRead (w₂.history who) = byHash := by
    rw [history_alone h]
    exact hs.tasks
  rw [wp_bind, wp_call]
  refine ⟨trivial, fun tasks w₃ h => ?_, fun _ _ _ => trivial⟩
  have hs₃ := moved ⟨rfl, fun s _ => by cases s <;> rfl⟩ hs₂.ledger hs₂.later hs₂.unseen h fun ha => ha
  have hread : tasksRead (w₃.history who) = mergeTasks byHash taskDir tasks := by
    rw [history_alone h, ← htasks]
    rfl
  rw [hread] at hs₃
  exact hs₃

/-- The join holds the live attempts whose hash was listed, each once. -/
structure Joined (w : World ι) (byHash : Listing) (joined : List (InfoHash × MagnetAttemptRecord)) : Prop where
  found : ∀ k r, w.ledger.att k = some r → r.Live → InListing byHash r → ∃ h, (h, r) ∈ joined
  listed : ∀ j ∈ joined, w.ledger.att j.2.key = some j.2 ∧ j.2.infoHash = some j.1 ∧ j.1 ∈ byHash.map (·.1)
  keys : (joined.map (·.2.key)).Nodup

/-- The attempts of the join, each under its hash. -/
theorem joined_sublist (rows : List MagnetAttemptRecord) :
    ((rows.filterMap fun r => r.infoHash.map (·, r)).map (·.2)).Sublist rows := by
  induction rows with
  | nil => exact List.Sublist.slnil
  | cons r rows ih =>
    rw [List.filterMap_cons]
    cases r.infoHash with
    | none => exact ih.cons r
    | some h => exact ih.cons_cons r

theorem wp_join {byHash : Listing} {w₁ : World ι} (hne : ∀ h ∈ byHash.map (·.1), h ≠ "") (hs : ListingsRead who w byHash w₁) :
    (attemptsByInfoHash (byHash.map (·.1))).wp (alone who) (fun _ _ => True)
      (fun joined w₂ => Joined w byHash joined ∧ ListingsRead who w byHash w₂) (fun _ _ => True) w₁ := by
  unfold attemptsByInfoHash
  refine wp_ite (fun hnil => ?_) fun _ => ?_
  · refine ⟨⟨?_, by simp, List.nodup_nil⟩, hs⟩
    rintro k r - - ⟨h, -, hm⟩
    have : h ∈ queried (byHash.map (·.1)) := mem_queried.2 ⟨hm, hne h hm⟩
    rw [hnil] at this
    cases this
  · rw [wp_bind, wp_call]
    refine ⟨trivial, fun rows w₂ h => ?_, fun _ _ _ => trivial⟩
    have hh := history_alone h
    obtain ⟨t, l', hle, -, ⟨hperm, rfl⟩, rfl⟩ := h
    refine ⟨⟨?_, ?_, ?_⟩, hs.ledger, hs.later.trans hle, ?_, fun s k => ?_⟩
    · rintro k r hr hl ⟨h, hh, hm⟩
      have hmem : r ∈ rows := by
        rw [hperm.mem_iff, Ledger.mem_attemptsByInfoHash, hs.ledger]
        exact ⟨by rw [Ledger.att_key hr]; exact hr, hl, h, hh, mem_queried.2 ⟨hm, hne h hm⟩⟩
      exact ⟨h, List.mem_filterMap.2 ⟨r, hmem, by rw [hh]; rfl⟩⟩
    · rintro j hj
      obtain ⟨row, hrow, hj⟩ := List.mem_filterMap.1 hj
      obtain ⟨h, hh, rfl⟩ := Option.map_eq_some_iff.1 hj
      rw [hperm.mem_iff, Ledger.mem_attemptsByInfoHash, hs.ledger] at hrow
      obtain ⟨hatt, -, h', hh', hm⟩ := hrow
      cases hh.symm.trans hh'
      exact ⟨hatt, hh, (mem_queried.1 hm).1⟩
    · have hnodup : (rows.map (·.key)).Nodup := by
        rw [(hperm.map _).nodup_iff]
        exact w₁.ledger.attempts.nodup.sublist (List.filter_sublist.map _)
      simpa only [List.map_map, Function.comp_def] using hnodup.sublist ((joined_sublist rows).map (·.key))
    · rw [hh]
      exact hs.tasks
    · rw [hh, sawIn_blank (by cases s <;> rfl), hs.unseen]

theorem tasksRead_ne_empty (h : List Event) : ∀ x ∈ (tasksRead h).map (·.1), x ≠ "" := by
  induction h with
  | nil => simp [tasksRead]
  | cons e h ih =>
    unfold tasksRead
    split
    · rename_i heq
      cases heq
    · rename_i heq
      cases heq
      exact mergeTasks_ne_empty _ _ ih
    · rename_i heq
      cases heq
      exact ih

/-! ## The steps taken -/

section Steps
variable {byHash : Listing} {joined : List (InfoHash × MagnetAttemptRecord)}

/-- What the poll does after the join leaves alone what is left of a listed attempt. -/
theorem wp_steps_listed {x : InfoHash} (hp : r.state ≠ .pending) (hhash : r.infoHash = some x) (hx : x ∈ byHash.map (·.1))
    (hkeys : (joined.map (·.2.key)).Nodup) (hj : (x, r) ∈ joined) (hu : Unshown who r.key r w) :
    (t.steps byHash joined).wp (alone who) (fun _ _ => True)
      (fun _ => LeftAs (fun saw r' => ∀ task taskDir, byHash.lookup x = some (task, taskDir) → Advanced task saw r r') who r.key r)
      (fun _ _ => True) w := by
  have hloop : (Prog.forEach joined (t.consider byHash)).wp (alone who) (fun _ _ => True)
      (fun _ => LeftAs (fun saw r' => ∀ task taskDir, byHash.lookup x = some (task, taskDir) → Advanced task saw r r') who r.key r)
      (fun _ _ => True) w := by
    refine wp_foldEach_one (P := fun _ => Unshown who r.key r) (fun _ j w hne hu => ?_) (fun _ w hu => ?_) (fun _ j w hne hl => ?_)
      (filter_of_nodup hkeys hj rfl) hu
    · exact t.stays_consider hp byHash hne w hu
    · exact t.wp_consider_own hp hu
    · exact left_keeps (fun r' saw hp' _ => t.stays_consider hp' byHash hne) w hl
  rw [wp_bind]
  refine wp_mono hloop (fun _ w₁ hl₁ => ?_) fun _ _ h => h
  rw [wp_bind]
  refine wp_mono (left_keeps (fun r' saw hp' hhash' => t.stays_sweepLost hp' (.inr ?_)) w₁ hl₁) (fun _ w₂ hl₂ => ?_) fun _ _ h => h
  · rw [listed, hhash', hhash]
    simpa using hx
  · exact left_keeps (fun r' saw hp' _ => stays_uses hp' (bland_clearArchived byHash)) w₂ hl₂

theorem wp_sweepLost_own {start : Time} (hf : r.state ∈ AttemptState.inFlight) (hp : r.state ≠ .pending)
    (hu : Unshown who r.key r w) (hlisted : listed byHash r = false) (hgrace : t.inGrace r start = false) (hstart : start ≤ w.clock) :
    (t.sweepLost byHash).wp (alone who) (fun _ _ => True)
      (fun _ => LeftAs (fun saw r' => FiledOrLost r' ↔ (saw .found = true → saw .took = true)) who r.key r) (fun _ _ => True) w := by
  unfold sweepLost
  rw [wp_bind, wp_call]
  refine ⟨trivial, fun at_ w₁ h₁ => ?_, fun _ _ _ => trivial⟩
  have hu₁ := stays_bland hp hu h₁ ⟨rfl, fun s _ => by cases s <;> rfl⟩
  obtain ⟨clock, l', hle, -, ⟨hat, rfl⟩, rfl⟩ := h₁
  obtain rfl : at_ = clock := Except.ok.inj hat
  have hgrace' : t.inGrace r at_ = false := by
    by_contra hg
    rw [t.inGrace_earlier ((Bool.not_eq_false _).mp hg) (hstart.trans hle)] at hgrace
    cases hgrace
  rw [wp_bind, wp_call]
  refine ⟨trivial, fun rows w₂ h₂ => ?_, fun _ _ _ => trivial⟩
  have hu₂ := stays_bland hp hu₁ h₂ ⟨rfl, fun s _ => by cases s <;> rfl⟩
  have hrows : rows = w.ledger.inFlightAttempts := by
    obtain ⟨clock, l', -, -, ha, rfl⟩ := h₂
    simp only [Answers, Sql.Gives, Sql.run, Except.ok.injEq, Prod.mk.injEq] at ha
    exact ha.1.symm
  have hmem : r ∈ rows := hrows ▸ Ledger.mem_inFlightAttempts.2 ⟨hu.row, hf⟩
  have hkeys : (rows.map (·.key)).Nodup := by
    rw [hrows, Ledger.inFlightAttempts, ((List.perm_insertionSort _ _).map _).nodup_iff]
    exact w.ledger.attempts.nodup.sublist (List.filter_sublist.map _)
  refine wp_foldEach_one (P := fun _ => Unshown who r.key r) (fun _ attempt w hne hu => ?_) (fun _ w hu => ?_)
    (fun _ attempt w hne hl => ?_) (filter_of_nodup hkeys hmem rfl) hu₂
  · exact t.stays_sweepOne hp (.inl hne) w hu
  · exact t.wp_sweepOne_own hp hu hlisted hgrace'
  · exact left_keeps (fun r' saw hp' _ => t.stays_sweepOne hp' (.inl hne)) w hl

/-- An attempt the join does not hold is first come to by the sweep. -/
theorem stays_joined (hp : r.state ≠ .pending) (hothers : ∀ j ∈ joined, j.2.key ≠ r.key) :
    (Prog.forEach joined (t.consider byHash)).Keeps (alone who) (fun _ _ => True) (Unshown who r.key r) fun _ _ => True :=
  keeps_forEach fun j hj => t.stays_consider hp byHash (hothers j hj)

theorem wp_steps_unlisted {start : Time} (hp : r.state ≠ .pending) (hothers : ∀ j ∈ joined, j.2.key ≠ r.key)
    (hf : r.state ∈ AttemptState.inFlight) (hu : Unshown who r.key r w) (hlisted : listed byHash r = false)
    (hgrace : t.inGrace r start = false) (hstart : start ≤ w.clock) :
    (t.steps byHash joined).wp (alone who) (fun _ _ => True)
      (fun _ => LeftAs (fun saw r' => FiledOrLost r' ↔ (saw .found = true → saw .took = true)) who r.key r) (fun _ _ => True) w := by
  have hfirst : Uses (fun op => op.lists = false) (Prog.forEach joined (t.consider byHash)) :=
    uses_forEach fun j _ => uses_mono (t.uses_consider byHash j) fun _ => lists_of_busy
  rw [wp_bind]
  refine wp_mono (wp_and (wp_follows who hfirst w) (t.stays_joined hp hothers w hu)) (fun _ w₁ ⟨hfol, hu₁⟩ => ?_) fun _ _ _ => trivial
  rw [wp_bind]
  refine wp_mono (t.wp_sweepLost_own hf hp hu₁ hlisted hgrace (hstart.trans hfol.later)) (fun _ w₂ hl₂ => ?_) fun _ _ h => h
  exact left_keeps (fun r' saw hp' _ => stays_uses hp' (bland_clearArchived byHash)) w₂ hl₂

/-- Nobody comes to it at all. -/
theorem stays_steps (hp : r.state ≠ .pending) (hothers : ∀ j ∈ joined, j.2.key ≠ r.key)
    (hskip : r.state ∉ AttemptState.inFlight ∨ r.infoHash = none) :
    (t.steps byHash joined).Keeps (alone who) (fun _ _ => True) (Unshown who r.key r) fun _ _ => True := by
  refine keeps_bind (t.stays_joined hp hothers) fun _ => keeps_bind (t.stays_sweepLost hp ?_) fun _ =>
    stays_uses hp (bland_clearArchived byHash)
  exact hskip.imp_right fun hn => by simp [listed, hn]

end Steps

/-! ## The whole poll -/

theorem lookup_inListing {byHash : Listing} {x : InfoHash} {entry : OfflineTask × String} (h : byHash.lookup x = some entry) :
    x ∈ byHash.map (·.1) := by
  by_contra hn
  rw [List.lookup_eq_none_iff.2 fun e he => by simpa using fun hx => hn (List.mem_map.2 ⟨e, he, hx.symm⟩)] at h
  cases h

theorem wp_poll_considers (hdirs : t.taskDirPaths ≠ []) (hnew : w.history who = []) (hl : r.Live)
    (hr : w.ledger.att r.key = some r) :
    t.poll.wp (alone who) (fun _ _ => True)
      (fun _ w' => Considered t w.clock (w'.history who) w'.ledger r ↔ Sweepable t w.clock (w'.history who) r) (fun _ _ => True) w := by
  have hp : r.state ≠ .pending := by
    rintro hs
    simp [MagnetAttemptRecord.Live, hs, AttemptState.live] at hl
  unfold poll
  rw [if_neg hdirs, wp_bind]
  refine wp_mono (t.wp_listTasks_alone hnew) (fun byHash w₁ hs => ?_) fun _ _ h => h
  have hne : ∀ x ∈ byHash.map (·.1), x ≠ "" := hs.tasks ▸ tasksRead_ne_empty _
  rw [wp_bind]
  refine wp_mono (wp_join hne hs) ?_ fun _ _ h => h
  rintro joined w₂ ⟨hjoin, hs⟩
  have hfollow := wp_follows who (t.lists_steps byHash joined) w₂
  have hu : Unshown who r.key r w₂ := ⟨hs.ledger ▸ hr, fun s => hs.unseen s _⟩
  have hsame : ∀ {w' : World ι}, Follows who w₂ w' → tasksRead (w'.history who) = byHash := fun hf => hf.listed.trans hs.tasks
  by_cases hin : InListing byHash r
  · -- the join has it
    obtain ⟨x, hj⟩ := hjoin.found _ r hr hl hin
    obtain ⟨-, hhash, hx⟩ := hjoin.listed _ hj
    refine wp_mono (wp_and hfollow (t.wp_steps_listed hp hhash hx hjoin.keys hj hu)) ?_ fun _ _ _ => trivial
    rintro _ w' ⟨hf, r', saw, hstays, -, -, hadv⟩
    have htasks := hsame hf
    refine iff_of_true ⟨fun hash task taskDir hhash' hlook => ⟨r', hstays.row, ?_⟩, fun hout => ?_⟩ fun hout => ?_
    · cases hhash.symm.trans hhash'
      rw [htasks] at hlook
      rw [show (fun s => sawIn s r.key (w'.history who)) = saw from funext hstays.saw]
      exact hadv task taskDir hlook
    · exact absurd (htasks ▸ hin) hout
    · exact absurd (htasks ▸ hin) hout
  have hothers : ∀ j ∈ joined, j.2.key ≠ r.key := by
    rintro j hj hkey
    obtain ⟨hatt, hhash, hx⟩ := hjoin.listed j hj
    rw [hkey, hr] at hatt
    cases hatt
    exact hin ⟨_, hhash, hx⟩
  have hnone : ∀ {w' : World ι}, Follows who w₂ w' → ∀ hash task taskDir, r.infoHash = some hash →
      (tasksRead (w'.history who)).lookup hash = some (task, taskDir) →
      ∃ r', w'.ledger.att r.key = some r' ∧ Advanced task (fun s => sawIn s r.key (w'.history who)) r r' := by
    intro w' hf hash task taskDir hhash hlook
    rw [hsame hf] at hlook
    exact absurd ⟨hash, hhash, lookup_inListing hlook⟩ hin
  cases hgrace : t.inGrace r w.clock with
  | true =>
    refine wp_mono hfollow (fun _ w' hf => ?_) fun _ _ _ => trivial
    exact iff_of_true ⟨hnone hf, fun _ hg => by rw [hgrace] at hg; cases hg⟩ fun _ hg => by rw [hgrace] at hg; cases hg
  | false =>
    by_cases hsweep : r.state ∈ AttemptState.inFlight ∧ r.infoHash ≠ none
    · -- the sweep comes to it
      have hlisted : listed byHash r = false := by
        obtain ⟨x, hx⟩ := Option.ne_none_iff_exists'.1 hsweep.2
        simp only [listed, hx, Option.all_some, decide_eq_false_iff_not]
        exact fun hm => hin ⟨x, hx, hm⟩
      refine wp_mono (wp_and hfollow (t.wp_steps_unlisted hp hothers hsweep.1 hu hlisted hgrace hs.later)) ?_ fun _ _ _ => trivial
      rintro _ w' ⟨hf, r', saw, hstays, -, -, hiff⟩
      have hout : ¬ InListing (tasksRead (w'.history who)) r := by rw [hsame hf]; exact hin
      have hsaw : (sawIn .found r.key (w'.history who) = true → sawIn .took r.key (w'.history who) = true) ↔ FiledOrLost r' := by
        rw [hstays.saw, hstays.saw]
        exact hiff.symm
      constructor
      · intro hc _ _
        obtain ⟨r'', hr'', hset⟩ := hc.2 hout hgrace
        cases hstays.row.symm.trans hr''
        exact ⟨hsweep.1, hsweep.2, hsaw.2 hset⟩
      · intro hs'
        exact ⟨hnone hf, fun _ _ => ⟨r', hstays.row, hsaw.1 (hs' hout hgrace).2.2⟩⟩
    · -- nobody does
      have hskip : r.state ∉ AttemptState.inFlight ∨ r.infoHash = none := by
        by_contra h
        exact hsweep ⟨Classical.not_not.1 fun hn => h (.inl hn), fun hn => h (.inr hn)⟩
      refine wp_mono (wp_and hfollow (t.stays_steps hp hothers hskip w₂ hu)) ?_ fun _ _ _ => trivial
      rintro _ w' ⟨hf, hu'⟩
      have hout : ¬ InListing (tasksRead (w'.history who)) r := by rw [hsame hf]; exact hin
      refine iff_of_false (fun hc => ?_) fun hs' => hsweep ⟨(hs' hout hgrace).1, (hs' hout hgrace).2.1⟩
      obtain ⟨r', hr', hset⟩ := hc.2 hout hgrace
      cases hu'.row.symm.trans hr'
      rcases hset with hset | hset <;> simp [MagnetAttemptRecord.Live, hset, AttemptState.live] at hl

end Poll

end Tracker

/-- A poll that runs to its end advances or concludes every live attempt of a downloading acquisition, exactly when each
of them that is unlisted and out of its grace is in flight, has a hash, and is filed if its folder is found. -/
theorem all_considered_iff {ι : Type} [DecidableEq ι] (t : Tracker) (hdirs : t.taskDirPaths ≠ []) (l : Ledger) (start : Time)
    (who : ι) (w' : World ι) (hrun : t.poll.Runs (World.Step (fun _ _ => True) who) ⟨l, start, []⟩ (.ok ()) w') :
    (∀ avid row, l.acq avid = some row → row.state = .downloading → ∀ no r, l.att (avid, no) = some r → r.Live →
      Considered t start (w'.history who) w'.ledger r) ↔
    ∀ avid row, l.acq avid = some row → row.state = .downloading → ∀ no r, l.att (avid, no) = some r → r.Live →
      Sweepable t start (w'.history who) r := by
  have hiff : ∀ k r, l.att k = some r → r.Live →
      (Considered t start (w'.history who) w'.ledger r ↔ Sweepable t start (w'.history who) r) := by
    intro k r hr hl
    obtain rfl := Ledger.att_key hr
    have hnew : (⟨l, start, []⟩ : World ι).history who = [] := rfl
    have hpoll := t.wp_poll_considers hdirs hnew hl hr
    exact (wp_runs hpoll hrun).1 () rfl
  constructor
  · intro h avid row hrow hstate no r hr hl
    exact (hiff _ r hr hl).1 (h avid row hrow hstate no r hr hl)
  · intro h avid row hrow hstate no r hr hl
    exact (hiff _ r hr hl).2 (h avid row hrow hstate no r hr hl)

/-! ## A finished download that is cleared at CloudDrive -/

namespace SightExample

/-- The task is finished, and the mount does not show its folder yet. -/
def finishedUnseen : World.Outside
  | .listOfflineFiles _ => .ok [⟨"ABC-123", "magnet:AA", .finished, 100⟩]
  | .listDirectory _ => .ok []
  | .locate .. => .ok none
  | _ => .error ⟨.failure "unreachable", trivial⟩

/-- The submission of a magnet, and the polls that follow it, each from where the last left the ledger. -/
def submitted : Except Exn IntakeOutcome × World Unit :=
  World.play () (1, emptyListing) ⟨.empty, 0, []⟩ (Intake.enqueue plainIntake "ABC-123" "manual" "/inbox")

def released : Except Exn Unit × World Unit :=
  World.play () (1, finishedUnseen) ⟨submitted.2.ledger, submitted.2.clock, []⟩ oneDirTracker.poll

/-- So long a pause that every grace is over. -/
def late (w : World Unit) : World Unit := ⟨w.ledger, w.clock + seconds 300, []⟩

def cleared : Except Exn Unit × World Unit := World.play () (1, emptyListing) (late released.2) oneDirTracker.poll

/-- Three submissions: of the first only its folder is left, of the second nothing, and the third is listed as finished. -/
def threeSubmitted : Ledger :=
  Ledger.empty.after (submittedAt "ABC-123" "AA" 0 ++ submittedAt "DEF-456" "BB" 0 ++ submittedAt "GHI-789" "CC" 0)

def filingTracker : Tracker :=
  { oneDirTracker with
    archiver := ⟨fun n => if n = "ABC-123.mp4" then "ABC-123" else if n = "GHI-789.mp4" then "GHI-789" else "", id, fun _ _ => none⟩ }

def onlyThird : World.Outside
  | .listOfflineFiles _ => .ok [⟨"GHI-789", "CC", .finished, 100⟩]
  | .listDirectory _ => .ok []
  | .locate name _ => .ok (some (⟨"/src/" ++ name, name⟩, ⟨"/src", "sorted", false⟩))
  | .findFolderFor avid => .ok (if avid = "ABC-123" then some (⟨"/src/ABC-123", avid⟩, ⟨"/src", "sorted", false⟩) else none)
  | .isDir _ => .ok true
  | .largeVideos folder =>
    .ok (if folder = "/src/ABC-123" then [⟨"/src/ABC-123/ABC-123.mp4", "ABC-123.mp4", 1⟩]
      else [⟨"/src/GHI-789/GHI-789.mp4", "GHI-789.mp4", 1⟩])
  | .moveIntoLibrary avid .. => .ok ["sorted/" ++ avid]
  | .discard _ => .ok ()
  | .removeOfflineFiles .. => .ok ()
  | _ => .error ⟨.failure "unreachable", trivial⟩

def swept : Except Exn Unit × World Unit :=
  World.play () (1, onlyThird) ⟨threeSubmitted, seconds 300, []⟩ filingTracker.poll

def stateOf (w : World Unit) (avid : Avid) : Option AttemptState := (w.ledger.att (avid, 1)).map (·.state)

/-- Every attempt is in its grace, or one the sweep goes through, and the library took what was found of it. -/
def sweepable (t : Tracker) (start : Time) (l : Ledger) (h : List Event) : Bool :=
  l.attempts.rows.all fun r => t.inGrace r start || (r.state ∈ AttemptState.inFlight && r.infoHash.isSome &&
    (!sawIn .found r.key h || sawIn .took r.key h))

theorem sweepable_of {t : Tracker} {start : Time} {l : Ledger} {h : List Event} (hs : sweepable t start l h = true)
    {k : AttemptKey} {r : MagnetAttemptRecord} (hr : l.att k = some r) : Sweepable t start h r := by
  intro _ hgrace
  have := List.all_eq_true.1 hs r (Ledger.mem_of_att hr)
  simp only [hgrace, Bool.false_or, Bool.and_eq_true, Bool.or_eq_true, Bool.not_eq_true', decide_eq_true_eq] at this
  obtain ⟨⟨hf, hhash⟩, htook⟩ := this
  refine ⟨hf, Option.isSome_iff_ne_none.1 hhash, fun hfound => htook.resolve_left fun hn => ?_⟩
  rw [hn] at hfound
  cases hfound

end SightExample

open SightExample in
/-- A listed download is filed, one that is no longer listed is filed from its folder, and one that is gone is lost. -/
theorem all_considered_swept :
    (stateOf swept.2 "ABC-123", stateOf swept.2 "DEF-456", stateOf swept.2 "GHI-789") =
        (some .archived, some .lost, some .archived) ∧
      ∀ avid row, threeSubmitted.acq avid = some row → row.state = .downloading → ∀ no r,
        threeSubmitted.att (avid, no) = some r → r.Live →
          Considered filingTracker (seconds 300) (swept.2.history ()) swept.2.ledger r := by
  refine ⟨by decide, ?_⟩
  have hrun : filingTracker.poll.Runs (World.Step (fun _ _ => True) ()) ⟨threeSubmitted, seconds 300, []⟩ (.ok ()) swept.2 :=
    World.play_returns (by decide)
  refine (all_considered_iff filingTracker (by decide) _ _ () _ hrun).2 fun avid row _ _ no r hr _ => ?_
  exact sweepable_of (by decide) hr

open SightExample in
/-- The download finishes, its folder is not on the mount yet, and its record is cleared at CloudDrive: the poll that
comes then leaves it as it was. -/
theorem finished_passed_over :
    ∃ w₁ w₂ w₃ : World Unit,
      (Intake.enqueue plainIntake "ABC-123" "manual" "/inbox").Runs (World.Step (fun _ _ => True) ()) ⟨.empty, 0, []⟩ (.ok .submitted) w₁ ∧
      oneDirTracker.poll.Runs (World.Step (fun _ _ => True) ()) ⟨w₁.ledger, w₁.clock, []⟩ (.ok ()) w₂ ∧
      oneDirTracker.poll.Runs (World.Step (fun _ _ => True) ()) (late w₂) (.ok ()) w₃ ∧
      ¬ ∀ avid row, w₂.ledger.acq avid = some row → row.state = .downloading → ∀ no r, w₂.ledger.att (avid, no) = some r →
        r.Live → Considered oneDirTracker (late w₂).clock (w₃.history ()) w₃.ledger r := by
  refine ⟨submitted.2, released.2, cleared.2, World.play_returns (by decide), World.play_returns (by decide),
    World.play_returns (by decide), fun hall => ?_⟩
  have hstate : (released.2.ledger.acq "ABC-123").map (·.state) = some .downloading := by decide
  have hatt : (released.2.ledger.att ("ABC-123", 1)).map (fun r => (r.key, r.state, oneDirTracker.inGrace r (late released.2).clock)) =
      some (("ABC-123", 1), .finished, false) := by decide
  obtain ⟨row, hrow, hstate⟩ := Option.map_eq_some_iff.1 hstate
  obtain ⟨r, hr, hfin⟩ := Option.map_eq_some_iff.1 hatt
  simp only [Prod.mk.injEq] at hfin
  obtain ⟨hkey, hfin, hgrace⟩ := hfin
  have hnone : tasksRead (cleared.2.history ()) = [] := by decide
  have hleft : stateOf cleared.2 "ABC-123" = some .finished := by decide
  have hc := hall "ABC-123" row hrow hstate 1 r hr (by simp [MagnetAttemptRecord.Live, hfin, AttemptState.live])
  obtain ⟨r', hr', hset⟩ := hc.2 (by rw [hnone]; rintro ⟨x, -, hm⟩; cases hm) hgrace
  rw [hkey] at hr'
  rw [stateOf, hr', Option.map_some, Option.some.injEq] at hleft
  rcases hset with hset | hset <;> simp [hleft] at hset

end EmbyxManager
