import EmbyxManager.Merge.Auto
import EmbyxManager.Merge.Numbering
import EmbyxManager.Merge.WellFormed
/-!
# Each title once, one at a time

The automatic merger takes turns, action by action, with the ticks, cancels and retries of the
merge service and with titles enqueued by hand. Whatever turns they take, a title that has ever
had a task when a round begins is not queued by that round, and no title is queued automatically
twice (`Reached.queued_once`). While nobody enqueues or retries by hand, one title at most is under
way (`Reached.one_under_way`).
-/

namespace EmbyxManager.Merge.Auto

open Atom Prog Config
open TaskTable (Enqueues Grows Wrote)

/-! ## The scans -/

/-- No blank stands at either end of what is before `-cdN` in a part's name. -/
def Trimmed (py : Casing) (tree : StrmTree) : Prop :=
  ∀ d ∈ tree.dirs, ∀ name ∈ d.2, ∀ stem index, partName name = some (stem, index) → strip (py.upper stem) = py.upper stem

/-- What a scan of such a tree finds. -/
def Scanned (py : Casing) (libraryRoot : String) (titles : List MultipartTitle) : Prop :=
  ∃ tree : StrmTree, Trimmed py tree ∧ titles = scanMultipart py tree libraryRoot

/-- An AVID that a request spells the way the scan does. -/
structure Tidy (py : Casing) (avid : String) : Prop where
  upper : py.upper avid = avid
  strip : strip avid = avid

theorem titleOf_avid (tree : StrmTree) (libraryRoot : PosixPath) (dir : Path) (stem : String) (entries : List (Nat × String))
    (whole : Bool) : (titleOf tree libraryRoot dir stem entries whole).avid = stem := by
  unfold titleOf
  dsimp only
  split <;> rfl

theorem Scanned.tidy {py : Casing} {libraryRoot : String} {titles : List MultipartTitle} (hupper : ∀ s, py.upper (py.upper s) = py.upper s)
    (h : Scanned py libraryRoot titles) : ∀ title ∈ titles, Tidy py title.avid := by
  obtain ⟨tree, htrimmed, rfl⟩ := h
  intro title htitle
  obtain ⟨⟨⟨dir, stem⟩, entries⟩, hgroup, rfl⟩ := List.mem_map.1 ((List.mem_insertionSort _).1 htitle)
  obtain ⟨rfl, hne⟩ := Grouping.mem_grouped_iff.1 (List.mem_of_mem_filter hgroup)
  obtain ⟨entry, hentry⟩ := List.exists_mem_of_ne_nil _ hne
  obtain ⟨item, hitem, rfl⟩ := List.mem_map.1 hentry
  obtain ⟨hitem, hkey⟩ := List.mem_filter.1 hitem
  obtain ⟨d, hd, hitem⟩ := List.mem_flatMap.1 hitem
  obtain ⟨name, hname, hpart⟩ := List.mem_filterMap.1 hitem
  obtain ⟨found, hfound, rfl⟩ := Option.map_eq_some_iff.1 hpart
  have hstem : py.upper found.1 = stem := congrArg Prod.snd (of_decide_eq_true hkey)
  subst hstem
  rw [titleOf_avid]
  exact ⟨hupper _, htrimmed d hd name hname found.1 found.2 hfound⟩

/-! ## The world of a round -/

/-- The table, what the merger remembers, the table as the round under way began, and what the
merger has ever queued: each title with the table as that round began. -/
structure World where
  tasks : TaskTable
  memory : Memory
  began : TaskTable
  /-- The round under way has queued a title. -/
  queued : Bool
  made : List (String × TaskTable)

/-- The title's row is there, and the round has queued it. -/
def World.with (w : World) (task : MergeTask) : World :=
  { w with tasks := w.tasks.insertNew task, queued := true, made := (task.avid, w.began) :: w.made }

/-- What an action of a round is answered and leaves. -/
def acts (py : Casing) : Env Res EnqueueExc World := fun w op r w' =>
  match op, r with
  | .openTasks, r =>
    w' = w ∧ ∀ found : List MergeTask, r = .ok found → found.Perm (w.tasks.rows.filter fun t => !t.state.finished)
  | .cancelledAvids, r =>
    w' = w ∧ ∀ avids : List String, r = .ok avids → ∀ avid, avid ∈ avids ↔ ∃ t ∈ w.tasks.rows, t.state = .cancelled ∧ t.avid = avid
  | .mergedAvids, r =>
    w' = w ∧ ∀ avids : List String, r = .ok avids → ∀ avid, avid ∈ avids ↔ ∃ t ∈ w.tasks.rows, t.state = .done ∧ t.avid = avid
  | .titles _ libraryRoot _, r => w' = w ∧ ∀ found : List MultipartTitle × Time, r = .ok found → Scanned py libraryRoot found.1
  | .scan _ _ libraryRoot, r => w' = w ∧ ∀ found : List MultipartTitle, r = .ok found → Scanned py libraryRoot found
  | .memory, r => w' = w ∧ r = .ok w.memory
  | .remember memory, r => w' = { w with memory } ∧ r = .ok ()
  | .enqueue (.create avid source parts mergedName), r =>
    -- an insert whose answer is lost is told as no refusal of the API
    (∃ id now, w.tasks.find id = none ∧ (∀ t ∈ w.tasks.rows, t.avid = avid → t.state.finished = true) ∧
      w' = w.with (.created id avid source parts mergedName now) ∧
      (r = .ok (MergeTask.created id avid source parts mergedName now) ∨ ∃ text, r = .error (.outside text))) ∨
    (w' = w ∧ ((∃ text, r = .error (.outside text)) ∨
      r = .error .conflict ∧ ∃ t ∈ w.tasks.rows, t.avid = avid ∧ t.state.finished = false))
  | _, _ => w' = w

/-! ## What the others do meanwhile -/

def Idle (tasks : TaskTable) : Prop := ∀ k t, tasks.find k = some t → t.state.active = false

/-- Rows may come and be moved on, but none goes, and a finished one stays as it is. Unless someone
lends a hand, none comes and none is taken up again. -/
structure Later (hands : Bool) (tasks tasks' : TaskTable) : Prop where
  kept : ∀ k t, tasks.find k = some t → ∃ t', tasks'.find k = some t' ∧ t'.avid = t.avid ∧
    (t.state.finished = true → t'.state = t.state)
  calm : hands = false → ∀ k t', tasks'.find k = some t' → ∃ t, tasks.find k = some t ∧ (t'.state.active = true → t.state.active = true)

namespace Later
variable {hands : Bool} {a b c : TaskTable}

theorem refl (tasks : TaskTable) : Later hands tasks tasks :=
  ⟨fun _ t h => ⟨t, h, rfl, fun _ => rfl⟩, fun _ _ t h => ⟨t, h, fun ht => ht⟩⟩

theorem trans (h : Later hands a b) (h' : Later hands b c) : Later hands a c := by
  refine ⟨fun k t hk => ?_, fun hcalm k t hk => ?_⟩
  · obtain ⟨t', hk', havid, hfinished⟩ := h.kept k t hk
    obtain ⟨t'', hk'', havid', hfinished'⟩ := h'.kept k t' hk'
    refine ⟨t'', hk'', havid'.trans havid, fun hf => ?_⟩
    have hstate := hfinished hf
    exact (hfinished' (hstate ▸ hf)).trans hstate
  · obtain ⟨t', hk', hactive⟩ := h'.calm hcalm k t hk
    obtain ⟨t'', hk'', hactive'⟩ := h.calm hcalm k t' hk'
    exact ⟨t'', hk'', fun ht => hactive' (hactive ht)⟩

theorem idle (h : Later hands a b) (hcalm : hands = false) (ha : Idle a) : Idle b := by
  intro k t hk
  obtain ⟨t', hk', hactive⟩ := h.calm hcalm k t hk
  by_contra ht
  have hactive := hactive (by simpa using ht)
  rw [ha k t' hk'] at hactive
  cases hactive

end Later

/-- An action of a round, and what the others do before the next one. -/
def among (py : Casing) (hands : Bool) : Env Res EnqueueExc World := fun w op r w' =>
  ∃ mid, acts py w op r mid ∧ Later hands mid.tasks w'.tasks ∧ w' = { mid with tasks := w'.tasks }

/-- What a title must be like to be queued: the round has queued none, the title had no task as the round
began, and, without a helping hand, nothing is under way. -/
def Fresh (hands : Bool) (w : World) : Op → Prop
  | .enqueue (.create avid _ parts mergedName) =>
    w.queued = false ∧ (∀ t ∈ w.began.rows, t.avid ≠ avid) ∧ (hands = false → Idle w.tasks) ∧
      parts ≠ [] ∧ ∃ suffix ∈ muxers, mergedName = avid ++ suffix
  | _ => True

/-- The round has queued nothing yet. -/
structure Ready (hands : Bool) (began : TaskTable) (w : World) : Prop where
  began : w.began = began
  queued : w.queued = false
  idle : hands = false → Idle w.tasks

/-- All but the insert. -/
def Quiet : Op → Prop
  | .enqueue (.create ..) => False
  | _ => True

section round
variable {py : Casing} {hands : Bool} {began : TaskTable} {w w' w₁ : World} {op : Op} {r : Except EnqueueExc (Res op)}

/-- The table is as it was. -/
theorem acts_quiet (hop : Quiet op) (h : acts py w op r w') : w' = { w with memory := w'.memory } := by
  cases op with
  | enqueue op =>
    cases op with
    | create => exact hop.elim
    | taskDir =>
      obtain rfl : w' = w := h
      rfl
  | remember m =>
    obtain ⟨rfl, -⟩ := h
    rfl
  | openTasks | cancelledAvids | mergedAvids | titles | scan | memory =>
    obtain ⟨rfl, -⟩ := h
    rfl
  | _ =>
    obtain rfl : w' = w := h
    rfl

theorem among_quiet (hop : Quiet op) (h : among py hands w op r w') :
    w'.began = w.began ∧ w'.queued = w.queued ∧ w'.made = w.made ∧ Later hands w.tasks w'.tasks := by
  obtain ⟨mid, hact, hlater, hw'⟩ := h
  rw [acts_quiet hop hact] at hw' hlater
  rw [hw']
  exact ⟨rfl, rfl, rfl, hlater⟩

theorem Ready.quiet (hw : Ready hands began w) (hop : Quiet op) (h : among py hands w op r w') : Ready hands began w' := by
  obtain ⟨hbegan, hqueued, -, hlater⟩ := among_quiet hop h
  exact ⟨hbegan.trans hw.began, hqueued.trans hw.queued, fun hcalm => hlater.idle hcalm (hw.idle hcalm)⟩

theorem fresh_of_quiet (hop : Quiet op) : Fresh hands w op := by
  cases op with
  | enqueue op =>
    cases op with
    | create => exact hop.elim
    | taskDir => trivial
  | _ => trivial

/-- Looking around leaves the round ready. -/
theorem keeps_ready {α : Type} {p : M α} (hp : Uses Quiet p) :
    Keeps (among py hands) (Fresh hands) (Ready hands began) (fun _ => Ready hands began) p :=
  keeps_of_uses hp (fun _ _ hop _ => fresh_of_quiet hop) fun _ _ _ _ hop hw h => hw.quiet hop h

theorem wp_quiet {α : Type} {p : M α} (hp : Uses Quiet p) (w : World) :
    p.wp (among py hands) (Fresh hands) (fun _ _ => True) (fun _ _ => True) w :=
  keeps_of_uses (I := fun _ => True) hp (fun _ _ hop _ => fresh_of_quiet hop) (fun _ _ _ _ _ h _ => h) w trivial

/-! ## What a round is told -/

/-- What the program returns, whatever the world is. -/
def Tells (py : Casing) (hands : Bool) {α : Type} (p : M α) (P : α → Prop) : Prop :=
  ∀ w, p.wp (among py hands) (fun _ _ => True) (fun a _ => P a) (fun _ _ => True) w

namespace Tells
variable {α β : Type} {P : α → Prop} {Q : β → Prop}

theorem pure {a : α} (h : P a) : Tells py hands (Pure.pure a : M α) P := fun _ => h

theorem any (p : M α) : Tells py hands p fun _ => True := fun _ => wp_trivial p

theorem bind {p : M α} {f : α → M β} (hp : Tells py hands p P) (hf : ∀ a, P a → Tells py hands (f a) Q) :
    Tells py hands (p >>= f) Q :=
  fun w => (wp_bind p f).2 (wp_mono (hp w) (fun a w h => hf a h w) fun _ _ h => h)

theorem after (p : M α) {f : α → M β} (hf : ∀ a, Tells py hands (f a) Q) : Tells py hands (p >>= f) Q :=
  (any p).bind fun a _ => hf a

theorem ite {c : Prop} [Decidable c] {p q : M α} (hp : c → Tells py hands p P) (hq : ¬c → Tells py hands q P) :
    Tells py hands (if c then p else q) P :=
  fun w => wp_ite (fun hc => hp hc w) fun hc => hq hc w

theorem guarded {p : M α} (hp : Tells py hands p P) (hquiet : Uses Quiet p) (w : World) :
    p.wp (among py hands) (Fresh hands) (fun a _ => P a) (fun _ _ => True) w :=
  wp_guards (hp w) (wp_quiet hquiet w) fun _ _ _ hfresh => hfresh

/-- What is told, of a round that stays ready. -/
theorem ready {p : M α} (hp : Tells py hands p P) (hquiet : Uses Quiet p) (hw : Ready hands began w) :
    p.wp (among py hands) (Fresh hands) (fun a w => Ready hands began w ∧ P a) (fun _ w => Ready hands began w) w := by
  have hkeeps : p.wp (among py hands) (Fresh hands) (fun _ => Ready hands began) (fun _ => Ready hands began) w := keeps_ready hquiet w hw
  exact wp_mono (wp_and hkeeps (hp.guarded hquiet w)) (fun _ _ h => h) fun _ _ h => h.1

end Tells

/-! ### The titles -/

theorem quiet_ask {op : Op} (hop : Quiet op) : Uses Quiet (ask op) := (uses_call op).2 hop

theorem quiet_titles : Uses Quiet titles := by
  refine uses_bind (quiet_ask trivial) fun _ => uses_bind (quiet_ask trivial) fun _ => uses_ite trivial ?_
  refine uses_bind (quiet_ask trivial) fun _ => uses_bind (quiet_ask trivial) fun _ => ?_
  exact uses_bind (quiet_ask trivial) fun _ => uses_ite (uses_bind (quiet_ask trivial) fun _ => trivial) trivial

theorem quiet_rescanned (wanted : String) (found : MultipartTitle) : Uses Quiet (rescanned py wanted found) :=
  uses_bind (quiet_ask trivial) fun _ => uses_bind (quiet_ask trivial) fun _ => uses_bind (quiet_ask trivial) fun _ => trivial

theorem quiet_scan (refresh : Bool) : Uses Quiet (scan refresh) :=
  uses_bind (quiet_ask trivial) fun _ => uses_bind (quiet_ask trivial) fun _ =>
    uses_ite trivial (uses_bind (quiet_ask trivial) fun _ => trivial)

theorem quiet_currentTitle (avid : String) : Uses Quiet (currentTitle py avid) := by
  refine uses_bind (quiet_scan false) fun first => ?_
  cases first with
  | none => trivial
  | some first =>
    dsimp only
    cases titleNamed py (py.upper (strip avid)) first.1 with
    | some found => exact quiet_rescanned _ found
    | none =>
      refine uses_bind (quiet_scan true) fun second => ?_
      cases second with
      | none => trivial
      | some second =>
        dsimp only
        cases titleNamed py (py.upper (strip avid)) second.1 with
        | some found => exact quiet_rescanned _ found
        | none => trivial

section tells
variable (hupper : ∀ s, py.upper (py.upper s) = py.upper s)
include hupper

theorem tells_scannedTitles (root libraryRoot : String) (refresh : Bool) :
    Tells py hands (scannedTitles root libraryRoot refresh) fun found => ∀ title ∈ found.1, Tidy py title.avid := by
  refine fun w => (wp_call _).2 ⟨trivial, ?_, fun _ _ _ => trivial⟩
  rintro found w' ⟨mid, ⟨-, hfound⟩, -⟩
  exact (hfound found rfl).tidy hupper

theorem tells_titles : Tells py hands titles fun r => ∀ found, r = some found → ∀ title ∈ found.1, Tidy py title.avid := by
  refine .after _ fun _ => .after _ fun _ => .ite (fun _ => .pure (by simp)) fun _ => ?_
  refine (tells_scannedTitles hupper _ _ _).bind fun scanned hscanned => .after _ fun _ => .after _ fun _ => .ite (fun _ => ?_) fun _ => ?_
  · refine (tells_scannedTitles hupper _ _ _).bind fun again hagain => .pure ?_
    rintro found ⟨⟩
    exact hagain
  · refine .pure ?_
    rintro found ⟨⟩
    exact hscanned

/-- A title found anew in its directory is the one that was wanted. -/
theorem tells_rescanned {avid : String} (havid : Tidy py avid) (found : MultipartTitle) :
    Tells py hands (rescanned py (py.upper (strip avid)) found) fun r => ∀ title, r = some title → title.avid = avid := by
  refine .after _ fun root => .after _ fun dirs => .bind (P := fun again : List MultipartTitle => ∀ title ∈ again, Tidy py title.avid) ?_ fun again hagain => .pure ?_
  · refine fun w => (wp_call _).2 ⟨trivial, ?_, fun _ _ _ => trivial⟩
    rintro again w' ⟨mid, ⟨-, hagain⟩, -⟩
    exact (hagain again rfl).tidy hupper
  · intro title htitle
    have hwanted : py.upper title.avid = py.upper (strip avid) := by simpa using List.find?_some htitle
    rw [(hagain title (List.mem_of_find?_eq_some htitle)).upper, havid.strip, havid.upper] at hwanted
    exact hwanted

theorem tells_currentTitle {avid : String} (havid : Tidy py avid) :
    Tells py hands (currentTitle py avid) fun r => ∀ title, r = some title → title.avid = avid := by
  refine .after _ fun first => ?_
  cases first with
  | none => exact .pure (by simp)
  | some first =>
    dsimp only
    cases titleNamed py (py.upper (strip avid)) first.1 with
    | some found => exact tells_rescanned hupper havid found
    | none =>
      refine .after _ fun second => ?_
      cases second with
      | none => exact .pure (by simp)
      | some second =>
        dsimp only
        cases titleNamed py (py.upper (strip avid)) second.1 with
        | some found => exact tells_rescanned hupper havid found
        | none => exact .pure (by simp)

end tells

/-! ### CloudDrive's listings -/

theorem quiet_listParts (config : AutoConfig) (title : MultipartTitle) (forceRefresh : Bool) :
    Uses Quiet (listParts config title forceRefresh) := by
  unfold listParts
  cases partsApiDir config title with
  | error e => trivial
  | ok dir =>
    refine uses_bind (uses_attempt (quiet_ask trivial)) fun r => ?_
    cases r <;> trivial

theorem quiet_titleSize (config : AutoConfig) (title : MultipartTitle) : Uses Quiet (titleSize config title) := by
  refine uses_bind (quiet_ask trivial) fun m => ?_
  cases m.sizes.lookup (targets title) with
  | some size => trivial
  | none =>
    refine uses_bind (quiet_ask trivial) fun cloud => uses_ite trivial (uses_bind (quiet_listParts config title false) fun files => ?_)
    cases files with
    | none => trivial
    | some files =>
      dsimp only
      cases partSizes title files with
      | none => trivial
      | some sizes => exact uses_bind (quiet_ask trivial) fun _ => trivial

theorem quiet_unlisted (config : AutoConfig) (title : MultipartTitle) : Uses Quiet (unlisted py config title) := by
  refine uses_bind (quiet_ask trivial) fun cloud => uses_ite trivial (uses_bind (quiet_listParts config title true) fun files => ?_)
  cases files with
  | none => trivial
  | some files => exact uses_ite trivial trivial

theorem quiet_refuse (refused : SkippedTitle) : Uses Quiet (refuse refused) :=
  uses_bind (quiet_ask trivial) fun _ => quiet_ask trivial

theorem quiet_forgetSize (title : MultipartTitle) : Uses Quiet (forgetSize title) :=
  uses_bind (quiet_ask trivial) fun _ => quiet_ask trivial

theorem quiet_setStatus (status : AutoStatus) : Uses Quiet (setStatus status) :=
  uses_bind (quiet_ask trivial) fun _ => quiet_ask trivial

theorem quiet_report (state : AutoState) (room : Int) (skipped : List SkippedTitle) : Uses Quiet (report state room skipped) :=
  uses_bind (quiet_ask trivial) fun _ => quiet_setStatus _

theorem quiet_forgetRefused (scannedAt : Time) : Uses Quiet (forgetRefused scannedAt) :=
  uses_bind (quiet_ask trivial) fun _ => uses_ite (quiet_ask trivial) trivial

/-! ### Queueing a title -/

section queueing
variable {title : MultipartTitle} {config : AutoConfig}

/-- The title had no task as the round began. -/
def Untouched (began : TaskTable) (avid : String) : Prop := ∀ t ∈ began.rows, t.avid ≠ avid

/-- One insert, and only a refusal leaves the round ready. -/
theorem wp_enqueue {c : Catalog} {t : Option Title} (hw : Ready hands began w) (ht : ∀ title, t = some title → Untouched began title.avid) :
    (enqueueing (enqueue c t none)).wp (among py hands) (Fresh hands) (fun _ _ => True)
      (fun e w => (∃ status code, e = .api status code) → Ready hands began w) w := by
  have hdir : ∀ (avid : String) (w w' : World) (r : Except EnqueueExc (EnqueueRes (.taskDir avid))), Ready hands began w →
      among py hands w (.enqueue (.taskDir avid)) r w' → Ready hands began w' :=
    fun avid w w' r hw h => hw.quiet (show Quiet (.enqueue (.taskDir avid)) from trivial) h
  refine wp_handle (T := fun w op r w' => among py hands w (.enqueue op) r w') (G := fun w op => Fresh hands w (.enqueue op))
    (fun w op hfresh => (wp_call _).2 ⟨hfresh, fun _ _ h => h, fun _ _ h => h⟩) ?_
  cases t with
  | none => exact fun _ => hw
  | some title =>
    unfold enqueue
    dsimp only
    refine wp_ite (fun _ => fun _ => hw) fun _ => ?_
    split
    · rintro ⟨_, _, ⟨⟩⟩
    · rename_i suffix hsuffix
      refine wp_ite (fun _ => fun _ => hw) fun hmuxer => ?_
      have hmuxer : suffix ∈ muxers := by simpa using hmuxer
      have hparts : title.targets ≠ [] := by
        intro hnone
        rw [hnone] at hsuffix
        cases hsuffix
      refine (wp_bind _ _).2 ((wp_bind _ _).2 ((wp_call _).2 ⟨trivial, fun dir w₁ h₁ => ?_, fun e w₁ h₁ _ => hdir _ _ _ _ hw h₁⟩))
      have hw₁ := hdir _ _ _ _ hw h₁
      refine (wp_pure (c.resolveSource title dir)).2 ?_
      cases c.resolveSource title dir with
      | none => exact fun _ => hw₁
      | some source =>
        refine wp_ite (fun _ => fun _ => hw₁) fun _ => ?_
        refine (wp_bind _ _).2 ((wp_attempt _).2 ((wp_call _).2 ⟨?_, fun _ _ _ => trivial, fun e w₂ h₂ => ?_⟩))
        · -- what is inserted is fresh: the title had no task when the round began
          refine ⟨hw₁.queued, ?_, hw₁.idle, hparts, suffix, hmuxer, rfl⟩
          rw [hw₁.began]
          exact ht title rfl
        · obtain ⟨mid, hact, hlater, hw₂⟩ := h₂
          rcases hact with ⟨id, now, -, -, -, hr | ⟨text, hr⟩⟩ | ⟨rfl, hr⟩
          · cases hr
          · cases hr
            rintro ⟨_, _, ⟨⟩⟩
          · have hready : Ready hands began w₂ := by
              rw [hw₂]
              exact ⟨hw₁.began, hw₁.queued, fun hcalm => hlater.idle hcalm (hw₁.idle hcalm)⟩
            rcases hr with ⟨text, hr⟩ | ⟨hr, -⟩
            · cases hr
              exact fun _ => hready
            · cases hr
              exact fun _ => hready
    · exact fun _ => hw

variable (hupper : ∀ s, py.upper (py.upper s) = py.upper s)
include hupper

theorem wp_enqueueTitle (hw : Ready hands began w) (htidy : Tidy py title.avid) (huntouched : Untouched began title.avid) :
    (enqueueTitle py title.avid).wp (among py hands) (Fresh hands) (fun _ _ => True)
      (fun e w => (∃ status code, e = .api status code) → Ready hands began w) w := by
  refine (wp_bind _ _).2 (wp_mono (keeps_ready (quiet_ask (show Quiet .archive from trivial)) w hw) (fun dirs w₁ h₁ => ?_) fun _ _ h _ => h)
  refine (wp_bind _ _).2 (wp_mono ((tells_currentTitle hupper htidy).ready (quiet_currentTitle _) h₁) ?_ fun _ _ h _ => h)
  rintro current w₂ ⟨h₂, hcurrent⟩
  refine wp_ite (fun _ => ?_) fun _ => wp_enqueue h₂ ?_
  · rintro ⟨_, _, ⟨⟩⟩
  · intro t ht
    obtain ⟨found, rfl, rfl⟩ := Option.map_eq_some_iff.1 ht
    have havid : found.toTitle.avid = title.avid := hcurrent found rfl
    rw [havid]
    exact huntouched

theorem wp_tryEnqueue (hw : Ready hands began w) (htidy : Tidy py title.avid) (huntouched : Untouched began title.avid) (size : Int)
    (skipped : List SkippedTitle) : (tryEnqueue py title size skipped).wp (among py hands) (Fresh hands)
      (fun tried w => tried.1 = false → Ready hands began w) (fun _ _ => True) w := by
  refine (wp_bind _ _).2 ((wp_attempt _).2 (wp_mono (wp_enqueueTitle hupper hw htidy huntouched) (fun task w₁ _ => ?_) fun e w₁ h₁ => ?_))
  · refine (wp_bind _ _).2 ((wp_call _).2 ⟨trivial, fun _ _ _ => ?_, fun _ _ _ => trivial⟩)
    rintro ⟨⟩
  · cases e with
    | api status code =>
      refine (wp_bind _ _).2 (wp_mono (keeps_ready (quiet_refuse _) w₁ (h₁ ⟨status, code, rfl⟩)) (fun _ _ h _ => h) fun _ _ _ => trivial)
    | conflict => trivial
    | outside text => trivial

theorem wp_tryQueue (hw : Ready hands began w) (htidy : Tidy py title.avid) (huntouched : Untouched began title.avid) (room : Int)
    (skipped : List SkippedTitle) : (tryQueue py title config room skipped).wp (among py hands) (Fresh hands)
      (fun tried w => tried.1 = false → Ready hands began w) (fun _ _ => True) w := by
  refine (wp_bind _ _).2 (wp_mono (keeps_ready (quiet_ask (show Quiet .memory from trivial)) w hw) (fun (m : Memory) w₁ h₁ => ?_) fun _ _ _ => trivial)
  cases m.refused.lookup title.avid with
  | some refused => exact fun _ => h₁
  | none =>
    refine (wp_bind _ _).2 (wp_mono (keeps_ready (quiet_titleSize config title) w₁ h₁) ?_ fun _ _ _ => trivial)
    rintro ⟨size, reason⟩ w₂ h₂
    cases size with
    | none => exact fun _ => h₂
    | some size =>
      refine wp_ite (fun _ => fun _ => h₂) fun _ => ?_
      refine (wp_bind _ _).2 (wp_mono (keeps_ready (quiet_unlisted config title) w₂ h₂) (fun reason w₃ h₃ => ?_) fun _ _ _ => trivial)
      cases reason with
      | none => exact wp_tryEnqueue hupper h₃ htidy huntouched size skipped
      | some reason =>
        refine (wp_bind _ _).2 (wp_mono (keeps_ready (quiet_forgetSize title) w₃ h₃) (fun _ w₄ h₄ => ?_) fun _ _ _ => trivial)
        refine wp_ite (fun _ => ?_) fun _ => ?_
        · exact (wp_bind _ _).2 (wp_mono (keeps_ready (quiet_refuse _) w₄ h₄) (fun _ _ h _ => h) fun _ _ _ => trivial)
        · exact fun _ => h₄

/-- Every title that had a task as the round began is among the failed or the settled ones. -/
def Known (began : TaskTable) (failed settled : List String) : Prop := ∀ t ∈ began.rows, t.avid ∈ failed ∨ t.avid ∈ settled

/-- The titles, by induction on those left: up to the one that is queued the round stays ready. -/
theorem wp_consider {titles : List MultipartTitle} {failed settled : List String} {room : Int} {skipped : List SkippedTitle}
    (hw : Ready hands began w) (htidy : ∀ title ∈ titles, Tidy py title.avid) (hknown : Known began failed settled) :
    (consider py config room settled failed titles skipped).wp (among py hands) (Fresh hands) (fun _ _ => True) (fun _ _ => True) w := by
  induction titles generalizing skipped w with
  | nil => exact wp_quiet (quiet_report _ _ _) w
  | cons title rest ih =>
    have hrest : ∀ title ∈ rest, Tidy py title.avid := fun t ht => htidy t (List.mem_cons_of_mem title ht)
    refine wp_ite (fun _ => ih hw hrest) fun heligible => wp_ite (fun _ => ih hw hrest) fun hfailed => ?_
    have huntouched : Untouched began title.avid := by
      intro t ht havid
      have hsettled : title.avid ∉ settled := by
        intro hmem
        simp [eligible, hmem] at heligible
      rcases hknown t ht with hmem | hmem
      · rw [havid] at hmem
        simp [hmem] at hfailed
      · exact hsettled (havid ▸ hmem)
    refine (wp_bind _ _).2 (wp_mono (wp_tryQueue hupper hw (htidy title List.mem_cons_self) huntouched room skipped) ?_ fun _ _ _ => trivial)
    intro tried w₁ htried
    refine wp_ite (fun _ => wp_quiet (quiet_report _ _ _) w₁) fun hnot => ih (htried (by simpa using hnot)) hrest

end queueing

/-! ### Reading the table -/

/-- What the round has not read as failed or settled yet has a finished row, in a state `left` says. -/
def Settling (began : TaskTable) (failed settled : List String) (left : MergeState → Prop) (w : World) : Prop :=
  ∀ t ∈ began.rows, t.avid ∈ failed ∨ t.avid ∈ settled ∨
    ∃ k t', w.tasks.find k = some t' ∧ t'.avid = t.avid ∧ t'.state.finished = true ∧ left t'.state

section reading
variable {failed settled avids : List String} {left : MergeState → Prop}

theorem Settling.later (h : Settling began failed settled left w) (hlater : Later hands w.tasks w'.tasks) :
    Settling began failed settled left w' := by
  intro t ht
  refine (h t ht).imp_right (Or.imp_right ?_)
  rintro ⟨k, t', hk, havid, hfinished, hleft⟩
  obtain ⟨t'', hk'', havid', hstate⟩ := hlater.kept k t' hk
  have hstate := hstate hfinished
  exact ⟨k, t'', hk'', havid'.trans havid, hstate ▸ hfinished, hstate ▸ hleft⟩

theorem keeps_settling {α : Type} {p : M α} (hp : Uses Quiet p) :
    Keeps (among py hands) (Fresh hands) (fun w => Ready hands began w ∧ Settling began failed settled left w)
      (fun _ w => Ready hands began w ∧ Settling began failed settled left w) p :=
  keeps_of_uses hp (fun _ _ hop _ => fresh_of_quiet hop) fun _ _ _ _ hop hw h =>
    ⟨hw.1.quiet hop h, hw.2.later (among_quiet hop h).2.2.2⟩

/-- Once the cancelled titles are read, only done ones are left. -/
theorem Settling.cancelled (h : Settling began failed [] (fun _ => True) w)
    (havids : ∀ avid, avid ∈ avids ↔ ∃ t ∈ w.tasks.rows, t.state = .cancelled ∧ t.avid = avid) :
    Settling began failed avids (· = .done) w := by
  intro t ht
  rcases h t ht with hfailed | hnone | ⟨k, t', hk, havid, hfinished, -⟩
  · exact .inl hfailed
  · cases hnone
  · by_cases hdone : t'.state = .done
    · exact .inr (.inr ⟨k, t', hk, havid, hfinished, hdone⟩)
    · refine .inr (.inl ((havids t.avid).2 ⟨t', Table.mem_of_find hk, ?_, havid⟩))
      cases hstate : t'.state <;> simp_all [MergeState.finished]

theorem Settling.known {merged : List String} (h : Settling began failed settled (· = .done) w)
    (havids : ∀ avid, avid ∈ merged ↔ ∃ t ∈ w.tasks.rows, t.state = .done ∧ t.avid = avid) :
    Known began failed (settled ++ merged) := by
  intro t ht
  rcases h t ht with hfailed | hsettled | ⟨k, t', hk, havid, -, hdone⟩
  · exact .inl hfailed
  · exact .inr (List.mem_append_left _ hsettled)
  · exact .inr (List.mem_append_right _ ((havids t.avid).2 ⟨t', Table.mem_of_find hk, hdone, havid⟩))

variable (hupper : ∀ s, py.upper (py.upper s) = py.upper s)
include hupper

theorem wp_queueNext {config : AutoConfig} {openTasks : List MergeTask} {scanned : List MultipartTitle × Time}
    (hw : Ready hands began w) (hsettling : Settling began ((openTasks.filter (·.state = .failed)).map (·.avid)) [] (fun _ => True) w)
    (htidy : ∀ title ∈ scanned.1, Tidy py title.avid) :
    (queueNext py config openTasks scanned).wp (among py hands) (Fresh hands) (fun _ _ => True) (fun _ _ => True) w := by
  refine (wp_bind _ _).2 (wp_mono (keeps_settling (quiet_forgetRefused _) w ⟨hw, hsettling⟩) (fun _ w₁ h₁ => ?_) fun _ _ _ => trivial)
  refine (wp_bind _ _).2 (wp_mono (keeps_settling (quiet_ask (show Quiet (.freeSpace config.workDir) from trivial)) w₁ h₁) (fun free w₂ h₂ => ?_) fun _ _ _ => trivial)
  refine (wp_bind _ _).2 ((wp_call _).2 ⟨trivial, fun (cancelled : List String) w₃ h₃ => ?_, fun _ _ _ => trivial⟩)
  have hready₃ := h₂.1.quiet (show Quiet .cancelledAvids from trivial) h₃
  obtain ⟨_, ⟨rfl, hcancelled⟩, hlater₃, -⟩ := h₃
  have hsettling₃ := (h₂.2.cancelled (hcancelled cancelled rfl)).later hlater₃
  refine (wp_bind _ _).2 ((wp_call _).2 ⟨trivial, fun (merged : List String) w₄ h₄ => ?_, fun _ _ _ => trivial⟩)
  have hready₄ := hready₃.quiet (show Quiet .mergedAvids from trivial) h₄
  obtain ⟨_, ⟨rfl, hmerged⟩, -, -⟩ := h₄
  exact wp_consider hupper hready₄ htidy (hsettling₃.known (hmerged merged rfl))

end reading

/-! ### A round from its first action on -/

/-- The round has begun, and the others may have gone on since. -/
structure Begun (hands : Bool) (began : TaskTable) (w : World) : Prop where
  later : Later hands began w.tasks
  began : w.began = began
  queued : w.queued = false

theorem Begun.quiet (hw : Begun hands began w) (hop : Quiet op) (h : among py hands w op r w') : Begun hands began w' := by
  obtain ⟨hbegan, hqueued, -, hlater⟩ := among_quiet hop h
  exact ⟨hw.later.trans hlater, hbegan.trans hw.began, hqueued.trans hw.queued⟩

/-- Every task of the beginning is among the open ones, or has finished. -/
theorem Begun.settling {found : List MergeTask} (hw : Begun hands began w)
    (hfound : found.Perm (w.tasks.rows.filter fun t => !t.state.finished)) :
    Settling began (found.map (·.avid)) [] (fun _ => True) w := by
  intro t ht
  obtain ⟨t', hk, havid, -⟩ := hw.later.kept t.id t (Table.find_eq_some.2 ⟨ht, rfl⟩)
  by_cases hfinished : t'.state.finished = true
  · exact .inr (.inr ⟨t.id, t', hk, havid, hfinished, trivial⟩)
  · refine .inl (List.mem_map.2 ⟨t', hfound.mem_iff.2 ?_, havid⟩)
    exact List.mem_filter.2 ⟨Table.mem_of_find hk, by simpa using hfinished⟩

/-- Where all that is open has failed, nothing is under way. -/
theorem idle_of_failed {found : List MergeTask} {tasks : TaskTable} (hfound : found.Perm (tasks.rows.filter fun t => !t.state.finished))
    (hfailed : ∀ t ∈ found, t.state = .failed) : Idle tasks := by
  intro k t hk
  by_cases hfinished : t.state.finished = true
  · cases hstate : t.state <;> simp_all [MergeState.finished, MergeState.active]
  · have hmem : t ∈ found := hfound.mem_iff.2 (List.mem_filter.2 ⟨Table.mem_of_find hk, by simpa using hfinished⟩)
    rw [hfailed t hmem]
    rfl

theorem quiet_blocked (config : AutoConfig) (openTasks : List MergeTask) : Uses Quiet (blocked config openTasks) :=
  uses_ite trivial (uses_bind (quiet_ask trivial) fun _ => uses_ite trivial (uses_ite trivial trivial))

/-- A round that nothing blocks has found no open task but failed ones. -/
theorem tells_blocked (config : AutoConfig) (openTasks : List MergeTask) :
    Tells py hands (blocked config openTasks) fun state => state = none → ∀ t ∈ openTasks, t.state = .failed := by
  refine .ite (fun _ => .pure (by simp)) fun _ => .after _ fun _ => .ite (fun _ => .pure (by simp)) fun _ => .ite (fun _ => .pure (by simp)) fun _ => .pure ?_
  intro hnone
  have hlength : ¬ openTasks.length > (openTasks.filter (·.state = .failed)).length := by
    intro hmore
    rw [if_pos hmore] at hnone
    cases hnone
  have hall : openTasks.filter (·.state = .failed) = openTasks :=
    List.filter_sublist.eq_of_length_le (by omega)
  intro t ht
  rw [← hall] at ht
  exact of_decide_eq_true (List.mem_filter.1 ht).2

theorem wp_step (hupper : ∀ s, py.upper (py.upper s) = py.upper s) (hw : Begun hands began w) :
    (step py).wp (among py hands) (Fresh hands) (fun _ _ => True) (fun _ _ => True) w := by
  refine (wp_bind _ _).2 ((wp_call _).2 ⟨trivial, fun (config : AutoConfig) w₁ h₁ => ?_, fun _ _ _ => trivial⟩)
  have hw₁ := hw.quiet (show Quiet .mergeConfig from trivial) h₁
  refine (wp_bind _ _).2 ((wp_call _).2 ⟨trivial, fun (openTasks : List MergeTask) w₂ h₂ => ?_, fun _ _ _ => trivial⟩)
  have hw₂ := hw₁.quiet (show Quiet .openTasks from trivial) h₂
  obtain ⟨_, ⟨rfl, hfound⟩, hlater, -⟩ := h₂
  have hfound := hfound openTasks rfl
  by_cases hfailed : ∀ t ∈ openTasks, t.state = .failed
  · have hready : Ready hands began w₂ := ⟨hw₂.began, hw₂.queued, fun hcalm => hlater.idle hcalm (idle_of_failed hfound hfailed)⟩
    have hall : openTasks.filter (·.state = .failed) = openTasks := List.filter_eq_self.2 fun t ht => by simpa using hfailed t ht
    have hsettling : Settling began ((openTasks.filter (·.state = .failed)).map (·.avid)) [] (fun _ => True) w₂ := by
      rw [hall]
      exact (hw₁.settling hfound).later hlater
    refine (wp_bind _ _).2 (wp_mono (keeps_settling (quiet_blocked _ _) w₂ ⟨hready, hsettling⟩) (fun state w₃ h₃ => ?_) fun _ _ _ => trivial)
    cases state with
    | some state => exact wp_quiet (quiet_setStatus _) w₃
    | none =>
      have htold := wp_and (keeps_settling quiet_titles w₃ h₃) ((tells_titles hupper).ready quiet_titles h₃.1)
      refine (wp_bind _ _).2 (wp_mono htold ?_ fun _ _ _ => trivial)
      rintro found w₄ ⟨h₄, -, htidy⟩
      cases found with
      | none => exact wp_quiet (quiet_setStatus _) w₄
      | some scanned => exact wp_queueNext hupper h₄.1 h₄.2 (htidy scanned rfl)
  · -- the round is blocked, and only notes its status
    refine (wp_bind _ _).2 (wp_mono ((tells_blocked config openTasks).guarded (quiet_blocked _ _) w₂) (fun state w₃ h₃ => ?_) fun _ _ _ => trivial)
    cases state with
    | some state => exact wp_quiet (quiet_setStatus _) w₃
    | none => exact absurd (h₃ rfl) hfailed

end round

/-! ## Everyone together -/

/-- Writes that take no task up again. -/
def Calm : Merge.Op → Prop
  | .transition _ expected state _ => expected.active = true ∨ state.active = false
  | _ => True

theorem calm_of_steps {id : Int} {s : MergeState} {op : Merge.Op} (h : Steps id s op) : Calm op := by
  cases op with
  | transition i e s' f =>
    rcases h with ⟨-, rfl, hadvance⟩ | hdelicate | hfails
    · cases e <;> first | exact .inl rfl | exact hadvance.elim
    · cases e <;> first | exact .inl rfl | exact hdelicate.elim
    · cases s' <;> first | exact .inr rfl | exact hfails.elim
  | _ => trivial

theorem calm_of_closes {op : Merge.Op} (h : TaskTable.Closes op) : Calm op := by
  cases op with
  | transition i e s' f =>
    obtain ⟨-, rfl⟩ := h
    exact .inr rfl
  | _ => trivial

theorem calm_tick (m : MergeService) : Uses Calm (Merge.tick m) := by
  unfold Merge.tick
  refine uses_ite trivial (uses_bind ((uses_call _).2 trivial) fun tasks => uses_discard (uses_foldEach (fun merging task _ => ?_) _))
  unfold round
  have hstep := uses_mono (steps_step m task) fun _ => calm_of_steps
  exact uses_ite trivial (uses_ite (uses_ite trivial (uses_bind hstep fun _ => trivial)) (uses_bind hstep fun _ => trivial))

/-- What an operation of the service may ask for. -/
def Permitted (hands : Bool) (tasks : TaskTable) (op : Merge.Op) : Prop := TaskTable.Legal tasks op ∧ (hands = false → Calm op)

theorem wp_operation {hands : Bool} {tasks : TaskTable} (m : MergeService) (a : Action) (ha : hands = true ∨ ∀ id, a ≠ .retry id)
    (hs : TaskTable.Sound tasks) :
    (a.program m).wp TaskTable.answers (Permitted hands) (fun _ _ => True) (fun _ _ => True) tasks := by
  have hlegal := TaskTable.wp_action m a hs
  have hcalm : hands = false → Uses Calm (a.program m) := by
    intro hhands
    have ha := ha.resolve_left (by simp [hhands])
    cases a with
    | tick => exact calm_tick m
    | cancel id => exact uses_discard (uses_mono (TaskTable.closes_cancel m id) fun _ => calm_of_closes)
    | retry id => exact absurd rfl (ha id)
  cases hands with
  | true => exact wp_env hlegal (fun _ _ _ _ h => h) fun _ _ h => ⟨h, fun h' => by cases h'⟩
  | false =>
    have hkeeps := keeps_of_uses (T := TaskTable.answers) (G := fun _ op => Calm op) (I := fun _ => True) (hcalm rfl)
      (fun _ _ hop _ => hop) (fun _ _ _ _ _ h _ => h) tasks trivial
    exact wp_guards hlegal hkeeps fun _ _ h h' => ⟨h, fun _ => h'⟩

structure System where
  world : World
  service : Merge.M Unit
  auto : M Unit

/-- An action of anyone: the operations of the service follow one another, and so do the rounds; each may be
given up where it is. Titles are enqueued and failed tasks retried by hand only if there are hands. -/
inductive Next (py : Casing) (hands : Bool) : System → System → Prop
  | enqueued {s : System} {tasks : TaskTable} : hands = true → Enqueues s.world.tasks tasks →
      Next py hands s { s with world := { s.world with tasks } }
  | operates {s : System} (m : MergeService) (a : Action) : (hands = true ∨ ∀ id, a ≠ .retry id) →
      Next py hands s { s with service := a.program m }
  | serves {s : System} {op k r tasks} : s.service = .act op k → raisesOutside r → TaskTable.rowsAnswer s.world.tasks tasks op r →
      Next py hands s { s with world := { s.world with tasks }, service := k r }
  | polls {s : System} : Next py hands s { s with world := { s.world with began := s.world.tasks, queued := false }, auto := step py }
  | acts {s : System} {op k r world} : s.auto = .act op k → acts py s.world op r world →
      Next py hands s { s with world, auto := k r }

/-- Nothing has happened yet. -/
def System.start : System := ⟨⟨.empty, {}, .empty, false, []⟩, .ret (), .ret ()⟩

def Reached (py : Casing) (hands : Bool) (s : System) : Prop := Relation.ReflTransGen (Next py hands) .start s

section reached
variable {py : Casing} {hands : Bool} {s s' : System}

/-! ### What everyone keeps -/

/-- What a round inserts could have been enqueued by anyone. -/
theorem enqueues_of_create {tasks : TaskTable} {id : Int} {now : Time} {avid suffix mergedName : String} {source : Path} {parts : List Path}
    (hnew : tasks.find id = none) (hopen : ∀ t ∈ tasks.rows, t.avid = avid → t.state.finished = true) (hparts : parts ≠ [])
    (hsuffix : suffix ∈ muxers) (hname : mergedName = avid ++ suffix) :
    Enqueues tasks (tasks.insertNew (.created id avid source parts mergedName now)) := by
  subst hname
  refine ⟨⟨[source], fun _ _ => none, fun _ => suffix⟩, some ⟨avid, parts, [], some "", some "", none⟩, some source, ?_⟩
  have hdups : (parts.map fun _ => suffix).eraseDups = [suffix] := by
    obtain ⟨part, rest, rfl⟩ := List.exists_cons_of_ne_nil hparts
    rw [List.map_cons, List.eraseDups_cons]
    simp
  have hcreate : ∃ k, enqueue ⟨[source], fun _ _ => none, fun _ => suffix⟩ (some ⟨avid, parts, [], some "", some "", none⟩) (some source) =
      .act (.create avid source parts (avid ++ suffix)) k := by
    unfold enqueue
    dsimp only
    rw [if_neg (by simp [Title.complete]), hdups]
    dsimp only
    rw [if_neg (by simpa using hsuffix)]
    change ∃ k, (if source ∉ [source] then _ else createTask _ _ _) = _
    rw [if_neg (by simp)]
    exact ⟨_, rfl⟩
  obtain ⟨k, hk⟩ := hcreate
  rw [hk]
  exact .act (r := .ok (MergeTask.created id avid source parts (avid ++ suffix) now))
    (.inl ⟨id, now, hnew, hopen, rfl, fun _ h => (Except.ok.inj h).symm⟩) (.here _ _)

theorem later_of_grows {tasks tasks' : TaskTable} (h : Grows tasks tasks') : Later true tasks tasks' :=
  ⟨fun k t hk => ⟨t, h.keeps k t hk, rfl, fun _ => rfl⟩, fun hhands => by cases hhands⟩

theorem later_of_answer {tasks tasks' : TaskTable} {op : Merge.Op} {r : Except Exc (Merge.Res op)} (hop : Permitted hands tasks op)
    (h : TaskTable.rowsAnswer tasks tasks' op r) : Later hands tasks tasks' := by
  refine ⟨fun k t hk => ?_, fun hcalm k t' hk => ?_⟩
  · obtain ⟨t', hk', hwrote⟩ := TaskTable.find_after h hk
    exact ⟨t', hk', hwrote.avid, hwrote.finished hop.1⟩
  · obtain ⟨t, hk', hwrote⟩ := TaskTable.find_before h hk
    refine ⟨t, hk', fun hactive => ?_⟩
    cases hwrote with
    | kept => exact hactive
    | @moved s f now hmove =>
      subst hmove
      -- a state that is taken up is written over one that is active already
      exact (hop.2 hcalm).resolve_right (by simpa using hactive)
    | noted now hnote => exact hactive

structure Inv (py : Casing) (hands : Bool) (s : System) : Prop where
  sound : TaskTable.Sound s.world.tasks
  service : ∀ tasks, Relation.ReflTransGen Enqueues s.world.tasks tasks →
    s.service.wp TaskTable.answers (Permitted hands) (fun _ _ => True) (fun _ _ => True) tasks
  auto : ∀ tasks, Later hands s.world.tasks tasks →
    s.auto.wp (among py hands) (Fresh hands) (fun _ _ => True) (fun _ _ => True) { s.world with tasks }
  /-- What has been queued still has its row. -/
  kept : ∀ x ∈ s.world.made, ∃ k t, s.world.tasks.find k = some t ∧ t.avid = x.1
  /-- Until a round queues a title, all that has been queued had its row as the round began. -/
  before : s.world.queued = false → ∀ x ∈ s.world.made, ∃ t ∈ s.world.began.rows, t.avid = x.1
  nodup : (s.world.made.map (·.1)).Nodup
  untouched : ∀ x ∈ s.world.made, Untouched x.2 x.1
  alone : hands = false → ∀ j k t u, s.world.tasks.find j = some t → s.world.tasks.find k = some u →
    t.state.active = true → u.state.active = true → j = k

/-- The table goes on, and the rounds see no more of it than `Later` says. -/
theorem Inv.later (h : Inv py hands s) {tasks : TaskTable} {service : Merge.M Unit} (hs : TaskTable.Sound tasks)
    (hlater : Later hands s.world.tasks tasks)
    (hservice : ∀ tasks', Relation.ReflTransGen Enqueues tasks tasks' →
      service.wp TaskTable.answers (Permitted hands) (fun _ _ => True) (fun _ _ => True) tasks') :
    Inv py hands { s with world := { s.world with tasks }, service } where
  sound := hs
  service := hservice
  auto tasks' h' := h.auto tasks' (hlater.trans h')
  kept x hx := by
    obtain ⟨k, t, hk, havid⟩ := h.kept x hx
    obtain ⟨t', hk', havid', -⟩ := hlater.kept k t hk
    exact ⟨k, t', hk', havid'.trans havid⟩
  before := h.before
  nodup := h.nodup
  untouched := h.untouched
  alone hcalm j k t u ht hu htactive huactive := by
    obtain ⟨t', ht', hactive⟩ := hlater.calm hcalm j t ht
    obtain ⟨u', hu', hactive'⟩ := hlater.calm hcalm k u hu
    exact h.alone hcalm j k t' u' ht' hu' (hactive htactive) (hactive' huactive)

/-- A round goes on: it looks around, or it queues a title that was fresh. -/
theorem Inv.acts (h : Inv py hands s) {op : Op} {k : Except EnqueueExc (Res op) → M Unit} {r : Except EnqueueExc (Res op)} {world : World}
    (hauto : s.auto = .act op k) (hacts : acts py s.world op r world) : Inv py hands { s with world, auto := k r } := by
  have hwp := h.auto s.world.tasks (.refl _)
  rw [hauto] at hwp
  obtain ⟨hfresh, hnext⟩ := hwp
  have hauto' : ∀ tasks, Later hands world.tasks tasks →
      (k r).wp (among py hands) (Fresh hands) (fun _ _ => True) (fun _ _ => True) { world with tasks } :=
    fun tasks hlater => hnext r _ ⟨world, hacts, hlater, rfl⟩
  by_cases hquiet : Quiet op
  · rw [acts_quiet hquiet hacts] at hauto' ⊢
    exact ⟨h.sound, h.service, hauto', h.kept, h.before, h.nodup, h.untouched, h.alone⟩
  · obtain ⟨avid, source, parts, mergedName, rfl⟩ : ∃ avid source parts mergedName, op = .enqueue (.create avid source parts mergedName) := by
      cases op with
      | enqueue op =>
        cases op with
        | create avid source parts mergedName => exact ⟨_, _, _, _, rfl⟩
        | taskDir => exact absurd trivial hquiet
      | _ => exact absurd trivial hquiet
    -- an insertion is the only thing a round changes
    obtain ⟨hqueued, huntouched, hidle, hparts, suffix, hsuffix, hname⟩ := hfresh
    rcases hacts with ⟨id, now, hnew, hopen, rfl, -⟩ | ⟨rfl, -⟩
    · have henqueues : Enqueues s.world.tasks (s.world.tasks.insertNew (.created id avid source parts mergedName now)) :=
        enqueues_of_create hnew hopen hparts hsuffix hname
      have hgrows := h.sound.enqueues henqueues
      have hrow : (s.world.tasks.insertNew (.created id avid source parts mergedName now)).find id =
          some (.created id avid source parts mergedName now) := by
        rw [Table.find_insertNew, if_pos ⟨hnew, rfl⟩]
      have hactive : hands = false → ∀ j t, (s.world.tasks.insertNew (.created id avid source parts mergedName now)).find j = some t →
          t.state.active = true → j = id := by
        intro hcalm j t hj ht
        rw [Table.find_insertNew] at hj
        split at hj
        · rename_i hc
          exact hc.2.symm
        · rw [hidle hcalm j t hj] at ht
          cases ht
      refine ⟨hgrows.1, fun tasks htasks => h.service tasks (.head henqueues htasks), hauto', ?_, ?_, ?_, ?_, ?_⟩
      · intro x hx
        rcases List.mem_cons.1 hx with rfl | hx
        · exact ⟨id, _, hrow, rfl⟩
        · obtain ⟨j, t, hj, havid⟩ := h.kept x hx
          exact ⟨j, t, hgrows.2.keeps j t hj, havid⟩
      · rintro ⟨⟩
      · -- what was queued before had its row as the round began, and this title had none
        refine List.nodup_cons.2 ⟨fun hmem => ?_, h.nodup⟩
        obtain ⟨x, hx, havid⟩ := List.mem_map.1 hmem
        obtain ⟨t, ht, htavid⟩ := h.before hqueued x hx
        exact huntouched t ht (htavid.trans havid)
      · intro x hx
        rcases List.mem_cons.1 hx with rfl | hx
        · exact huntouched
        · exact h.untouched x hx
      · intro hcalm j k t u hj hk ht hu
        rw [hactive hcalm j t hj ht, hactive hcalm k u hk hu]
    · exact ⟨h.sound, h.service, hauto', h.kept, h.before, h.nodup, h.untouched, h.alone⟩

theorem Inv.next (hupper : ∀ s, py.upper (py.upper s) = py.upper s) (h : Inv py hands s) (hs : Next py hands s s') : Inv py hands s' := by
  cases hs with
  | enqueued hhands henqueues =>
    subst hhands
    have hgrows := h.sound.enqueues henqueues
    exact h.later hgrows.1 (later_of_grows hgrows.2) fun tasks' h' => h.service tasks' (.head henqueues h')
  | operates m a ha =>
    exact h.later h.sound (.refl _) fun tasks' h' => wp_operation m a ha (h.sound.grown h').1
  | @serves op k r tasks hservice hraises hrows =>
    have hwp := h.service s.world.tasks .refl
    rw [hservice] at hwp
    have hs := (h.sound.wrote hwp.1.1 hrows).1
    exact h.later hs (later_of_answer hwp.1 hrows) fun tasks' h' => hwp.2 r tasks' ⟨hraises, tasks, hrows, h'⟩
  | polls =>
    refine ⟨h.sound, h.service, fun tasks hlater => wp_step hupper ⟨hlater, rfl, rfl⟩, h.kept, fun _ x hx => ?_, h.nodup, h.untouched, h.alone⟩
    obtain ⟨k, t, hk, havid⟩ := h.kept x hx
    exact ⟨t, Table.mem_of_find hk, havid⟩
  | acts hauto hacts => exact h.acts hauto hacts

theorem Inv.start : Inv py hands .start where
  sound := by
    have hnone : ∀ k t, (Table.empty : TaskTable).find k ≠ some t := fun k t h => by cases h
    exact ⟨fun k t h => absurd h (hnone k t), fun j k t u h => absurd h (hnone j t), fun j k t u h => absurd h (hnone j t)⟩
  service _ _ := trivial
  auto _ _ := trivial
  kept _ hx := absurd hx List.not_mem_nil
  before _ _ hx := absurd hx List.not_mem_nil
  nodup := List.nodup_nil
  untouched _ hx := absurd hx List.not_mem_nil
  alone _ _ _ _ _ h := by cases h

theorem Reached.inv (hupper : ∀ s, py.upper (py.upper s) = py.upper s) (h : Reached py hands s) : Inv py hands s := by
  induction h with
  | refl => exact .start
  | tail _ hs ih => exact ih.next hupper hs

/-- No title is ever queued automatically twice, nor one that had a task when the round began. -/
theorem Reached.queued_once (hupper : ∀ s, py.upper (py.upper s) = py.upper s) (h : Reached py hands s) :
    (s.world.made.map (·.1)).Nodup ∧ ∀ x ∈ s.world.made, ∀ t ∈ x.2.rows, t.avid ≠ x.1 :=
  ⟨(h.inv hupper).nodup, (h.inv hupper).untouched⟩

/-- While nobody enqueues or retries by hand, one title at most is under way. -/
theorem Reached.one_under_way (hupper : ∀ s, py.upper (py.upper s) = py.upper s) (h : Reached py false s) :
    (s.world.tasks.rows.filter (·.state.active)).length ≤ 1 :=
  filter_length_le_one ((h.inv hupper).alone rfl)

end reached

/-! ## One title, two rounds -/

section sample

/-- Names that are upper-cased already. -/
def plain : Casing := ⟨id, id⟩

def sampleTree : StrmTree := Doubled.twoParts

theorem sample_scanned : Scanned plain "/l" [Doubled.two] := by
  have hscan : scanMultipart plain sampleTree "/l" = [Doubled.two] := by
    refine Doubled.scan_two ?_ ?_ <;> with_unfolding_all decide
  refine ⟨sampleTree, ?_, hscan.symm⟩
  intro d hd name hname stem index hpart
  obtain rfl : d = (["AB-1"], ["AB-1-cd2.strm", "AB-1-cd1.strm"]) := List.mem_singleton.1 hd
  have hstem : stem = "AB-1" := by
    have hnames : ∀ name ∈ ["AB-1-cd2.strm", "AB-1-cd1.strm"], ((partName name).map (·.1)) = some "AB-1" := by
      with_unfolding_all decide
    have hname := hnames name hname
    rw [hpart] at hname
    exact Option.some.inj hname
  subst hstem
  with_unfolding_all decide

def sampleListing : List CloudFile :=
  [⟨"AB-1-cd1.ts", ["v", "AB", "AB-1-cd1.ts"], 5, false, []⟩, ⟨"AB-1-cd2.ts", ["v", "AB", "AB-1-cd2.ts"], 6, false, []⟩]

/-- The library has one title in two parts. -/
def sampleServe (w : World) : (op : Op) → Except EnqueueExc (Res op) × World
  | .mergeConfig => (.ok ⟨true, false, true, 0, "/w", ["l"]⟩, w)
  | .archive => (.ok ⟨"/l", ⟨[["in"]], fun _ _ => some ["in"], fileSuffix plain⟩⟩, w)
  | .mapping => (.ok "/m", w)
  | .unavailable => (.ok false, w)
  | .cloud => (.ok true, w)
  | .now => (.ok (0 : Time), w)
  | .openTasks => (.ok (w.tasks.rows.filter fun t => !t.state.finished), w)
  | .cancelledAvids => (.ok ((w.tasks.rows.filter (·.state = .cancelled)).map (·.avid)), w)
  | .mergedAvids => (.ok ((w.tasks.rows.filter (·.state = .done)).map (·.avid)), w)
  | .lastDoneAt => (.ok none, w)
  | .titles _ libraryRoot _ => (if libraryRoot = "/l" then .ok ([Doubled.two], 0) else .error (.outside "OSError"), w)
  | .scan _ _ libraryRoot => (if libraryRoot = "/l" then .ok [Doubled.two] else .error (.outside "OSError"), w)
  | .freeSpace _ => (.ok (100 : Int), w)
  | .listDirectory .. => (.ok sampleListing, w)
  | .wake => (.ok (), w)
  | .memory => (.ok w.memory, w)
  | .remember memory => (.ok (), { w with memory })
  | .enqueue (.taskDir _) => (.ok none, w)
  | .enqueue (.create avid source parts mergedName) =>
    if w.tasks.find 1 = none ∧ ∀ t ∈ w.tasks.rows, t.avid = avid → t.state.finished = true then
      (.ok (MergeTask.created 1 avid source parts mergedName 0), w.with (.created 1 avid source parts mergedName 0))
    else (.error (.outside "ConnectionError"), w)

theorem sampleServe_acts (w : World) (op : Op) : acts plain w op (sampleServe w op).1 (sampleServe w op).2 := by
  cases op with
  | openTasks =>
    refine ⟨rfl, ?_⟩
    rintro found ⟨⟩
    exact .refl _
  | cancelledAvids | mergedAvids =>
    refine ⟨rfl, ?_⟩
    rintro avids ⟨⟩ avid
    simp [and_assoc]
  | titles root libraryRoot refresh =>
    refine ⟨rfl, fun found hfound => ?_⟩
    by_cases hroot : libraryRoot = "/l"
    · simp only [sampleServe, hroot, if_true] at hfound
      obtain rfl := Except.ok.inj hfound
      exact hroot ▸ sample_scanned
    · simp [sampleServe, hroot] at hfound
  | scan root directory libraryRoot =>
    refine ⟨rfl, fun found hfound => ?_⟩
    by_cases hroot : libraryRoot = "/l"
    · simp only [sampleServe, hroot, if_true] at hfound
      obtain rfl := Except.ok.inj hfound
      exact hroot ▸ sample_scanned
    · simp [sampleServe, hroot] at hfound
  | memory => exact ⟨rfl, rfl⟩
  | remember memory => exact ⟨rfl, rfl⟩
  | enqueue op =>
    cases op with
    | taskDir avid => rfl
    | create avid source parts mergedName =>
      by_cases hfree : w.tasks.find 1 = none ∧ ∀ t ∈ w.tasks.rows, t.avid = avid → t.state.finished = true
      · simp only [sampleServe, if_pos hfree]
        exact .inl ⟨1, 0, hfree.1, hfree.2, rfl, .inl rfl⟩
      · simp only [sampleServe, if_neg hfree]
        exact .inr ⟨rfl, .inl ⟨_, rfl⟩⟩
  | _ => rfl

/-- A round to its end, with nobody else about. -/
def sampleRound (w : World) : World := (Prog.exec sampleServe { w with began := w.tasks, queued := false } (step plain)).2

theorem next_exec {service : Merge.M Unit} (p : M Unit) (w : World) :
    ∃ p', Relation.ReflTransGen (Next plain false) ⟨w, service, p⟩ ⟨(Prog.exec sampleServe w p).2, service, p'⟩ := by
  induction p generalizing w with
  | ret a => exact ⟨_, .refl⟩
  | raise e => exact ⟨_, .refl⟩
  | act op k ih =>
    obtain ⟨p', h⟩ := ih (sampleServe w op).1 (sampleServe w op).2
    exact ⟨p', .head (.acts rfl (sampleServe_acts w op)) h⟩

theorem Reached.round {w : World} {service : Merge.M Unit} {p : M Unit} (h : Reached plain false ⟨w, service, p⟩) :
    ∃ p', Reached plain false ⟨sampleRound w, service, p'⟩ := by
  obtain ⟨p', hround⟩ := next_exec (step plain) { w with began := w.tasks, queued := false }
  exact ⟨p', h.trans (.head .polls hround)⟩

/-- The second round finds the first one's task under way. -/
def sampleWorld : World := sampleRound (sampleRound System.start.world)

theorem sample_reached : ∃ service p, Reached plain false ⟨sampleWorld, service, p⟩ := by
  have hstart : Reached plain false ⟨System.start.world, .ret (), .ret ()⟩ := .refl
  obtain ⟨p, h⟩ := hstart.round
  obtain ⟨p', h'⟩ := h.round
  unfold sampleWorld
  exact ⟨_, p', h'⟩

/-- The one title is queued, once. -/
theorem sample_ends : sampleWorld.made.map (·.1) = ["AB-1"] ∧ sampleWorld.tasks.rows.map (·.state) = [.queued] := by
  decide +kernel

theorem sample_queued_once : sampleWorld.made.map (·.1) = ["AB-1"] ∧ (sampleWorld.made.map (·.1)).Nodup ∧
    ∀ x ∈ sampleWorld.made, ∀ t ∈ x.2.rows, t.avid ≠ x.1 := by
  have hmade := sample_ends.1
  obtain ⟨service, p, hreached⟩ := sample_reached
  generalize sampleWorld = w at hmade hreached ⊢
  exact ⟨hmade, hreached.queued_once fun _ => rfl⟩

theorem sample_one_under_way : sampleWorld.tasks.rows.map (·.state) = [.queued] ∧
    (sampleWorld.tasks.rows.filter (·.state.active)).length ≤ 1 := by
  have hrows := sample_ends.2
  obtain ⟨service, p, hreached⟩ := sample_reached
  generalize sampleWorld = w at hrows hreached ⊢
  exact ⟨hrows, hreached.one_under_way fun _ => rfl⟩

end sample

end EmbyxManager.Merge.Auto
