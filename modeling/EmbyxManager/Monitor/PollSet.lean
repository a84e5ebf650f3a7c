import Mathlib.Data.List.Dedup
import EmbyxManager.Monitor.Grace
import EmbyxManager.Monitor.Submissions
/-!
# Which directories a poll looks at

A poll lists the directories configured when it starts and those pinned on active rows, and
its sweep goes through every attempt in flight. The directory a magnet was queued under is
nowhere recorded: once no source declares it and the row that pins it is not active any more,
the download is in no listing, and is declared lost.
-/

namespace EmbyxManager
open Atom Prog AcquisitionRepository

/-! ## The tracker's pass -/

/-- `_polled_task_dirs`: the configured directories, and those of the active rows. -/
def polledTaskDirs (configured : List String) : M (List String) := do
  let dirs ← activeTaskDirs
  pure (configured ++ dirs).eraseDups

/-- `tracker_poll`: a poll over the directories of today, then whatever is due; a poll that raised still does. -/
def trackerPass (t : Tracker) (intake : Option Intake) (configured : List String) (fallbackTaskDir : Option String) :
    M Unit := do
  let taskDirPaths ← polledTaskDirs configured
  let polled ← (Tracker.poll { t with taskDirPaths }).attempt
  forSome intake fun i => Intake.retryDue i fallbackTaskDir
  match polled with
  | .ok () => pure ()
  | .error e => .raise e

/-! ## What a pass saw -/

def Op.lists : Op → Bool
  | .ask (.listOfflineFiles _) => true
  | _ => false

def Op.losesAttempt : Op → Bool
  | .sql (.casAttempt _ _ _ .lost _ _) => true
  | _ => false

/-- The directory whose tasks were listed. -/
def listedDir (e : Event) : Option String :=
  match e with
  | ⟨.ask (.listOfflineFiles taskDir), .ok _⟩ => some taskDir
  | _ => none

/-- The directories of the active rows, as this action read them. -/
def readDirs (e : Event) : Option (List String) :=
  match e with
  | ⟨.sql .activeTaskDirs, .ok dirs⟩ => some dirs
  | _ => none

/-- The first answer of a kind. -/
def firstOf {β : Type} (f : Event → Option β) : List Event → Option β
  | [] => none
  | e :: h => (firstOf f h).or (f e)

/-- The directories as the pass read them first. -/
abbrev firstRead : List Event → Option (List String) := firstOf readDirs

/-- The pass has listed what was configured and what it read, and nothing else. -/
def Surveyed (configured : List String) (h : List Event) : Prop :=
  ∃ dirs, firstRead h = some dirs ∧ ∀ dir, dir ∈ h.filterMap listedDir ↔ dir ∈ configured ∨ dir ∈ dirs

/-- An attempt is declared lost after the survey. -/
def Surveying (configured : List String) (h : List Event) (op : Op) : Prop := op.losesAttempt = true → Surveyed configured h

section Logs
variable {ι : Type} [DecidableEq ι]

/-- The directory a magnet was last queued under. -/
def queueDir (magnet : String) : List (Entry ι) → Option String
  | [] => none
  | ⟨_, _, _, .ask (.addOfflineFiles links taskDir), .ok true⟩ :: log =>
    if magnet ∈ links then some taskDir else queueDir magnet log
  | _ :: log => queueDir magnet log

/-- The ledger that gave `i` its first answer of a kind. -/
def firstLedger {β : Type} (f : Event → Option β) (i : ι) : List (Entry ι) → Option Ledger
  | [] => none
  | e :: log => (firstLedger f i log).or (if e.who = i ∧ (f e.event).isSome then some e.before else none)

/-- The ledger a pass read its directories from. -/
abbrev surveyLedger (i : ι) : List (Entry ι) → Option Ledger := firstLedger readDirs i

/-- A source declares the directory, or an active row is pinned to it. -/
def Watched (configured : List String) (l : Ledger) (dir : String) : Prop :=
  dir ∈ configured ∨ ∃ avid row, l.acq avid = some row ∧ row.state ∈ AcquisitionState.active ∧ row.taskDirPath = some dir

/-- The pass of `i` declares an attempt lost only if it listed the directory its magnet was queued under. -/
def LostListed (i : ι) (log : List (Entry ι)) : Prop :=
  ∀ e past k r dir, e :: past <:+ log → e.who = i → e.lost = some k → e.before.att k = some r →
    queueDir r.magnet past = some dir → ∃ e' ∈ past, e'.who = i ∧ listedDir e'.event = some dir

/-- Whenever it does, that directory was watched when it read its directories. -/
def LostWatched (configured : List String) (i : ι) (log : List (Entry ι)) : Prop :=
  ∀ e past k r dir, e :: past <:+ log → e.who = i → e.lost = some k → e.before.att k = some r →
    queueDir r.magnet past = some dir → ∃ l, surveyLedger i past = some l ∧ Watched configured l dir

end Logs

/-! ## The guard of a pass -/

section Pass
variable {configured : List String} {α : Type} {p : M α}

theorem surveyed_cons {op : Op} {r : Except Exn op.Res} {h : List Event} (hop : op.lists = false) (hs : Surveyed configured h) :
    Surveyed configured (⟨op, r⟩ :: h) := by
  obtain ⟨dirs, hfirst, hlisted⟩ := hs
  refine ⟨dirs, ?_, fun dir => ?_⟩
  · simp [firstOf, show firstOf readDirs h = some dirs from hfirst]
  · have hnone : listedDir ⟨op, r⟩ = none := by
      cases op with
      | ask q =>
        cases q with
        | listOfflineFiles => cases hop
        | _ => rfl
      | _ => rfl
    rw [List.filterMap_cons_none hnone]
    exact hlisted dir

/-- After the survey, a program that lists nothing may do what it likes. -/
theorem keeps_surveyed (hp : Uses (fun op => op.lists = false) p) :
    p.Keeps (recorded known) (Surveying configured) (Surveyed configured) fun _ _ => True := by
  refine keeps_mono (keeps_of_uses hp (fun h op _ hs _ => hs) ?_) fun _ _ _ => trivial
  rintro h op r _ hop hs ⟨-, rfl⟩
  exact surveyed_cons hop hs

theorem lists_of_busy {op : Op} (hop : Busy op) : op.lists = false := by
  cases op with
  | ask q =>
    cases q with
    | listOfflineFiles => cases hop
    | _ => rfl
  | _ => rfl

theorem lists_of_quiet {op : Op} (hop : Quiet op) : op.lists = false := lists_of_busy hop.1.busy

/-- What declares nothing lost may be asked before the survey too. -/
theorem keeps_surveying (hp : Uses Quiet p) :
    p.Keeps (recorded known) (Surveying configured) (fun _ => True) fun _ _ => True := by
  refine keeps_mono (keeps_of_uses hp (fun h op hop _ hl => ?_) fun _ _ _ _ _ _ _ => trivial) fun _ _ _ => trivial
  cases op with
  | sql s =>
    cases s with
    | casAttempt avid no expected target at_ error =>
      obtain ⟨⟨-, rfl⟩, -⟩ := hop
      cases hl
    | _ => cases hl
  | _ => cases hl

end Pass

namespace Tracker
variable (t : Tracker) {configured : List String}

theorem lists_sweepOne (byHash : Listing) (at_ : Time) (attempt : MagnetAttemptRecord) :
    Uses (fun op => op.lists = false) (t.sweepOne byHash at_ attempt) := by
  unfold sweepOne
  refine uses_bind (uses_ok rfl) fun _ => uses_ite trivial (uses_ite trivial ?_)
  refine uses_bind (uses_ok rfl) fun found => ?_
  split
  · exact uses_mono (t.uses_archiveOrphaned _ _ _) fun _ hop => lists_of_busy hop.busy
  · exact uses_discard (t.uses_giveUp (fun _ => lists_of_quiet) attempt _ fun _ => rfl)

theorem lists_sweepLost (byHash : Listing) : Uses (fun op => op.lists = false) (t.sweepLost byHash) := by
  unfold sweepLost
  exact uses_bind (uses_ok rfl) fun at_ => uses_bind (uses_ok rfl) fun attempts =>
    uses_forEach fun attempt _ => t.lists_sweepOne byHash at_ attempt

/-- What is left of a poll once it has its join. -/
abbrev steps (byHash : Listing) (joined : List (InfoHash × MagnetAttemptRecord)) : M Unit := do
  Prog.forEach joined (t.consider byHash)
  t.sweepLost byHash
  clearArchived byHash

theorem lists_steps (byHash : Listing) (joined : List (InfoHash × MagnetAttemptRecord)) :
    Uses (fun op => op.lists = false) (t.steps byHash joined) := by
  refine uses_bind (uses_forEach fun j _ => uses_mono (t.uses_consider byHash j) fun _ => lists_of_busy) fun _ => ?_
  exact uses_bind (t.lists_sweepLost byHash) fun _ => uses_mono (uses_clearArchived byHash) fun _ => lists_of_quiet

theorem wp_listTasks_surveyed {dirs : List String} {h : List Event} (hfirst : firstRead h = some dirs)
    (hnone : h.filterMap listedDir = []) (hdirs : ∀ dir, dir ∈ t.taskDirPaths ↔ dir ∈ configured ∨ dir ∈ dirs) :
    t.listTasks.wp (recorded known) (Surveying configured) (fun _ => Surveyed configured) (fun _ _ => True) h := by
  unfold listTasks
  refine wp_foldEach (fun left _ h => firstRead h = some dirs ∧
    ∀ dir, dir ∈ h.filterMap listedDir ∨ dir ∈ left ↔ dir ∈ configured ∨ dir ∈ dirs) ?_ ?_ ⟨hfirst, fun dir => ?_⟩
  · rintro taskDir left byHash h ⟨hfirst, hlisted⟩
    rw [wp_bind, wp_call_recorded]
    refine ⟨fun hl => (nomatch hl), fun _ _ => ?_, fun _ _ => trivial⟩
    rw [wp_bind, wp_call_recorded]
    refine ⟨fun hl => (nomatch hl), fun tasks _ => ⟨by simp [firstOf, hfirst], fun dir => ?_⟩, fun _ _ => trivial⟩
    rw [← hlisted dir, List.mem_cons]
    change dir ∈ taskDir :: h.filterMap listedDir ∨ _ ↔ _
    rw [List.mem_cons]
    tauto
  · rintro byHash h ⟨hfirst, hlisted⟩
    exact ⟨dirs, hfirst, fun dir => by simpa using hlisted dir⟩
  · rw [hnone]
    simpa using hdirs dir

theorem surveying_poll {dirs : List String} {h : List Event} (hfirst : firstRead h = some dirs)
    (hnone : h.filterMap listedDir = []) (hdirs : ∀ dir, dir ∈ t.taskDirPaths ↔ dir ∈ configured ∨ dir ∈ dirs) :
    t.poll.wp (recorded known) (Surveying configured) (fun _ _ => True) (fun _ _ => True) h := by
  unfold poll
  refine wp_ite (fun _ => trivial) fun _ => ?_
  rw [wp_bind]
  refine wp_mono (t.wp_listTasks_surveyed hfirst hnone hdirs) (fun byHash h hs => ?_) fun _ _ h => h
  have rest : Uses (fun op => op.lists = false) (do
      let attempts ← attemptsByInfoHash (byHash.map (·.1))
      t.steps byHash attempts : M Unit) := by
    refine uses_bind ?_ fun attempts => t.lists_steps byHash attempts
    unfold attemptsByInfoHash
    exact uses_ite trivial (uses_bind (uses_ok rfl) fun _ => trivial)
  exact wp_mono (keeps_surveyed rest h hs) (fun _ _ _ => trivial) fun _ _ _ => trivial

end Tracker

/-- A pass declares lost only after its survey. -/
theorem surveying_pass (t : Tracker) (intake : Option Intake) (configured : List String) (fallback : Option String) :
    (trackerPass t intake configured fallback).wp (recorded known) (Surveying configured) (fun _ _ => True)
      (fun _ _ => True) [] := by
  have leg : ∀ (polled : Except Exn Unit) (h : List Event), (do
      forSome intake fun i => Intake.retryDue i fallback
      match polled with
      | .ok () => pure ()
      | .error e => .raise e : M Unit).wp (recorded known) (Surveying configured) (fun _ _ => True) (fun _ _ => True) h := by
    intro polled h
    refine keeps_surveying (uses_bind (uses_forSome fun i => Intake.uses_retryDue i _ _) fun _ => ?_) h trivial
    cases polled <;> trivial
  unfold trackerPass polledTaskDirs
  rw [wp_bind, wp_bind, wp_call_recorded]
  refine ⟨fun hl => (nomatch hl), fun dirs _ => ?_, fun _ _ => trivial⟩
  rw [wp_pure, wp_bind, wp_attempt]
  refine wp_mono (Tracker.surveying_poll _ rfl rfl fun dir => ?_) (fun u h _ => leg (.ok u) h) fun e h _ => leg (.error e) h
  simp

/-! ## Every run -/

section Runs
variable {ι : Type} [DecidableEq ι] {i : ι} {configured : List String}

/-- What the log says of the passes. -/
structure PollLog (configured : List String) (i : ι) (w : World ι) : Prop where
  surveyed : ∀ e past, e :: past <:+ w.log → e.who = i → e.event.op.losesAttempt = true →
    Surveyed configured (ownEvents i past)
  answered : ∀ e ∈ w.log, ∀ dirs, readDirs e.event = some dirs → dirs = e.before.activeTaskDirs

theorem mem_activeTaskDirs {l : Ledger} {dir : String} :
    dir ∈ l.activeTaskDirs ↔
      ∃ avid row, l.acq avid = some row ∧ row.state ∈ AcquisitionState.active ∧ row.taskDirPath = some dir := by
  simp only [Ledger.activeTaskDirs, List.mem_insertionSort, List.mem_dedup, List.mem_filterMap, List.mem_filter,
    decide_eq_true_eq]
  constructor
  · rintro ⟨row, ⟨hrow, hstate⟩, hdir⟩
    exact ⟨row.avid, row, Table.find_eq_some.2 ⟨hrow, rfl⟩, hstate, hdir⟩
  · rintro ⟨avid, row, hrow, hstate, hdir⟩
    exact ⟨row, ⟨(Table.find_eq_some.1 hrow).1, hstate⟩, hdir⟩

theorem mem_listed {log : List (Entry ι)} {dir : String} :
    dir ∈ (ownEvents i log).filterMap listedDir ↔ ∃ e ∈ log, e.who = i ∧ listedDir e.event = some dir := by
  simp only [ownEvents, List.mem_filterMap, Option.ite_none_right_eq_some, Option.some.injEq]
  constructor
  · rintro ⟨event, ⟨e, he, hwho, rfl⟩, hdir⟩
    exact ⟨e, he, hwho, hdir⟩
  · rintro ⟨e, he, hwho, hdir⟩
    exact ⟨e.event, ⟨e, he, hwho, rfl⟩, hdir⟩

/-- What was answered first is what the ledger said then. -/
theorem firstOf_ledger {β : Type} {f : Event → Option β} {g : Ledger → β} {log : List (Entry ι)}
    (h : ∀ e ∈ log, ∀ b, f e.event = some b → b = g e.before) :
    firstOf f (ownEvents i log) = (firstLedger f i log).map g := by
  induction log with
  | nil => rfl
  | cons e log ih =>
    have rest := ih fun e' he' => h e' (List.mem_cons_of_mem _ he')
    rw [ownEvents_cons, firstLedger]
    by_cases hwho : e.who = i
    · rw [if_pos hwho, firstOf, rest]
      cases hread : f e.event with
      | none => simp
      | some b => cases firstLedger f i log <;> simp [hwho, h e List.mem_cons_self b hread]
    · simp [hwho, rest]

omit [DecidableEq ι] in
theorem losesAttempt_of_lost {e : Entry ι} {k : AttemptKey} (h : e.lost = some k) : e.event.op.losesAttempt = true := by
  unfold Entry.lost at h
  split at h
  · rename_i he
    rw [he]
    rfl
  · cases h

theorem pollLog_step {w w' : World ι} {j : ι} {op : Op} {r : Except Exn op.Res} (hi : PollLog configured i w)
    (hG : j = i → Surveying configured (w.history j) op) (ht : World.Step known j w op r w') : PollLog configured i w' := by
  obtain ⟨t, l', -, -, ha, rfl⟩ := ht
  constructor
  · rintro e past hsuf hwho hlost
    rcases List.suffix_cons_iff.1 hsuf with heq | hsuf
    · cases heq
      cases hwho
      exact hG rfl hlost
    · exact hi.surveyed e past hsuf hwho hlost
  · rintro e he dirs hread
    rcases List.mem_cons.1 he with rfl | he
    · unfold readDirs at hread
      split at hread
      · rename_i heq
        cases heq
        cases hread
        simp only [Answers, Sql.Gives, Sql.run, Except.ok.injEq, Prod.mk.injEq] at ha
        exact ha.1.symm
      · cases hread
    · exact hi.answered e he dirs hread

/-- What a pass lists, and what it could have known to list, is the same. -/
theorem listed_watched {w : World ι} (hi : PollLog configured i w) {e : Entry ι} {past : List (Entry ι)}
    (hsuf : e :: past <:+ w.log) (hwho : e.who = i) {k : AttemptKey} (hlost : e.lost = some k) (dir : String) :
    (∃ e' ∈ past, e'.who = i ∧ listedDir e'.event = some dir) ↔
      ∃ l, surveyLedger i past = some l ∧ Watched configured l dir := by
  obtain ⟨dirs, hfirst, hlisted⟩ := hi.surveyed e past hsuf hwho (losesAttempt_of_lost hlost)
  have hpast : ∀ e' ∈ past, ∀ dirs, readDirs e'.event = some dirs → dirs = e'.before.activeTaskDirs :=
    fun e' he' => hi.answered e' (hsuf.subset (List.mem_cons_of_mem _ he'))
  rw [firstRead, firstOf_ledger hpast, Option.map_eq_some_iff] at hfirst
  obtain ⟨l, hl, rfl⟩ := hfirst
  rw [← mem_listed, hlisted dir, mem_activeTaskDirs, surveyLedger, hl]
  simp [Watched]

/-- A pass declares an attempt lost only if it listed the directory the magnet was queued under, exactly
when that directory was configured, or pinned on an active row, as the pass read its directories. -/
theorem lost_listed_iff {t : Tracker} {intake : Option Intake} {fallbackTaskDir : Option String} {l : Ledger} {start : Time}
    {prog : ι → M Unit} (hi : prog i = trackerPass t intake configured fallbackTaskDir) {c : Pool Op.Res Exn Unit (World ι) ι}
    (h : Pool.Reach (World.Step fun _ _ => True) ⟨⟨l, start, []⟩, prog⟩ c) :
    LostListed i c.world.log ↔ LostWatched configured i c.world.log := by
  have step : ∀ (j : ι) w op r w', World.Step (fun _ _ => True) j w op r w' → World.Step known j w op r w' := by
    rintro j w op r w' ⟨clock, l', hc, -, ha, hw⟩
    exact ⟨clock, l', hc, answers_known ha, ha, hw⟩
  have hlog : PollLog configured i c.world := by
    refine (World.reach_inv step (fun j h op => j = i → Surveying configured h op) (PollLog configured i)
      (fun _ _ _ _ _ hi hG ht => pollLog_step hi hG (step _ _ _ _ _ ht)) ?_ rfl (fun j => ?_) h).1
    · exact ⟨fun e past hsuf => by simp at hsuf, fun e he => by cases he⟩
    · by_cases hj : j = i
      · subst hj
        dsimp only
        rw [hi]
        simpa using surveying_pass t intake configured fallbackTaskDir
      · exact keeps_mono (keeps_of_uses (I := fun _ => True) (uses_any (prog j)) (fun _ _ _ _ hji => absurd hji hj)
          fun _ _ _ _ _ _ _ => trivial) (fun _ _ _ => trivial) [] trivial
  constructor
  · intro hl e past k r dir hsuf hwho hlost hr hq
    exact (listed_watched hlog hsuf hwho hlost dir).1 (hl e past k r dir hsuf hwho hlost hr hq)
  · intro hl e past k r dir hsuf hwho hlost hr hq
    exact (listed_watched hlog hsuf hwho hlost dir).2 (hl e past k r dir hsuf hwho hlost hr hq)

end Runs

/-! ## A download under a directory no source declares -/

namespace PollSetExample

inductive Actor where
  | submit | operator | pass
  deriving DecidableEq

def program : Actor → M Unit
  | .submit => discard (Intake.enqueue plainIntake "ABC-123" "manual" "/gone")
  | .operator => discard (Dashboard.ignoreAcquisition "ABC-123")
  | .pass => trackerPass oneDirTracker none ["/inbox"] none

def acts (who : Actor) (n gap : Nat) : List (Actor × (Nat × World.Outside)) :=
  List.replicate n (who, (gap * 1000000, emptyListing))

def initially : Pool Op.Res Exn Unit (World Actor) Actor := ⟨⟨.empty, 0, []⟩, program⟩

/-- The row still pins the directory when the pass comes, long after the grace. -/
def pinned : List (Actor × (Nat × World.Outside)) := acts .submit 11 1 ++ acts .pass 11 400

/-- The operator ignores the AVID in between. -/
def ignored : List (Actor × (Nat × World.Outside)) := acts .submit 11 1 ++ acts .operator 3 1 ++ acts .pass 9 400

/-- The last action of `i` declares an attempt lost, and it never listed the directory of its magnet. -/
def lostUnseen (i : Actor) : List (Entry Actor) → Bool
  | [] => false
  | e :: past => decide (e.who = i) && e.lost.any fun k => (e.before.att k).any fun r => (queueDir r.magnet past).any fun dir =>
      past.all fun e' => !(decide (e'.who = i) && decide (listedDir e'.event = some dir))

theorem not_lostListed {i : Actor} {log : List (Entry Actor)} (h : lostUnseen i log = true) : ¬ LostListed i log := by
  cases log with
  | nil => cases h
  | cons e past =>
    simp only [lostUnseen, Bool.and_eq_true, decide_eq_true_eq, Option.any_eq_true, List.all_eq_true, Bool.not_eq_true',
      Bool.and_eq_false_iff, decide_eq_false_iff_not] at h
    obtain ⟨hwho, k, hk, r, hr, dir, hdir, hnone⟩ := h
    intro hl
    obtain ⟨e', he', hwho', hlisted⟩ := hl e past k r dir (List.suffix_refl _) hwho hk hr hdir
    rcases hnone e' he' with h | h
    · exact h hwho'
    · exact h hlisted

end PollSetExample

open PollSetExample in
/-- As long as the row pins it, the directory is listed before its download is declared lost. -/
theorem lost_listed_pinned :
    (World.schedule pinned initially).world.log.head?.bind Entry.lost = some ("ABC-123", 1) ∧
      queueDir "magnet:AA" (World.schedule pinned initially).world.log = some "/gone" ∧
      (LostListed .pass (World.schedule pinned initially).world.log ↔
        LostWatched ["/inbox"] .pass (World.schedule pinned initially).world.log) := by
  refine ⟨by decide, by decide, ?_⟩
  exact lost_listed_iff (rfl : program .pass = trackerPass oneDirTracker none ["/inbox"] none) (World.reach_schedule pinned initially)

open PollSetExample in
/-- Once the operator has ignored the AVID, nobody looks where its magnet went, and the download is declared lost. -/
theorem lost_unlisted :
    ∃ c, Pool.Reach (World.Step fun _ _ => True) initially c ∧ ¬ LostListed .pass c.world.log :=
  ⟨_, World.reach_schedule ignored initially, not_lostListed (by decide)⟩

end EmbyxManager
