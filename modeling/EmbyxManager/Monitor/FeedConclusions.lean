import EmbyxManager.Monitor.Components
import EmbyxManager.Monitor.Holdings
import EmbyxManager.Monitor.Ingest
/-!
# What a poll of a feed leaves behind

Every AVID a poll sighted has come to one of its ends when the cursor is stored.
One of them is nobody's: magnets were offered, CloudDrive took none, and a row
that discovery left without a timer still has none. Another takes what the
library shows for the title itself, also where it is the copy being replaced.
-/

namespace EmbyxManager
open Atom Prog AcquisitionRepository

/-! ## Stranded AVIDs -/

/-- The tracker has the AVID, it is settled, or `due_for_retry` comes back to it. -/
def Settled : Option AcquisitionRecord → Prop
  | none => False
  | some r =>
    r.state = .downloading ∨ r.state = .archived ∨ (r.state ∈ AcquisitionState.due ∧ r.nextActionAt.isSome)

instance : DecidablePred Settled
  | none => inferInstanceAs (Decidable False)
  | some r => inferInstanceAs (Decidable (r.state = .downloading ∨ r.state = .archived ∨
      (r.state ∈ AcquisitionState.due ∧ r.nextActionAt.isSome)))

/-- The row had no timer, the library lacked the AVID, magnets were offered, and
CloudDrive took none of them. -/
def Course.Turned (c : Course) (rd : Readers) (magnet : Option String) (row₀ : Option AcquisitionRecord) : Prop :=
  row₀.bind (·.nextActionAt) = none ∧ c.held = [] ∧ c.offered rd magnet ≠ [] ∧ c.taken = false

section Ends
variable {rd : Readers} {magnet : Option String} {row₀ row : Option AcquisitionRecord} {c : Course}

theorem ends_settled_iff (h : Ends rd magnet row₀ row c)
    (h₀ : ∀ r, row₀ = some r → r.state ∈ AcquisitionState.recheckable) : Settled row ↔ ¬ c.Turned rd magnet row₀ := by
  cases h with
  | @refused r hr htimer =>
    have hin : r.state ∈ AcquisitionState.recheckable := h₀ r hr
    refine iff_of_true (.inr (.inr ⟨?_, htimer hin⟩)) fun ht => ht.2.2.1 rfl
    revert hin
    cases r.state <;> decide
  | held hstate hheld => exact iff_of_true (.inr (.inl hstate)) fun ht => hheld ht.2.1
  | parked hstate htimer hheld hoffered =>
    refine iff_of_true (.inr (.inr ⟨by rw [hstate]; decide, htimer⟩)) fun ht => ht.2.2.1 hoffered
  | submitted hstate hheld htaken => exact iff_of_true (.inl hstate) fun ht => by rw [ht.2.2.2] at htaken; cases htaken
  | @untaken r c hwait hheld hoffered htaken =>
    obtain ⟨hin, htimer⟩ := hwait
    have settled : Settled (some r) ↔ r.nextActionAt.isSome := by
      constructor
      · rintro (h | h | h)
        · rw [h] at hin
          exact absurd hin (by decide)
        · rw [h] at hin
          exact absurd hin (by decide)
        · exact h.2
      · refine fun h => .inr (.inr ⟨?_, h⟩)
        revert hin
        cases r.state <;> decide
    rw [settled, htimer]
    constructor
    · intro hsome ht
      rw [ht.1] at hsome
      cases hsome
    · intro hnot
      refine Option.isSome_iff_ne_none.2 fun hnone => hnot ⟨hnone, hheld, hoffered, htaken⟩

/-- Where the row was there to be worked on, it is concluded exactly when the library showed the AVID. -/
theorem ends_archived_iff (h : Ends rd magnet row₀ row c)
    (h₀ : ∀ r, row₀ = some r → r.state ∈ AcquisitionState.recheckable) :
    (∃ r, row = some r ∧ r.state = .archived) ↔ c.held ≠ [] := by
  cases h with
  | @refused r hr htimer =>
    refine iff_of_false ?_ fun h => h rfl
    rintro ⟨r', hr', hstate⟩
    cases hr'
    have hin : r.state ∈ AcquisitionState.recheckable := h₀ r hr
    rw [hstate] at hin
    revert hin
    decide
  | @held r c hstate hheld => exact iff_of_true ⟨r, rfl, hstate⟩ hheld
  | parked hstate htimer hheld | submitted hstate hheld =>
    refine iff_of_false ?_ fun h => h hheld
    rintro ⟨r', hr', harch⟩
    cases hr'
    rw [hstate] at harch
    cases harch
  | @untaken r c hwait hheld =>
    refine iff_of_false ?_ fun h => h hheld
    rintro ⟨r', hr', harch⟩
    cases hr'
    have hin := hwait.1
    rw [harch] at hin
    revert hin
    decide

end Ends

section Poll
variable {p : Rss} {run : RssRun} {category : RssCategory} {s : SubscriptionRecord} {items : List FeedItem}
  {l : Ledger} {start : Time} {avid : Avid} {item : FeedItem}

theorem pollItems_ends {run' : RssRun} {w : World Unit}
    (hrun : Runs (World.Step (fun _ _ => True) ()) ⟨l, start, []⟩ (p.pollItems run category s items) (.ok run') w)
    (hi : Sighted p s items avid item) :
    Ends p.intake.readers (p.intake.readers.magnetFromHtml item.content avid) (l.acq avid) (w.ledger.acq avid)
      (course avid (w.history ())) := by
  have hpoll : (p.pollItems run category s items).wp (World.Step (fun _ _ => True) ()) (fun _ _ => True)
      (fun _ => Tracks avid (Ends p.intake.readers (p.intake.readers.magnetFromHtml item.content avid) (l.acq avid)))
      (fun _ _ => True) ⟨l, start, []⟩ := wp_pollItems category hi ⟨rfl, rfl⟩
  have hends := wp_runs_ok hpoll hrun
  exact hends

/-- For every AVID a poll that stored its cursor has sighted, and that discovery accepts or
leaves to its timer: it is not stranded, exactly when it was not turned away without a timer. -/
theorem stranded_iff {run' : RssRun} {w : World Unit}
    (hrun : Runs (World.Step (fun _ _ => True) ()) ⟨l, start, []⟩ (p.pollItems run category s items) (.ok run') w)
    (hi : Sighted p s items avid item) (h₀ : ∀ r, l.acq avid = some r → r.state ∈ AcquisitionState.recheckable) :
    Settled (w.ledger.acq avid) ↔
      ¬ (course avid (w.history ())).Turned p.intake.readers (p.intake.readers.magnetFromHtml item.content avid)
        (l.acq avid) :=
  ends_settled_iff (pollItems_ends hrun hi) h₀

/-- A feed with one new item, under a category of its own. -/
def newsItem : FeedItem := ⟨"news-1", some "ABC-123", none, ""⟩

def newsCategory : RssCategory := ⟨"news", "/inbox"⟩

def newsRss : Rss := { smallSetup.rss with categories := [newsCategory] }

def newsSubscription : SubscriptionRecord where
  id := 1
  kind := .rss
  category := "news"
  enabled := true
  url := some "feed"
  talentId := none
  name := none
  aliases := []
  cursor := []
  seedPending := false

theorem newsItem_sighted : Sighted newsRss newsSubscription [newsItem] "ABC-123" newsItem := ⟨rfl, by decide⟩

/-- Sukebei offers one magnet; the library shows `held`, and CloudDrive answers `add`. -/
def newsOutside (held : List String) (add : Bool) : World.Outside
  | .libraryHoldings .. => .ok held
  | .sukebei _ => .ok (some "magnet:AAA")
  | .javbus _ => .ok []
  | .addOfflineFiles .. => .ok add
  | .recordPoll .. => .ok ()
  | _ => .error ⟨.fileNotFound, trivial⟩

/-- The poll of that feed, alone. -/
def newsPoll (l : Ledger) (held : List String) (add : Bool) : Except Exn RssRun × World Unit :=
  World.play () (1, newsOutside held add) ⟨l, 0, []⟩ (newsRss.pollItems ⟨[], []⟩ newsCategory newsSubscription [newsItem])

theorem newsPoll_runs (l : Ledger) (held : List String) (add : Bool)
    (h : (newsPoll l held add).1.toOption.isSome = true) :
    ∃ run', Runs (World.Step (fun _ _ => True) ()) ⟨l, 0, []⟩
      (newsRss.pollItems ⟨[], []⟩ newsCategory newsSubscription [newsItem]) (.ok run') (newsPoll l held add).2 := by
  obtain ⟨run', hrun⟩ := Option.isSome_iff_exists.1 h
  exact ⟨run', World.play_returns hrun⟩

/-- CloudDrive takes the magnet, and the tracker has the AVID. -/
theorem stranded_iff_taken :
    Settled ((newsPoll .empty [] true).2.ledger.acq "ABC-123") ↔
      ¬ (course "ABC-123" ((newsPoll .empty [] true).2.history ())).Turned plainReaders none none := by
  obtain ⟨run', hrun⟩ := newsPoll_runs .empty [] true (by decide)
  exact stranded_iff hrun newsItem_sighted fun r hr => by cases hr

/-- CloudDrive refuses the only magnet: the row is left as discovery made it, without a timer. -/
theorem stranded_turned_away :
    ∃ run' w, Runs (World.Step (fun _ _ => True) ()) ⟨.empty, 0, []⟩
        (newsRss.pollItems ⟨[], []⟩ newsCategory newsSubscription [newsItem]) (.ok run') w ∧
      Sighted newsRss newsSubscription [newsItem] "ABC-123" newsItem ∧ ¬ Settled (w.ledger.acq "ABC-123") := by
  obtain ⟨run', hrun⟩ := newsPoll_runs .empty [] false (by decide)
  exact ⟨run', _, hrun, newsItem_sighted, by decide⟩

/-! ## Pending replacements -/

/-- Only what the library showed concludes the AVID. -/
def Grounded (avid : Avid) (w : World Unit) : Prop :=
  (∃ r, w.ledger.acq avid = some r ∧ r.state = .archived) → (course avid (w.history ())).held ≠ []

theorem acq_archived {s : Sql} {l l' : Ledger} {a : s.Res} (h : s.Gives l a l') (hs : Op.concludes (.sql s) = false)
    (ha : ∃ r, l'.acq avid = some r ∧ r.state = .archived) : ∃ r, l.acq avid = some r ∧ r.state = .archived := by
  obtain ⟨r, hr, hstate⟩ := ha
  by_cases hrow : s.row = some avid
  · -- of the statements on this row only a conclusion makes it ARCHIVED
    cases s with
    | insertAcquisition a' =>
      cases hrow
      simp only [Sql.Gives, Sql.run, Except.ok.injEq] at h
      rw [← show _ = l' from congrArg Prod.snd h, Ledger.acq_insertAcquisition] at hr
      split at hr
      · cases hr; cases hstate
      · exact ⟨r, hr, hstate⟩
    | setReleaseDate =>
      cases hrow
      simp only [Sql.Gives, Sql.run, Except.ok.injEq] at h
      rw [← show _ = l' from congrArg Prod.snd h, Ledger.acq_setReleaseDate] at hr
      obtain ⟨r₀, hr₀, rfl⟩ := Option.map_eq_some_iff.1 hr
      refine ⟨r₀, hr₀, ?_⟩
      split at hstate <;> exact hstate
    | casAcquisition a' expected target =>
      cases hrow
      simp only [Sql.Gives, Sql.run, Except.ok.injEq] at h
      rw [← show _ = l' from congrArg Prod.snd h, Ledger.acq_casAcquisition] at hr
      obtain ⟨r₀, hr₀, rfl⟩ := Option.map_eq_some_iff.1 hr
      refine ⟨r₀, hr₀, ?_⟩
      split at hstate
      · simp only [Op.concludes, decide_eq_false_iff_not] at hs
        exact absurd hstate hs
      · exact hstate
    | setTaskDir | setNextActionAt =>
      cases hrow
      simp only [Sql.Gives, Sql.run, Except.ok.injEq, Prod.mk.injEq] at h
      rw [← h.2] at hr
      simp only [Ledger.acq_setTaskDir, Ledger.acq_setNextActionAt, if_true] at hr
      obtain ⟨r₀, hr₀, rfl⟩ := Option.map_eq_some_iff.1 hr
      exact ⟨r₀, hr₀, hstate⟩
    | beginReplacement a' source dir paths now =>
      cases hrow
      simp only [Sql.Gives, Sql.run, Except.ok.injEq] at h
      rw [← show _ = l' from congrArg Prod.snd h, Ledger.beginReplacement] at hr
      split at hr
      · rename_i hnone
        have := (Table.find_insertNew ..).symm.trans hr
        rw [if_pos ⟨hnone, rfl⟩] at this
        cases this
        cases hstate
      · split at hr
        · rename_i hsome _
          simp only [Ledger.acq_updateAcquisition, hsome, Option.map_some, and_self, if_true, Option.some.injEq] at hr
          subst hr
          cases hstate
        · exact ⟨r, hr, hstate⟩
    | _ => cases hrow
  · exact ⟨r, (Sql.acq_frame h hrow).symm.trans hr, hstate⟩

theorem held_after {c : Course} {mine : Option Avid} (e : Event) (h : c.held ≠ []) : (c.after avid mine e).held ≠ [] := by
  unfold Course.after
  split
  · split
    · simp [h]
    · exact h
  all_goals first | exact h | (split <;> exact h)

theorem grounded_step {A : Policy} {w w' : World Unit} {op : Op} {r : Except Exn op.Res} (hop : op.concludes = false)
    (h : Grounded avid w) (ht : World.Step A () w op r w') : Grounded avid w' := by
  intro ha
  rw [history_step ht]
  refine held_after _ (h ?_)
  rcases ledger_step ht with hl | ⟨s, a, rfl, hg⟩
  · rwa [hl] at ha
  · exact acq_archived hg hop ha

theorem grounded_quiet {A : Policy} {α : Type} {q : M α} (hq : q.Uses Quiet) :
    q.Keeps (World.Step A ()) (fun _ _ => True) (Grounded avid) (fun _ => Grounded avid) :=
  keeps_of_uses hq (fun _ _ _ _ => trivial) fun _ _ _ _ hop h ht => grounded_step hop.2.2 h ht

theorem grounded_skipHeld {A : Policy} (wanted : Wanted) :
    (Rss.skipHeld wanted).Keeps (World.Step A ()) (fun _ _ => True) (Grounded avid) (fun _ => Grounded avid) := by
  by_cases ha : wanted.avid = avid
  · subst ha
    -- once the library has shown a copy, nothing that follows can be groundless
    have shown : ∀ {α : Type} (q : M α) (w : World Unit), (course wanted.avid (w.history ())).held ≠ [] →
        q.wp (World.Step A ()) (fun _ _ => True) (fun _ => Grounded wanted.avid) (fun _ => Grounded wanted.avid) w := by
      intro α q w hw
      have hk := keeps_of_uses (C := fun _ => True) (T := World.Step A ()) (G := fun _ _ => True) (p := q)
        (I := fun w => (course wanted.avid (w.history ())).held ≠ []) (uses_any q) (fun _ _ _ _ => trivial)
        fun w op r w' _ h ht => by rw [history_step ht]; exact held_after _ h
      exact wp_mono (hk w hw) (fun _ _ h _ => h) fun _ _ h _ => h
    intro w hw
    unfold Rss.skipHeld
    rw [wp_bind]
    refine wp_mono (grounded_quiet (q := checkCancelled (.library _)) (uses_ok ⟨rfl, rfl, rfl⟩) w hw) (fun _ w₁ hw => ?_) fun _ _ h => h
    rw [wp_bind, wp_attempt, wp_call]
    refine ⟨trivial, fun held w₂ ht => ?_, fun e w₂ ht => grounded_step rfl hw ht⟩
    cases held with
    | nil => exact grounded_step rfl hw ht
    | cons path paths =>
      refine shown _ w₂ ?_
      rw [history_step ht]
      simp [course, Course.after]
  · refine keeps_of_uses (elsewhere_skipHeld ha) (fun _ _ _ _ => trivial) fun w op r w' hop h ht => ?_
    have hs := stands_elsewhere hop (stands_here avid w) ht
    unfold Grounded
    rw [hs.row, hs.course]
    exact h

/-- A poll concludes no AVID but those the library showed. -/
theorem grounded_pollItems {A : Policy} :
    (p.pollItems run category s items).Keeps (World.Step A ()) (fun _ _ => True) (Grounded avid)
      (fun _ => Grounded avid) := by
  have quiet : ∀ {α : Type} {q : M α}, q.Uses Quiet →
      q.Keeps (World.Step A ()) (fun _ _ => True) (Grounded avid) (fun _ => Grounded avid) := fun hq => grounded_quiet (A := A) hq
  have recorded {run : RssRun} {cursor : Option (List String)} : Uses Quiet (do
      let at_ ← now
      ask (.recordPoll s.id at_ cursor none)
      pure run : M RssRun) := by
    exact uses_bind (uses_ok ⟨rfl, rfl, rfl⟩) fun _ => uses_bind (uses_ok ⟨rfl, rfl, rfl⟩) fun _ => trivial
  unfold Rss.pollItems
  split
  · exact quiet recorded
  · refine keeps_bind ?_ fun run => quiet recorded
    unfold Rss.ingestFresh Rss.ingest
    split
    · exact keeps_pure _
    · refine keeps_bind (quiet (uses_ok ⟨rfl, rfl, rfl⟩)) fun at_ => ?_
      refine keeps_bind (quiet (uses_foldEach (fun acc x _ => Rss.uses_sight p category at_ acc x) _)) fun acc => ?_
      obtain ⟨run, wanted⟩ := acc
      dsimp only
      split
      · exact keeps_pure _
      · refine keeps_bind (quiet (uses_ok ⟨rfl, rfl, rfl⟩)) fun _ => keeps_bind ?_ fun kept => ?_
        · refine keeps_foldEach (fun x _ kept => keeps_bind (grounded_skipHeld x) fun skipped => ?_) _
          split <;> exact keeps_pure _
        · split
          · exact keeps_pure _
          · refine keeps_bind (quiet (uses_ok ⟨rfl, rfl, rfl⟩)) fun _ => ?_
            refine keeps_bind (quiet (Rss.uses_resolveAll p _)) fun resolved => ?_
            refine keeps_bind (quiet (uses_ok ⟨rfl, rfl, rfl⟩)) fun _ => ?_
            exact keeps_bind (quiet (Rss.uses_submitAll p _)) fun _ => keeps_pure _

/-- An answer of the library about the AVID, with the directory it was asked for. -/
def librarySaid (avid : Avid) : Event → Option (Option String × List String)
  | ⟨.ask (.libraryHoldings a taskDirPath), .ok paths⟩ => if a = avid then some (taskDirPath, paths) else none
  | _ => none

def libraryAnswers (avid : Avid) (h : List Event) : List (Option String × List String) := h.filterMap (librarySaid avid)

/-- What was answered is what `library_holdings` says of this library. -/
def Checks (cfg : TaskDirs.ArchiveConfig) (brandMapping : List (String × List String)) (avid : Avid) (L : Library) (h : List Event) : Prop :=
  ∀ answer ∈ libraryAnswers avid h,
    ∃ L', Runs (LibraryStep []) L (Archive.libraryHoldings cfg brandMapping avid answer.1) (.ok answer.2) L'

/-- The library holds a copy of the AVID that is not of `old`. -/
def Library.HoldsAnother (L : Library) (routes : LibraryRoutes) (avid : Avid) (old : LibraryFile → Prop) : Prop :=
  ∃ f, L.Holds routes avid f ∧ ¬ old f

/-- The library was not asked or did not answer, it holds no copy of the AVID, or it holds one that is not of `old`. -/
def NotOldAlone (L : Library) (routes : LibraryRoutes) (avid : Avid) (old : LibraryFile → Prop) (h : List Event) : Prop :=
  libraryAnswers avid h = [] ∨ (∀ f, ¬ L.Holds routes avid f) ∨ L.HoldsAnother routes avid old

theorem held_after_eq (c : Course) (mine : Option Avid) (e : Event) :
    (c.after avid mine e).held = ((librarySaid avid e).elim [] (·.2)) ++ c.held := by
  unfold Course.after
  split
  · rename_i a taskDirPath paths
    by_cases ha : a = avid <;> simp [librarySaid, ha]
  · split <;> rfl
  · split <;> rfl
  · split <;> rfl
  · rename_i hnot _ _ _
    unfold librarySaid
    split
    · exact absurd rfl (hnot _ _ _)
    · rfl

theorem held_eq (h : List Event) : (course avid h).held = (libraryAnswers avid h).flatMap (·.2) := by
  induction h with
  | nil => rfl
  | cons e h ih =>
    rw [course, held_after_eq, ih, libraryAnswers, libraryAnswers, List.filterMap_cons]
    cases librarySaid avid e <;> rfl

/-- The library shows a copy exactly where it answered and holds one. -/
theorem held_iff_holds {cfg : TaskDirs.ArchiveConfig} {brandMapping : List (String × List String)} {L : Library} {h : List Event}
    (hcheck : Checks cfg brandMapping avid L h) : (course avid h).held ≠ [] ↔
      libraryAnswers avid h ≠ [] ∧ ∃ f, L.Holds (Archive.routesOf cfg brandMapping) avid f := by
  rw [held_eq, Ne, List.flatMap_eq_nil_iff]
  constructor
  · intro h
    simp only [not_forall] at h
    obtain ⟨answer, hmem, hne⟩ := h
    obtain ⟨L', hruns⟩ := hcheck answer hmem
    exact ⟨List.ne_nil_of_mem hmem, (libraryHoldings_shows hruns).1 hne⟩
  · rintro ⟨hne, hholds⟩ hall
    obtain ⟨answer, hmem⟩ := List.exists_mem_of_ne_nil _ hne
    obtain ⟨L', hruns⟩ := hcheck answer hmem
    exact (libraryHoldings_shows hruns).2 hholds (hall answer hmem)

/-- A poll that finds a row to be worked on, and a copy that is to be replaced (`old`, wherever it lies when the library
is asked), concludes it for another copy only, exactly when the library does not hold the old copy alone; and what does
not end normally concludes it for nothing else either. -/
theorem replacement_concluded_iff {r₀ : AcquisitionRecord} (h₀ : l.acq avid = some r₀)
    (hstate : r₀.state ∈ AcquisitionState.recheckable) (cfg : TaskDirs.ArchiveConfig) (brandMapping : List (String × List String))
    (L : Library) (old : LibraryFile → Prop) :
    (∀ out w, Runs (World.Step (fun _ _ => True) ()) ⟨l, start, []⟩ (p.pollItems run category s items) out w →
      Checks cfg brandMapping avid L (w.history ()) → NotOldAlone L (Archive.routesOf cfg brandMapping) avid old (w.history ()) →
      (∃ r, w.ledger.acq avid = some r ∧ r.state = .archived) → L.HoldsAnother (Archive.routesOf cfg brandMapping) avid old) ∧
    ∀ run' w, Runs (World.Step (fun _ _ => True) ()) ⟨l, start, []⟩ (p.pollItems run category s items) (.ok run') w →
      Checks cfg brandMapping avid L (w.history ()) → ∀ item, Sighted p s items avid item →
      (((∃ r, w.ledger.acq avid = some r ∧ r.state = .archived) → L.HoldsAnother (Archive.routesOf cfg brandMapping) avid old) ↔
        NotOldAlone L (Archive.routesOf cfg brandMapping) avid old (w.history ())) := by
  have start_grounded : Grounded avid ⟨l, start, []⟩ := by
    rintro ⟨r, hr, ha⟩
    obtain rfl : r₀ = r := Option.some.inj (h₀.symm.trans hr)
    exact absurd (ha ▸ hstate) (by decide)
  constructor
  · intro out w hrun hcheck hcond ha
    have hg : (p.pollItems run category s items).wp (World.Step (fun _ _ => True) ()) (fun _ _ => True)
        (fun _ => Grounded avid) (fun _ => Grounded avid) ⟨l, start, []⟩ := grounded_pollItems _ start_grounded
    have hw : Grounded avid w := by
      have hboth := wp_runs hg hrun
      cases out with
      | ok run' => exact hboth.1 run' rfl
      | error e => exact hboth.2 e rfl
    obtain ⟨hanswered, f, hf⟩ := (held_iff_holds hcheck).1 (hw ha)
    rcases hcond with hnot | hnone | hother
    · exact absurd hnot hanswered
    · exact absurd hf (hnone f)
    · exact hother
  · intro run' w hrun hcheck item hi
    -- a poll that ends has concluded the row exactly when its check found something
    have harch := ends_archived_iff (pollItems_ends hrun hi) fun r hr => by
      have : r₀ = r := Option.some.inj (h₀.symm.trans hr)
      exact this ▸ hstate
    rw [harch, held_iff_holds hcheck]
    unfold NotOldAlone
    constructor
    · intro h
      by_cases hanswered : libraryAnswers avid (w.history ()) = []
      · exact .inl hanswered
      · by_cases hholds : ∃ f, L.Holds (Archive.routesOf cfg brandMapping) avid f
        · exact .inr (.inr (h ⟨hanswered, hholds⟩))
        · exact .inr (.inl (not_exists.1 hholds))
    · rintro (hnot | hnone | hother) ⟨hanswered, f, hf⟩
      · exact absurd hnot hanswered
      · exact absurd hf (hnone f)
      · exact hother

end Poll

/-- ABC-123 is to be fetched again, to replace the copy the library holds. -/
def replacingLedger : Ledger := Ledger.after .empty [.beginReplacement "ABC-123" "manual" "/inbox" ["sorted/ABC/ABC-123.mp4"] 0]

/-- The inbox is a priority route. -/
def priorityInbox : TaskDirs.ArchiveConfig := ⟨"/dl", [("all", "sorted")], [("inbox", "vip")]⟩

def oldCopy : LibraryFile := ⟨⟨"sorted", "ABC"⟩, "ABC-123.mp4"⟩

/-- The check of a library. -/
def checkOf (files : List LibraryFile) : Except Exn (List String) × Library :=
  exec Library.run ⟨files, [], []⟩ (Archive.libraryHoldings priorityInbox [] "ABC-123" (some "/inbox"))

theorem run_step (L : Library) (op : LibraryOp) : LibraryStep [] L op (L.run op).1 (L.run op).2 := by
  cases op with
  | outside o =>
    cases o with
    | ask q =>
      cases q with
      | largeVideos => exact ⟨rfl, .inr ⟨_, rfl, trivial⟩⟩
      | _ => exact ⟨rfl, .inr ⟨_, rfl, trivial⟩⟩
    | _ => exact ⟨rfl, .inr ⟨_, rfl, trivial⟩⟩
  | _ => exact .inl rfl

/-- The poll's one check of ABC-123 is answered as this library is. -/
theorem newsPoll_checks (files : List LibraryFile) (paths : List String) (l : Ledger) (hpaths : (checkOf files).1 = .ok paths)
    (h : libraryAnswers "ABC-123" ((newsPoll l paths true).2.history ()) = [(some "/inbox", paths)]) :
    Checks priorityInbox [] "ABC-123" ⟨files, [], []⟩ ((newsPoll l paths true).2.history ()) := by
  intro answer hanswer
  rw [h, List.mem_singleton] at hanswer
  subst hanswer
  exact ⟨(checkOf files).2, hpaths ▸ exec_runs run_step _ _⟩

/-- Besides the old copy the library holds another, and the replacement is concluded for that. -/
theorem replacement_concluded_another :
    ∃ run' w, Runs (World.Step (fun _ _ => True) ()) ⟨replacingLedger, 0, []⟩
        (newsRss.pollItems ⟨[], []⟩ newsCategory newsSubscription [newsItem]) (.ok run') w ∧
      (((∃ r, w.ledger.acq "ABC-123" = some r ∧ r.state = .archived) →
          Library.HoldsAnother ⟨[oldCopy, ⟨⟨"sorted", "ABC"⟩, "ABC-123.mkv"⟩], [], []⟩ (Archive.routesOf priorityInbox []) "ABC-123" (· = oldCopy)) ↔
        NotOldAlone ⟨[oldCopy, ⟨⟨"sorted", "ABC"⟩, "ABC-123.mkv"⟩], [], []⟩ (Archive.routesOf priorityInbox []) "ABC-123" (· = oldCopy)
          (w.history ())) := by
  obtain ⟨run', hrun⟩ := newsPoll_runs replacingLedger ["vip/ABC/ABC-123.mkv", "vip/ABC/ABC-123.mp4"] true (by decide)
  have hrow : replacingLedger.acq "ABC-123" = some
      { avid := "ABC-123", state := .discovered, source := "manual", taskDirPath := some "/inbox",
        replacePaths := ["sorted/ABC/ABC-123.mp4"], replaceAfterAttempt := some 0, createdAt := 0, updatedAt := 0 } := by
    decide
  have hchecks := newsPoll_checks [oldCopy, ⟨⟨"sorted", "ABC"⟩, "ABC-123.mkv"⟩] ["vip/ABC/ABC-123.mkv", "vip/ABC/ABC-123.mp4"]
    replacingLedger (by with_unfolding_all decide) (by decide)
  exact ⟨run', _, hrun, (replacement_concluded_iff hrow (by decide) priorityInbox [] _ _).2 run' _ hrun hchecks newsItem newsItem_sighted⟩

/-- The library holds the copy to be replaced, and nothing else: the check moves it into the priority directory, and the
replacement is concluded for it. -/
theorem replacement_concluded_by_old_copy :
    ∃ run' w, Runs (World.Step (fun _ _ => True) ()) ⟨replacingLedger, 0, []⟩
        (newsRss.pollItems ⟨[], []⟩ newsCategory newsSubscription [newsItem]) (.ok run') w ∧
      (replacingLedger.acq "ABC-123").any (fun r => r.replacePaths = [Archive.LibraryFile.display oldCopy] ∧ r.state = .discovered) = true ∧
      Checks priorityInbox [] "ABC-123" ⟨[oldCopy], [], []⟩ (w.history ()) ∧
      (w.ledger.acq "ABC-123").any (fun r => r.state = .archived ∧ r.replacePaths = []) = true := by
  obtain ⟨run', hrun⟩ := newsPoll_runs replacingLedger ["vip/ABC/ABC-123.mp4"] true (by decide)
  exact ⟨run', _, hrun, by with_unfolding_all decide, newsPoll_checks _ _ _ (by with_unfolding_all decide) (by decide), by decide⟩

end EmbyxManager
