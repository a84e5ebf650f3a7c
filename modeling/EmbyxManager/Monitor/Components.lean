import EmbyxManager.Monitor.Footprint
/-!
# The components side by side

Everything that writes the ledger: the tracker's poll, the intake and the RSS
runs, the two library sweeps, and what an operator asks for. Apart from the
poll, none of them moves an attempt but to give a refused one back.
-/

namespace EmbyxManager
open Atom Prog AcquisitionRepository Archive

/-- How the application is put together. -/
structure Setup where
  tracker : Tracker
  intake : Intake
  rss : Rss
  scanner : Scanner
  sweeper : Sweeper
  dashboard : Dashboard
  replacement : ReplacementSource

/-- One run of one component, or one request of an operator. -/
inductive Component where
  | poll
  | enqueue (avid : Avid) (source taskDirPath : String) (itemMagnet : Option String) (releaseDate : Option Date)
  | queue (avid : Avid) (source taskDirPath : String) (releaseDate : Option Date)
  | retryDue (fallbackTaskDir : Option String) (limit : Nat)
  | rss
  | reconcile (scan : Scan)
  | moveIn
  | retry (avid : Avid)
  | magnet (avid : Avid) (magnet : String)
  | ignore (avid : Avid)
  | resume (avid : Avid)
  | replace (text : String) (magnet : Option String)

def Component.prog (s : Setup) : Component → M Unit
  | poll => s.tracker.poll
  | enqueue avid source dir m date => discard (Intake.enqueue s.intake avid source dir m date)
  | queue avid source dir date => discard (Intake.queue avid source dir date)
  | retryDue dir limit => Intake.retryDue s.intake dir limit
  | rss => s.rss.run
  | reconcile scan => discard (s.scanner.run scan)
  | moveIn => s.sweeper.run
  | retry avid => discard (s.dashboard.retryAcquisition avid)
  | magnet avid m => discard (s.dashboard.addMagnet avid m)
  | ignore avid => discard (Dashboard.ignoreAcquisition avid)
  | resume avid => discard (Dashboard.resumeAcquisition avid)
  | replace text m => discard (s.replacement.start text m)

theorem Quiet.mild {op : Op} (h : Quiet op) : Mild op := h.1

section
variable {α : Type} {p : M α}

theorem uses_quiet (h : Uses Quiet p) : Uses Mild p := uses_mono h fun _ => Quiet.mild

theorem uses_still (h : Uses Still p) : Uses Mild p := uses_mono h fun _ h => h.1

end

/-! ## The intake -/

namespace Intake

theorem uses_resolve (i : Intake) (avid : Avid) (itemMagnet : Option String) : Uses Quiet (resolve i avid itemMagnet) := by
  unfold resolve
  refine uses_bind (uses_ok ⟨rfl, rfl, rfl⟩) fun sukebei => uses_bind (uses_attempt (uses_ok ⟨rfl, rfl, rfl⟩)) fun r => ?_
  cases r <;> trivial

theorem uses_resolveOrNone (i : Intake) (avid : Avid) (itemMagnet : Option String) :
    Uses Quiet (resolveOrNone i avid itemMagnet) := by
  unfold resolveOrNone
  refine uses_bind (uses_attempt (uses_resolve i avid itemMagnet)) fun r => ?_
  cases r <;> trivial

theorem uses_addOffline (link taskDir : String) (n : Nat) : Uses Quiet (addOffline link taskDir n) := by
  induction n with
  | zero => exact uses_ok ⟨rfl, rfl, rfl⟩
  | succ n ih =>
    refine uses_bind (uses_attempt (uses_ok ⟨rfl, rfl, rfl⟩)) fun r => ?_
    cases r with
    | ok success => trivial
    | error e =>
      dsimp only
      split
      · exact ih
      · trivial

theorem uses_addMagnet (link taskDir : String) : Uses Quiet (addMagnet link taskDir) := by
  unfold addMagnet
  refine uses_bind (uses_attempt (uses_addOffline _ _ _)) fun r => ?_
  rcases r with e | _ | _
  · cases e <;> trivial
  · trivial
  · trivial

theorem uses_markDownloading (avid : Avid) (at_ : Time) : Uses Quiet (markDownloading avid at_) := by
  unfold markDownloading
  refine uses_bind (uses_ok ⟨rfl, rfl, rfl⟩) fun record => ?_
  split
  · trivial
  · split
    · trivial
    · exact uses_discard (uses_transition ⟨rfl, rfl, rfl⟩)

theorem uses_submitNext (avid : Avid) (taskDir : String) (limit : Nat) : Uses Quiet (submitNext avid taskDir limit) := by
  induction limit with
  | zero => trivial
  | succ limit ih =>
    unfold submitNext
    refine uses_bind (uses_ok ⟨rfl, rfl, rfl⟩) fun at_ => uses_bind (uses_claimNextPending _ _) fun claimed => ?_
    split
    · trivial
    · refine uses_bind (uses_addMagnet _ _) fun outcome => ?_
      cases outcome with
      | failed => exact uses_bind (uses_refused _ _ _ _) fun _ => ih
      | duplicate => exact uses_bind (uses_markDownloading _ _) fun _ => trivial
      | success => exact uses_bind (uses_markDownloading _ _) fun _ => trivial

theorem uses_recordAndSubmit (i : Intake) (avid : Avid) (candidates : List MagnetCandidate) (taskDir : String) :
    Uses Quiet (recordAndSubmit i avid candidates taskDir) := by
  unfold recordAndSubmit
  refine uses_bind (uses_ok ⟨rfl, rfl, rfl⟩) fun at_ => uses_bind (uses_discard (uses_addAttempts _ _ _)) fun _ => ?_
  exact uses_submitNext _ _ _

theorem uses_repark (i : Intake) (record : AcquisitionRecord) (note : String) : Uses Quiet (repark i record note) := by
  unfold repark
  refine uses_bind (uses_ensureReleaseDate _ _) fun date => uses_bind (uses_ok ⟨rfl, rfl, rfl⟩) fun at_ => ?_
  exact uses_discard (uses_transition ⟨rfl, rfl, rfl⟩)

theorem uses_parkUnresolved (i : Intake) (avid : Avid) : Uses Quiet (parkUnresolved i avid) := by
  unfold parkUnresolved
  refine uses_bind (uses_ok ⟨rfl, rfl, rfl⟩) fun record => ?_
  split
  · trivial
  · split
    · exact uses_repark _ _ _
    · trivial

theorem uses_enqueue (i : Intake) (avid : Avid) (source dir : String) (magnet : Option String) (date : Option Date) :
    Uses Quiet (enqueue i avid source dir magnet date) := by
  unfold enqueue
  refine uses_bind (uses_ok ⟨rfl, rfl, rfl⟩) fun at_ => uses_bind (uses_discover _ _ _) fun found => ?_
  split
  · refine uses_bind (uses_resolveOrNone _ _ _) fun candidates => ?_
    split
    · exact uses_bind (uses_parkUnresolved _ _) fun _ => trivial
    · refine uses_bind (uses_recordAndSubmit _ _ _ _) fun ok => ?_
      split <;> trivial
  · trivial

theorem uses_queue (avid : Avid) (source dir : String) (date : Option Date) : Uses Quiet (queue avid source dir date) := by
  unfold queue
  refine uses_bind (uses_ok ⟨rfl, rfl, rfl⟩) fun at_ => uses_bind (uses_discover _ _ _) fun found => ?_
  split <;> trivial

theorem uses_retry (i : Intake) (record : AcquisitionRecord) (dir : Option String) : Uses Quiet (retry i record dir) := by
  unfold retry
  split
  · exact uses_bind (uses_repark _ _ _) fun _ => trivial
  · refine uses_bind (uses_resolveOrNone _ _ _) fun candidates => ?_
    split
    · exact uses_bind (uses_repark _ _ _) fun _ => trivial
    · refine uses_bind (uses_recordAndSubmit _ _ _ _) fun ok => ?_
      split
      · trivial
      · exact uses_bind (uses_repark _ _ _) fun _ => trivial

theorem uses_retryDue (i : Intake) (dir : Option String) (limit : Nat) : Uses Quiet (retryDue i dir limit) := by
  unfold retryDue
  refine uses_bind (uses_ok ⟨rfl, rfl, rfl⟩) fun at_ => uses_bind (uses_ok ⟨rfl, rfl, rfl⟩) fun records => ?_
  exact uses_forEach fun record _ => uses_discard (uses_retry _ _ _)

end Intake

/-! ## The RSS run -/

namespace Rss
variable (p : Rss)

theorem uses_movedTalent (s : SubscriptionRecord) : Uses Mild (movedTalent p s) := by
  unfold movedTalent
  split
  · refine uses_bind (uses_attempt (uses_ok rfl)) fun r => ?_
    rcases r with e | _ | talent
    · trivial
    · trivial
    · dsimp only
      split
      · trivial
      · split <;> trivial
  · trivial

theorem uses_relinkTalent (run : RssRun) (s : SubscriptionRecord) : Uses Mild (relinkTalent p run s) := by
  unfold relinkTalent
  refine uses_bind (uses_movedTalent p s) fun moved => ?_
  split
  · trivial
  · refine uses_bind (uses_ok rfl) fun at_ => uses_bind (uses_attempt (uses_ok rfl)) fun r => ?_
    rcases r with e | _ | relinked
    · cases e <;> trivial
    · trivial
    · trivial

theorem uses_fetchFeed (run : RssRun) (s : SubscriptionRecord) : Uses Mild (fetchFeed p run s) := by
  unfold fetchFeed
  refine uses_bind (uses_attempt (uses_ok rfl)) fun r => ?_
  cases r with
  | ok items => trivial
  | error e =>
    cases e with
    | httpStatus code =>
      dsimp only
      split
      · trivial
      · refine uses_bind (uses_attempt (uses_relinkTalent p run s)) fun r => ?_
        rcases r with e | _ | ⟨run', relinked⟩
        · trivial
        · trivial
        · refine uses_bind (uses_attempt (uses_ok rfl)) fun r => ?_
          cases r <;> trivial
    | _ => trivial

theorem uses_filingFor (run : RssRun) (avid : Avid) (own : Filing) : Uses Quiet (filingFor p run avid own) := by
  unfold filingFor castOf
  split
  · trivial
  · refine uses_bind (uses_ok ⟨rfl, rfl, rfl⟩) fun record => ?_
    split
    · trivial
    · refine uses_bind ?_ fun answered => ?_
      · split
        · trivial
        · exact uses_bind (uses_attempt (uses_ok ⟨rfl, rfl, rfl⟩)) fun _ => trivial
      · rcases answered with ⟨run, _ | cast⟩ <;> trivial

theorem uses_filingDir (avid : Avid) (filing : Filing) : Uses Quiet (filingDir avid filing) := by
  unfold filingDir
  split
  · trivial
  · refine uses_bind (uses_ok ⟨rfl, rfl, rfl⟩) fun record => ?_
    split <;> trivial

theorem uses_sight (category : RssCategory) (at_ : Time) (acc : RssRun × List Wanted) (sighted : Avid × FeedItem) :
    Uses Quiet (sight p category at_ acc sighted) := by
  unfold sight
  refine uses_bind (uses_filingFor p _ _ _) fun filed => uses_bind (uses_discover _ _ _) fun found => ?_
  split
  · exact uses_bind (uses_filingDir _ _) fun _ => trivial
  · trivial

theorem uses_skipHeld (w : Wanted) : Uses Mild (skipHeld w) := by
  unfold skipHeld
  refine uses_bind (uses_ok rfl) fun _ => uses_bind (uses_attempt (uses_ok rfl)) fun r => ?_
  rcases r with e | _ | _
  · trivial
  · trivial
  · refine uses_bind (uses_ok rfl) fun record => ?_
    split
    · trivial
    · split
      · exact uses_bind (uses_ok rfl) fun at_ => uses_bind (uses_discard (uses_transition rfl)) fun _ => trivial
      · trivial

theorem uses_resolveAll (wanted : List Wanted) : Uses Quiet (resolveAll p wanted) := by
  unfold resolveAll
  refine uses_bind (uses_ok ⟨rfl, rfl, rfl⟩) fun order => uses_bind (uses_foldEach (fun resolved w _ => ?_) _) fun resolved => ?_
  · exact uses_bind (Intake.uses_resolveOrNone _ _ _) fun _ => trivial
  · exact uses_bind (uses_forEach fun w _ => Intake.uses_parkUnresolved _ _) fun _ => trivial

theorem uses_submitAll (resolved : List (Wanted × List MagnetCandidate)) : Uses Quiet (submitAll p resolved) :=
  uses_forEach fun _ _ => uses_bind (uses_ok ⟨rfl, rfl, rfl⟩) fun _ => uses_discard (Intake.uses_recordAndSubmit _ _ _ _)

theorem uses_ingest (run : RssRun) (category : RssCategory) (items : List FeedItem) :
    Uses Mild (ingest p run category items) := by
  unfold ingest
  refine uses_bind (uses_ok rfl) fun at_ =>
    uses_bind (uses_quiet (uses_foldEach (fun acc sighted _ => uses_sight p category at_ acc sighted) _)) fun sighted => ?_
  rcases sighted with ⟨run, wanted⟩
  dsimp only
  split
  · trivial
  · refine uses_bind (uses_ok rfl) fun _ => uses_bind (uses_foldEach (fun kept w _ => ?_) _) fun kept => ?_
    · refine uses_bind (uses_skipHeld w) fun held => ?_
      split <;> trivial
    · split
      · trivial
      · refine uses_bind (uses_ok rfl) fun _ => uses_bind (uses_quiet (uses_resolveAll p _)) fun resolved => ?_
        exact uses_bind (uses_ok rfl) fun _ => uses_bind (uses_quiet (uses_submitAll p _)) fun _ => trivial

theorem uses_pollItems (run : RssRun) (category : RssCategory) (s : SubscriptionRecord) (items : List FeedItem) :
    Uses Mild (pollItems p run category s items) := by
  unfold pollItems ingestFresh
  split
  · exact uses_bind (uses_ok rfl) fun at_ => uses_bind (uses_ok rfl) fun _ => trivial
  · refine uses_bind ?_ fun run => uses_bind (uses_ok rfl) fun at_ => uses_bind (uses_ok rfl) fun _ => trivial
    split
    · trivial
    · exact uses_ingest p run category _

theorem uses_poll (category : RssCategory) (run : RssRun) (s : SubscriptionRecord) : Uses Mild (poll p category run s) := by
  unfold poll pollSubscription
  refine uses_bind (uses_ok rfl) fun _ => uses_bind (uses_bind (uses_fetchFeed p run s) fun fetched => ?_) fun polled => ?_
  · rcases fetched with ⟨run, e | ⟨s, items⟩⟩
    · trivial
    · exact uses_bind (uses_attempt (uses_pollItems p run category s items)) fun _ => trivial
  · rcases polled with ⟨run, e | run'⟩
    · cases e <;> first | trivial | exact uses_bind (uses_ok rfl) fun _ => uses_bind (uses_ok rfl) fun _ => trivial
    · trivial

theorem uses_run : Uses Mild p.run := by
  unfold run
  refine uses_bind (uses_ok rfl) fun subscriptions => uses_bind (uses_discard (uses_foldEach (fun run category _ => ?_) _))
    fun _ => uses_forEach fun s _ => ?_
  · exact uses_foldEach (fun run s _ => uses_poll p category run s) _
  · unfold reportOrphan
    exact uses_bind (uses_ok rfl) fun _ => uses_ok rfl

end Rss

/-! ## The library sweeps -/

theorem mild_recordArchived (source : String) (avid : Avid) (paths : List String) (at_ : Time) :
    Uses Mild (recordArchived source avid paths at_) :=
  uses_recordArchived (fun _ h => h.1.1) source avid paths at_ fun _ _ => rfl

theorem mild_recordAttention (source : String) (avid : Avid) (reason : String) (at_ : Time) :
    Uses Mild (recordAttention source avid reason at_) :=
  uses_recordAttention (fun _ h => h.1.1) source avid reason at_ fun _ _ => rfl

theorem Scanner.uses_run (s : Scanner) (scan : Scan) : Uses Mild (s.run scan) := by
  have reconcileFolder : ∀ scan folder route, Uses Mild (s.reconcileFolder scan folder route) := by
    intro scan folder route
    unfold Scanner.reconcileFolder
    refine uses_bind (uses_still (uses_mono (uses_archiveFolder _ _ _ _ _) fun _ => Asks.still)) fun result => uses_bind (uses_ok rfl) fun at_ => ?_
    split
    · exact uses_bind (mild_recordArchived _ _ _ _) fun _ => trivial
    · split
      · exact uses_bind (mild_recordAttention _ _ _ _) fun _ => trivial
      · trivial
    · trivial
  have scanFolder : ∀ active root route scan folder, Uses Mild (s.scanFolder active root route scan folder) := by
    intro active root route scan folder
    unfold Scanner.scanFolder Scanner.isSettled
    refine uses_bind (uses_ok rfl) fun _ => ?_
    split
    · trivial
    · split
      · trivial
      · refine uses_bind (uses_bind (uses_ok rfl) fun _ => trivial) fun looked => ?_
        rcases looked with ⟨scan, settled⟩
        dsimp only
        split
        · exact reconcileFolder _ _ _
        · trivial
  unfold Scanner.run Scanner.scanRoute
  refine uses_bind (uses_ok rfl) fun active => uses_foldEach (fun scan route _ => ?_) _
  refine uses_bind (uses_ok rfl) fun _ => uses_bind (uses_ok rfl) fun dir => ?_
  split
  · exact uses_bind (uses_ok rfl) fun folders => uses_foldEach (fun scan folder _ => scanFolder _ _ _ _ _) _
  · trivial

theorem Sweeper.uses_run (s : Sweeper) : Uses Mild s.run := by
  have fileGroup : ∀ avid videos dst priority, Uses Mild (Sweeper.fileGroup avid videos dst priority) := by
    intro avid videos dst priority
    unfold Sweeper.fileGroup archiveLooseGroup
    refine uses_bind (uses_attempt (uses_bind (uses_ok rfl) fun archived => ?_)) fun r => ?_
    · split <;> trivial
    · split
      · trivial
      · refine uses_bind (uses_ok rfl) fun at_ => ?_
        split
        · exact mild_recordArchived _ _ _ _
        · exact mild_recordAttention _ _ _ _
  unfold Sweeper.run
  split
  · trivial
  · split
    · trivial
    · refine uses_bind (uses_ok rfl) fun staged => uses_forEach fun group _ => ?_
      exact uses_bind (uses_ok rfl) fun _ => fileGroup _ _ _ _

/-! ## The operator -/

namespace Dashboard

theorem uses_load (avid : Avid) : Uses Mild (load avid) := by
  unfold load
  refine uses_bind (uses_ok rfl) fun record => ?_
  split <;> trivial

theorem uses_move (record : AcquisitionRecord) (target : AcquisitionState) (note : Option String) :
    Uses Mild (move record target note) := by
  unfold move
  refine uses_bind (uses_ok rfl) fun at_ => uses_bind (uses_transition rfl) fun won => ?_
  split
  · exact uses_load _
  · trivial

theorem uses_submit (d : Dashboard) (avid : Avid) (no : Option Nat) : Uses Mild (d.submit avid no) := by
  unfold submit claimed
  split
  · trivial
  · refine uses_bind (uses_ok rfl) fun at_ => uses_bind ?_ fun attempt => ?_
    · split
      · exact uses_quiet (uses_claimNextPending _ _)
      · refine uses_bind (uses_attempt (uses_quiet (uses_claimAttempt _ _ _))) fun r => ?_
        cases r with
        | ok row => trivial
        | error e => cases e <;> trivial
    · split
      · trivial
      · refine uses_bind (uses_quiet (uses_submitMagnet _ _ _ _)) fun ok => ?_
        split
        · trivial
        · refine uses_bind (uses_ok rfl) fun refused => ?_
          exact uses_bind (uses_quiet (uses_refused _ _ _ _)) fun _ => trivial

theorem uses_handOver (record : AcquisitionRecord) : Uses Mild (handOver record) := by
  unfold handOver
  split
  · exact uses_load _
  · exact uses_move _ _ _

theorem uses_retryAcquisition (d : Dashboard) (avid : Avid) : Uses Mild (d.retryAcquisition avid) := by
  unfold retryAcquisition
  refine uses_bind (uses_load _) fun record => ?_
  split
  · trivial
  · exact uses_bind (uses_submit _ _ _) fun _ => uses_handOver _

theorem uses_addMagnet (d : Dashboard) (avid : Avid) (magnet : String) : Uses Mild (d.addMagnet avid magnet) := by
  unfold addMagnet
  refine uses_bind (uses_load _) fun record => ?_
  split
  · trivial
  · split
    · refine uses_bind (uses_ok rfl) fun at_ => uses_bind (uses_quiet (uses_addAttempts _ _ _)) fun added => ?_
      split
      · trivial
      · refine uses_bind (uses_ok rfl) fun attempts => ?_
        split
        · trivial
        · exact uses_bind (uses_submit _ _ _) fun _ => uses_handOver _
    · trivial

theorem uses_ignoreAcquisition (avid : Avid) : Uses Mild (ignoreAcquisition avid) := by
  unfold ignoreAcquisition
  refine uses_bind (uses_load _) fun record => ?_
  split
  · trivial
  · exact uses_move _ _ _

theorem uses_resumeAcquisition (avid : Avid) : Uses Mild (resumeAcquisition avid) := by
  unfold resumeAcquisition
  refine uses_bind (uses_load _) fun record => ?_
  split
  · trivial
  · exact uses_move _ _ _

end Dashboard

namespace ReplacementSource

theorem uses_submitOperatorMagnet (s : ReplacementSource) (avid : Avid) (candidate : MagnetCandidate) :
    Uses Mild (s.submitOperatorMagnet avid candidate) := by
  unfold submitOperatorMagnet
  refine uses_bind (uses_ok rfl) fun at_ => uses_bind (uses_quiet (uses_addAttempts _ _ _)) fun added => ?_
  split
  · trivial
  · refine uses_bind (uses_ok rfl) fun attempts => ?_
    split
    · trivial
    · refine uses_bind (uses_attempt (uses_quiet (uses_claimAttempt _ _ _))) fun r => ?_
      rcases r with e | _ | attempt
      · cases e <;> trivial
      · trivial
      · refine uses_bind (uses_quiet (uses_submitMagnet _ _ _ _)) fun ok => ?_
        split
        · exact uses_bind (uses_ok rfl) fun _ => uses_bind (uses_discard (uses_transition rfl)) fun _ => trivial
        · exact uses_bind (uses_ok rfl) fun _ => uses_bind (uses_quiet (uses_refused _ _ _ _)) fun _ => trivial

theorem uses_submitReplacement (s : ReplacementSource) (i : Intake) (avid : Avid) (dir : String)
    (candidate : Option MagnetCandidate) : Uses Mild (s.submitReplacement i avid dir candidate) := by
  cases candidate with
  | some candidate => exact uses_submitOperatorMagnet _ _ _
  | none =>
    refine uses_bind (uses_quiet (Intake.uses_resolveOrNone _ _ _)) fun candidates =>
      uses_bind (uses_quiet (Intake.uses_recordAndSubmit _ _ _ _)) fun ok => ?_
    split <;> trivial

theorem uses_start (s : ReplacementSource) (text : String) (magnet : Option String) : Uses Mild (s.start text magnet) := by
  have plan : Uses Mild (s.plan text) := by
    unfold ReplacementSource.plan
    dsimp only
    split
    · trivial
    · exact uses_bind (uses_ok rfl) fun _ => uses_bind (uses_ok rfl) fun _ => trivial
  have operatorCandidate : ∀ avid, Uses Mild (s.operatorCandidate avid magnet) := by
    intro avid
    unfold ReplacementSource.operatorCandidate
    split
    · trivial
    · split
      · refine uses_bind (uses_ok rfl) fun attempts => ?_
        split <;> trivial
      · trivial
  unfold start
  refine uses_bind plan fun plan => ?_
  split
  · trivial
  · refine uses_bind (operatorCandidate _) fun candidate => uses_bind (uses_ok rfl) fun at_ => uses_bind ?_ fun begun => ?_
    · unfold beginReplacement
      refine uses_bind (uses_ok rfl) fun ok => ?_
      split
      · exact uses_ok rfl
      · trivial
    · split
      · trivial
      · refine uses_bind (uses_submitReplacement _ _ _ _ _) fun outcome => ?_
        refine uses_bind (uses_runIf (uses_quiet (Intake.uses_parkUnresolved _ _))) fun _ => ?_
        exact uses_bind (uses_ok rfl) fun _ => trivial
  · trivial

end ReplacementSource

/-- Apart from the poll, every component only gives refused attempts back. -/
theorem Component.uses_prog (s : Setup) {c : Component} (hc : c ≠ poll) : Uses Mild (c.prog s) := by
  cases c with
  | poll => exact absurd rfl hc
  | enqueue => exact uses_discard (uses_quiet (Intake.uses_enqueue _ _ _ _ _ _))
  | queue => exact uses_discard (uses_quiet (Intake.uses_queue _ _ _ _))
  | retryDue => exact uses_quiet (Intake.uses_retryDue _ _ _)
  | rss => exact Rss.uses_run _
  | reconcile scan => exact uses_discard (Scanner.uses_run _ _)
  | moveIn => exact Sweeper.uses_run _
  | retry avid => exact uses_discard (Dashboard.uses_retryAcquisition _ _)
  | magnet avid m => exact uses_discard (Dashboard.uses_addMagnet _ _ _)
  | ignore avid => exact uses_discard (Dashboard.uses_ignoreAcquisition _)
  | resume avid => exact uses_discard (Dashboard.uses_resumeAcquisition _)
  | replace text m => exact uses_discard (ReplacementSource.uses_start _ _ _)

/-! ## A small setup -/

def oneDirTracker : Tracker where
  taskDirPaths := ["/inbox"]
  archiver := ⟨fun _ => "", id, fun _ _ => none⟩
  releaseDateLookup := false
  fallbackDirs := ["/inbox"]

/-- One magnet submitted at the time given, for a row the tracker owns. -/
def submittedAt (avid : Avid) (hash : InfoHash) (at_ : Time) : List Sql :=
  [.insertAcquisition avid "manual" (some "/inbox") none none at_,
    .addAttempts avid [{ magnet := "magnet:" ++ hash, infoHash := some hash, source := "manual" }] at_,
    .claimNextPending avid at_, .casAcquisition avid .discovered .downloading at_ none none none]

/-- Every text reads as itself, and a magnet is its own hash. -/
def plainReaders : Readers where
  getAvid := id
  extractInfoHash := some
  magnetFromHtml := fun _ _ => none
  avidCandidateFromLink := fun _ => ""

def plainIntake : Intake := { readers := plainReaders, failedCooldown := hours 12, releaseDateLookup := false }

/-- One directory, and no catalog. -/
def smallSetup : Setup where
  tracker := oneDirTracker
  intake := plainIntake
  rss := { categories := [], intake := plainIntake, castLookup := false, talentLookup := false, casefold := id }
  scanner := { archiver := oneDirTracker.archiver, routes := [], srcDir := "", coversOtherRoute := fun _ _ => false }
  sweeper := { getAvid := id, taskDirPath := "", routeForTaskDir := fun _ => none }
  dashboard := { readers := plainReaders, fallbackDirs := ["/inbox"] }
  replacement := { readers := plainReaders, strip := id, intake := some plainIntake, configuredDirs := ["/inbox"]
                   routeForTaskDir := fun _ => none, routeDirOf := id, fallbackDirs := ["/inbox"] }

end EmbyxManager
