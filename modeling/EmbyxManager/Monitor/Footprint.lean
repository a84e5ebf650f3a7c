import EmbyxManager.Monitor.Operator
import EmbyxManager.Monitor.Rss
import EmbyxManager.Monitor.Sweeps
/-!
# Which component asks for what

Only a poll lists offline tasks, claims downloads and settles them. Everything
else that is done to an attempt is claiming it and giving it back as refused.
Read with the frame rule, these are the facts that an interleaving of the
components is reasoned from.
-/

namespace EmbyxManager
open Atom Prog AcquisitionRepository Archive

/-- What the archiver does to a folder, to the library or to a replaced copy. -/
def Op.archives : Op → Bool
  | .ask (.isDir _) | .ask (.largeVideos _) | .ask (.unlink _) | .ask (.moveIntoLibrary ..) | .ask (.discard _)
  | .ask (.replacedCopies ..) | .ask (.deleteFiles _) => true
  | _ => false

/-- Videos are moved into the library. -/
def Op.files : Op → Bool
  | .ask (.moveIntoLibrary ..) => true
  | _ => false

def Op.movesAttempt : Op → Bool
  | .sql (.casAttempt ..) => true
  | _ => false

/-- What only a poll looks at: the listings, the stop token before each, and the attempts in flight. -/
def Op.surveys : Op → Bool
  | .ask (.listOfflineFiles _) | .checkCancelled (.listing _) | .sql .inFlightAttempts => true
  | _ => false

/-- The row is settled for good. -/
def Op.concludes : Op → Bool
  | .sql (.casAcquisition _ _ target _ _ _ _) => target = .archived
  | _ => false

/-- No survey, and no attempt is moved but a refused one. -/
def Mild : Op → Prop
  | .sql (.casAttempt _ _ expected target _ _) => expected = .submitted ∧ target = .error
  | op => op.surveys = false

/-- Nothing is archived, on disk or in the ledger. -/
def Quiet (op : Op) : Prop := Mild op ∧ op.archives = false ∧ op.concludes = false

def Op.isSql : Op → Bool
  | .sql _ => true
  | _ => false

/-- A statement that archives nothing. -/
def QuietSql (op : Op) : Prop := Quiet op ∧ op.isSql = true

def Still (op : Op) : Prop := Mild op ∧ op.movesAttempt = false

/-- A question about folders, the library or a replaced copy. -/
def Asks : Op → Prop
  | .ask (.listDirectory _) => True
  | op => op.archives = true

/-- A question of this kind that moves nothing into the library. -/
def Tends (op : Op) : Prop := Asks op ∧ op.files = false

/-- The action is no look at the stop token. -/
def Op.inStep : Op → Bool
  | .checkCancelled _ => false
  | _ => true

abbrev OfStep (op : Op) : Prop := op.inStep = true

/-- The attempt whose step it is: the poll looks at the stop token before each. -/
def stepOf : List Event → Option AttemptKey
  | [] => none
  | ⟨.checkCancelled (.advance attempt _), _⟩ :: _ => some attempt.key
  | ⟨.checkCancelled (.sweep attempt), _⟩ :: _ => some attempt.key
  | ⟨.checkCancelled _, _⟩ :: _ => none
  | _ :: h => stepOf h

theorem stepOf_same {op : Op} {a : Except Exn op.Res} {h : List Event} (hop : OfStep op) : stepOf (⟨op, a⟩ :: h) = stepOf h := by
  cases op with
  | checkCancelled c => cases hop
  | _ => rfl

theorem Asks.inStep {op : Op} (h : Asks op) : OfStep op := by
  cases op with
  | checkCancelled c => cases h
  | _ => rfl

theorem Asks.still {op : Op} (h : Asks op) : Still op := by
  cases op with
  | ask q =>
    cases q with
    | listOfflineFiles taskDir => cases h
    | _ => exact ⟨rfl, rfl⟩
  | _ => cases h

/-- No survey, and an attempt is neither put in flight nor declared lost. -/
def Busy : Op → Prop
  | .sql (.casAttempt _ _ _ target _ _) => target ∉ AttemptState.inFlight ∧ target ≠ .lost
  | op => op.surveys = false

/-- Busy, and no attempt is declared stalled either. -/
def Brisk : Op → Prop
  | .sql (.casAttempt _ _ _ target _ _) => target ∉ AttemptState.inFlight ∧ target ≠ .lost ∧ target ≠ .stalled
  | op => op.surveys = false

/-- No attempt is declared stalled. -/
def Hopeful : Op → Prop
  | .sql (.casAttempt _ _ _ target _ _) => target ≠ .stalled
  | _ => True

theorem Mild.brisk {op : Op} (h : Mild op) : Brisk op := by
  cases op with
  | sql s =>
    cases s with
    | casAttempt a n e t now err =>
      obtain ⟨-, rfl⟩ := h
      exact ⟨by decide, by decide, by decide⟩
    | _ => exact h
  | _ => exact h

theorem Brisk.busy {op : Op} (h : Brisk op) : Busy op := by
  cases op with
  | sql s =>
    cases s with
    | casAttempt a n e t now err => exact ⟨h.1, h.2.1⟩
    | _ => exact h
  | _ => exact h

theorem Brisk.hopeful {op : Op} (h : Brisk op) : Hopeful op := by
  cases op with
  | sql s =>
    cases s with
    | casAttempt a n e t now err => exact h.2.2
    | _ => trivial
  | _ => trivial

theorem Mild.busy {op : Op} (h : Mild op) : Busy op := h.brisk.busy

section Mild
variable {α β : Type} {C : Op → Prop}

theorem uses_ok {op : Op} (h : C op) : Uses C (call op : M op.Res) := (uses_call op).2 h

/-! ## The repository -/

theorem uses_transition {avid : Avid} {expected target : AcquisitionState} {at_ : Time} {note : Option String}
    {next : Option Time} {paths : Option (List String)} (h : C (.sql (.casAcquisition avid expected target at_ note next paths))) :
    Uses C (transition avid expected target at_ note next paths) := by
  unfold transition
  split
  · exact uses_ok h
  · trivial

theorem uses_transitionAttempt {avid : Avid} {no : Nat} {expected target : AttemptState} {at_ : Time} {error : Option String}
    (h : C (.sql (.casAttempt avid no expected target at_ error))) :
    Uses C (transitionAttempt avid no expected target at_ error) := by
  unfold transitionAttempt
  split
  · exact uses_ok h
  · trivial

theorem uses_recordProgress {avid : Avid} {no : Nat} {state : AttemptState} {progress : Option Rat} {at_ : Time}
    (h : C (.sql (.recordProgress avid no state progress at_))) : Uses C (recordProgress avid no state progress at_) := by
  unfold recordProgress
  split
  · exact uses_ok h
  · trivial

theorem uses_rediscover (avid : Avid) (existing : AcquisitionRecord) (s : SightingArgs) :
    Uses QuietSql (rediscover avid existing s) := by
  unfold rediscover
  refine uses_bind (uses_forSome fun date => uses_runIf (uses_discard (uses_ok ⟨⟨rfl, rfl, rfl⟩, rfl⟩))) fun _ => ?_
  refine uses_bind (uses_forSome fun dir => uses_runIf (uses_ok ⟨⟨rfl, rfl, rfl⟩, rfl⟩)) fun _ => ?_
  exact uses_forSome fun at_ => uses_ok ⟨⟨rfl, rfl, rfl⟩, rfl⟩

theorem sql_discover (avid : Avid) (at_ : Time) (s : SightingArgs) : Uses QuietSql (discover avid at_ s) := by
  unfold discover
  refine uses_bind (uses_ok ⟨⟨rfl, rfl, rfl⟩, rfl⟩) fun inserted => ?_
  split
  · trivial
  · refine uses_bind (uses_ok ⟨⟨rfl, rfl, rfl⟩, rfl⟩) fun existing => ?_
    split
    · trivial
    · split
      · exact uses_bind (uses_rediscover _ _ _) fun _ => trivial
      · trivial

theorem uses_discover (avid : Avid) (at_ : Time) (s : SightingArgs) : Uses Quiet (discover avid at_ s) :=
  uses_mono (sql_discover avid at_ s) fun _ h => h.1

theorem uses_addAttempts (avid : Avid) (candidates : List MagnetCandidate) (at_ : Time) :
    Uses Quiet (addAttempts avid candidates at_) := by
  unfold addAttempts
  split
  · trivial
  · exact uses_ok ⟨rfl, rfl, rfl⟩

theorem uses_claimNextPending (avid : Avid) (at_ : Time) : Uses Quiet (claimNextPending avid at_) := by
  unfold claimNextPending
  generalize claimRetries = n
  induction n with
  | zero => trivial
  | succ n ih =>
    refine uses_bind (uses_attempt (uses_ok ⟨rfl, rfl, rfl⟩)) fun r => ?_
    cases r with
    | ok row => trivial
    | error e => cases e <;> first | exact ih | trivial

theorem uses_claimAttempt (avid : Avid) (no : Nat) (at_ : Time) : Uses Quiet (claimAttempt avid no at_) := by
  unfold claimAttempt
  refine uses_bind (uses_attempt (uses_ok ⟨rfl, rfl, rfl⟩)) fun r => ?_
  cases r with
  | ok row => trivial
  | error e => cases e <;> trivial

theorem uses_ensureReleaseDate (lookup : Bool) (record : AcquisitionRecord) :
    Uses Quiet (ensureReleaseDate lookup record) := by
  unfold ensureReleaseDate
  split
  · trivial
  · refine uses_bind (uses_ok ⟨rfl, rfl, rfl⟩) fun found => ?_
    split
    · exact uses_bind (uses_discard (uses_ok ⟨rfl, rfl, rfl⟩)) fun _ => trivial
    · trivial

theorem uses_refused (avid : Avid) (no : Nat) (at_ : Time) (error : Option String) :
    Uses Quiet (discard (transitionAttempt avid no .submitted .error at_ error)) :=
  uses_discard (uses_transitionAttempt ⟨⟨rfl, rfl⟩, rfl, rfl⟩)

theorem uses_submitMagnet (cloud : Bool) (dirs : List String) (avid : Avid) (magnet : String) :
    Uses Quiet (submitMagnet cloud dirs avid magnet) := by
  unfold submitMagnet
  split
  · trivial
  · refine uses_bind (uses_ok ⟨rfl, rfl, rfl⟩) fun record => ?_
    split
    · trivial
    · refine uses_bind (uses_attempt (uses_ok ⟨rfl, rfl, rfl⟩)) fun r => ?_
      cases r with
      | ok success => trivial
      | error e => cases e <;> trivial

end Mild

/-! ## The archive pipeline -/

theorem uses_inspectFolder (arch : Archiver) (folder : Folder) (expected : Avid) :
    Uses Tends (inspectFolder arch folder expected) := by
  unfold inspectFolder selectVideos
  refine uses_bind (uses_attempt (uses_bind (uses_ok ⟨rfl, rfl⟩) fun dir => ?_)) fun r => ?_
  · split
    · refine uses_bind (uses_ok ⟨rfl, rfl⟩) fun videos => uses_bind (uses_forEach fun v _ => ?_) fun _ => trivial
      exact uses_discard (uses_attempt (uses_ok ⟨rfl, rfl⟩))
    · trivial
  · cases r with
    | ok selection => trivial
    | error e => cases e <;> trivial

theorem uses_fileSelection (folder : Folder) (selection : VideoSet) (dst : String) (priority : Bool) :
    Uses Asks (fileSelection folder selection dst priority) := by
  unfold fileSelection
  refine uses_bind (uses_attempt (uses_ok rfl)) fun r => ?_
  cases r with
  | ok archived =>
    cases archived with
    | nil => trivial
    | cons path paths => exact uses_bind (uses_discard (uses_attempt (uses_ok rfl))) fun _ => trivial
  | error e => cases e <;> trivial

theorem uses_archiveFolder (arch : Archiver) (folder : Folder) (dst : String) (priority : Bool) (expected : Avid) :
    Uses Asks (archiveFolder arch folder dst priority expected) := by
  unfold archiveFolder
  refine uses_bind (uses_mono (uses_inspectFolder arch folder expected) fun _ h => h.1) fun selection => ?_
  cases selection with
  | error result => trivial
  | ok selection => exact uses_fileSelection folder selection dst priority

/-! ## Recording an outcome -/

section Recording
variable {C : Op → Prop}

/-- What is recorded takes quiet statements and one compare-and-set. -/
theorem uses_rowFor (hquiet : ∀ op, QuietSql op → C op) (source : String) (avid : Avid) (at_ : Time) :
    Uses C (rowFor source avid at_) := by
  have hget : C (.sql (.getAcquisition avid)) := hquiet _ ⟨⟨rfl, rfl, rfl⟩, rfl⟩
  unfold rowFor
  refine uses_bind (uses_ok hget) fun found => ?_
  split
  · trivial
  · exact uses_bind (uses_discard (uses_mono (sql_discover _ _ _) hquiet)) fun _ => uses_ok hget

theorem uses_recordArchived (hquiet : ∀ op, QuietSql op → C op) (source : String) (avid : Avid) (paths : List String) (at_ : Time)
    (hcas : ∀ record expected, C (.sql (.casAcquisition record expected .archived at_ none none (some paths)))) :
    Uses C (recordArchived source avid paths at_) := by
  unfold recordArchived
  refine uses_bind (uses_rowFor hquiet _ _ _) fun found => ?_
  split
  · trivial
  · exact uses_ite trivial (uses_discard (uses_transition (hcas _ _)))

theorem uses_recordAttention (hquiet : ∀ op, QuietSql op → C op) (source : String) (avid : Avid) (reason : String) (at_ : Time)
    (hcas : ∀ record expected, C (.sql (.casAcquisition record expected .needsAttention at_ (some reason) none none))) :
    Uses C (recordAttention source avid reason at_) := by
  have hget : C (.sql (.getAcquisition avid)) := hquiet _ ⟨⟨rfl, rfl, rfl⟩, rfl⟩
  unfold recordAttention
  refine uses_bind (uses_ok hget) fun found => ?_
  split
  · exact uses_ite trivial (uses_discard (uses_transition (hcas _ _)))
  · refine uses_bind (uses_discard (uses_mono (sql_discover _ _ _) hquiet)) fun _ => uses_bind (uses_ok hget) fun record => ?_
    split
    · trivial
    · exact uses_ite trivial (uses_discard (uses_transition (hcas _ _)))

end Recording

/-! ## The tracker -/

namespace Tracker
variable (t : Tracker)

theorem uses_exhaust (avid : Avid) : Uses Quiet (t.exhaust avid) := by
  unfold exhaust
  refine uses_bind (uses_ok ⟨rfl, rfl, rfl⟩) fun record => ?_
  split
  · trivial
  · split
    · refine uses_bind (uses_ensureReleaseDate _ _) fun date => uses_bind (uses_ok ⟨rfl, rfl, rfl⟩) fun at_ => ?_
      exact uses_discard (uses_transition ⟨rfl, rfl, rfl⟩)
    · trivial

theorem uses_tryNext (avid : Avid) (limit : Nat) : Uses Quiet (t.tryNext avid limit) := by
  induction limit with
  | zero => trivial
  | succ limit ih =>
    unfold tryNext
    refine uses_bind (uses_ok ⟨rfl, rfl, rfl⟩) fun record => ?_
    split
    · trivial
    · split
      · trivial
      · refine uses_bind (uses_ok ⟨rfl, rfl, rfl⟩) fun attempts => ?_
        split
        · exact t.uses_exhaust avid
        · refine uses_bind (uses_ok ⟨rfl, rfl, rfl⟩) fun at_ => uses_bind (uses_claimNextPending _ _) fun claimed => ?_
          split
          · exact t.uses_exhaust avid
          · refine uses_bind (uses_submitMagnet _ _ _ _) fun ok => ?_
            split
            · trivial
            · exact uses_bind (uses_refused _ _ _ _) fun _ => ih

theorem uses_removeTask (infoHash : InfoHash) (taskDir : String) : Uses Quiet (removeTask infoHash taskDir) :=
  uses_discard (uses_attempt (uses_ok ⟨rfl, rfl, rfl⟩))

theorem uses_cloudListed (paths : List String) : Uses Tends (cloudListed paths) := by
  unfold cloudListed
  refine uses_bind (uses_foldEach (fun listed directory _ => ?_) _) fun _ => trivial
  refine uses_bind (uses_attempt (uses_ok ⟨trivial, rfl⟩)) fun r => ?_
  cases r with
  | ok entries => trivial
  | error e => cases e <;> trivial

theorem uses_removeReplaced (avid : Avid) (replacing : List String) : Uses Tends (t.removeReplaced avid replacing) := by
  unfold removeReplaced
  dsimp only
  split
  · trivial
  · refine uses_bind (uses_ok ⟨rfl, rfl⟩) fun present => ?_
    split
    · trivial
    · split
      · trivial
      · refine uses_bind (uses_cloudListed _) fun listed => uses_bind (uses_runIf (uses_ok ⟨rfl, rfl⟩)) fun _ => ?_
        refine uses_bind (uses_discard (uses_cloudListed _)) fun _ => uses_bind (uses_ok ⟨rfl, rfl⟩) fun left => ?_
        split <;> trivial

theorem uses_file_asks {C : Op → Prop} (hC : ∀ op, Asks op → C op) (hget : ∀ avid, C (.sql (.getAcquisition avid)))
    (attempt : MagnetAttemptRecord) (folder : Folder) (route : TrackerRoute) : Uses C (t.file attempt folder route) := by
  unfold file
  refine uses_bind (uses_ok (hget _)) fun record => ?_
  dsimp only
  split
  · exact uses_mono (uses_archiveFolder _ _ _ _ _) hC
  · refine uses_bind (uses_mono (uses_inspectFolder _ _ _) fun _ h => hC _ h.1) fun selection => ?_
    cases selection with
    | error result => trivial
    | ok selection =>
      refine uses_bind (uses_attempt (uses_mono (t.uses_removeReplaced _ _) fun _ h => hC _ h.1)) fun r => ?_
      rcases r with e | _ | problem
      · trivial
      · exact uses_mono (uses_fileSelection _ _ _ _) hC
      · trivial

theorem uses_file (attempt : MagnetAttemptRecord) (folder : Folder) (route : TrackerRoute) :
    Uses Still (t.file attempt folder route) :=
  t.uses_file_asks (fun _ => Asks.still) (fun _ => ⟨rfl, rfl⟩) attempt folder route

theorem uses_refreshMount {C : Op → Prop} (hC : ∀ dir, C (.ask (.listDirectory dir))) (task : OfflineTask) (taskDir : String) :
    Uses C (refreshMount task taskDir) :=
  uses_discard (uses_attempt (uses_bind (uses_discard (uses_ok (hC _))) fun _ => uses_ok (hC _)))

theorem uses_clearArchived (byHash : Listing) : Uses Quiet (clearArchived byHash) := by
  unfold clearArchived AcquisitionRepository.archivedInfoHashes
  dsimp only
  refine uses_bind ?_ fun archived => uses_forEach fun group _ => uses_forEach fun batch _ => ?_
  · split
    · trivial
    · exact uses_ok ⟨rfl, rfl, rfl⟩
  · exact uses_discard (uses_attempt (uses_ok ⟨rfl, rfl, rfl⟩))

theorem uses_giveUp {C : Op → Prop} (hC : ∀ op, Quiet op → C op) (attempt : MagnetAttemptRecord) {state : AttemptState}
    (reason : String)
    (h : ∀ at_, C (.sql (.casAttempt attempt.avid attempt.attemptNo attempt.state state at_ (some reason)))) :
    Uses C (t.giveUp attempt state reason) := by
  unfold giveUp
  refine uses_bind (uses_ok (hC _ ⟨rfl, rfl, rfl⟩)) fun at_ => uses_bind (uses_transitionAttempt (h at_)) fun won => ?_
  split
  · exact uses_bind (uses_mono (t.uses_tryNext _ _) hC) fun _ => trivial
  · trivial

/-! ### What a poll does to an attempt it found -/

theorem Quiet.busy {op : Op} (h : Quiet op) : Busy op := h.1.busy

theorem Quiet.brisk {op : Op} (h : Quiet op) : Brisk op := h.1.brisk

theorem Still.brisk {op : Op} (h : Still op) : Brisk op := h.1.brisk

theorem uses_settle (attempt : MagnetAttemptRecord) (result : ArchiveResult) : Uses Brisk (t.settle attempt result) := by
  have settled : ∀ {target : AttemptState} {at_ : Time}, target ∉ AttemptState.inFlight ∧ target ≠ .lost ∧ target ≠ .stalled →
      Uses Brisk (discard (transitionAttempt attempt.avid attempt.attemptNo .archiving target at_)) :=
    fun h => uses_discard (uses_transitionAttempt h)
  unfold settle
  refine uses_bind (uses_ok rfl) fun at_ => ?_
  split
  · exact uses_bind (settled (by decide)) fun _ => uses_discard (uses_transition rfl)
  · exact uses_bind (settled (by decide)) fun _ => uses_mono (t.uses_tryNext _ _) fun _ => Quiet.brisk
  · exact uses_bind (settled (by decide)) fun _ => uses_runIf (uses_discard (uses_transition rfl))

theorem uses_claimFinished (attempt : MagnetAttemptRecord) (at_ : Time) : Uses Brisk (claimFinished attempt at_) := by
  have taken : Uses Brisk (transitionAttempt attempt.avid attempt.attemptNo .finished .archiving at_) :=
    uses_transitionAttempt ⟨by decide, by decide, by decide⟩
  unfold claimFinished
  split
  · exact taken
  · refine uses_bind (uses_transitionAttempt ⟨by decide, by decide, by decide⟩) fun finished => ?_
    split
    · exact taken
    · trivial

theorem uses_archiveFinished (attempt : MagnetAttemptRecord) (task : OfflineTask) (taskDir : String) :
    Uses Brisk (t.archiveFinished attempt task taskDir) := by
  unfold archiveFinished
  refine uses_bind (uses_ok rfl) fun at_ => uses_bind (uses_ok rfl) fun record => ?_
  split
  · trivial
  · split
    · trivial
    · refine uses_bind (uses_claimFinished _ _) fun won => ?_
      split
      · refine uses_bind (uses_refreshMount (fun _ => rfl) _ _) fun _ =>
          uses_bind (uses_ok rfl) fun located => ?_
        split
        · exact uses_bind (uses_ok rfl) fun _ => uses_discard (uses_transitionAttempt ⟨by decide, by decide, by decide⟩)
        · refine uses_bind (uses_mono (t.uses_file _ _ _) fun _ => Still.brisk) fun result =>
            uses_bind (t.uses_settle _ _) fun _ => ?_
          exact uses_runIf (uses_mono (uses_removeTask _ _) fun _ => Quiet.brisk)
      · trivial

theorem uses_advance (attempt : MagnetAttemptRecord) (task : OfflineTask) (taskDir : String) :
    Uses Busy (t.advance attempt task taskDir) := by
  have dropped : ∀ gaveUp, Uses Busy (runIf gaveUp (removeTask task.infoHash taskDir)) :=
    fun _ => uses_runIf (uses_mono (uses_removeTask _ _) fun _ => Quiet.busy)
  unfold advance
  split
  · exact uses_mono (t.uses_archiveFinished _ _ _) fun _ => Brisk.busy
  · exact uses_bind (t.uses_giveUp (fun _ => Quiet.busy) _ _ fun _ => ⟨by decide, by decide⟩) dropped
  · split
    · unfold refreshProgress
      refine uses_bind (uses_ok rfl) fun at_ => uses_bind (uses_recordProgress rfl) fun moved => ?_
      split
      · trivial
      · dsimp only
        split
        · exact uses_bind (t.uses_giveUp (fun _ => Quiet.busy) _ _ fun _ => ⟨by decide, by decide⟩) dropped
        · trivial
    · trivial

theorem uses_consider (byHash : Listing) (joined : InfoHash × MagnetAttemptRecord) :
    Uses Busy (t.consider byHash joined) := by
  unfold consider
  split
  · exact uses_bind (uses_ok rfl) fun _ => t.uses_advance _ _ _
  · trivial

theorem uses_archiveOrphaned (attempt : MagnetAttemptRecord) (folder : Folder) (route : TrackerRoute) :
    Uses Brisk (t.archiveOrphaned attempt folder route) := by
  unfold archiveOrphaned
  refine uses_bind (uses_ok rfl) fun at_ => uses_bind (uses_transitionAttempt ⟨by decide, by decide, by decide⟩) fun finished => ?_
  split
  · refine uses_bind (uses_transitionAttempt ⟨by decide, by decide, by decide⟩) fun won => ?_
    split
    · exact uses_bind (uses_mono (t.uses_file _ _ _) fun _ => Still.brisk) fun _ => t.uses_settle _ _
    · trivial
  · trivial

end Tracker

end EmbyxManager
