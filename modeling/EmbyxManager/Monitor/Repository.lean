import EmbyxManager.Monitor.World
/-!
# The acquisition repository

The methods of `AcquisitionRepository` as programs: mostly one statement each.
What a method does besides is checking its arguments before the statement
(`transition`, `record_progress`), running a claim again when it lost a race for
a shared hash, and the several statements of `discover`.
-/

namespace EmbyxManager
open Atom

abbrev sql (s : Sql) : M s.Res := .call (Op.sql s)

/-- `datetime.now(UTC)`. -/
abbrev now : M Time := .call Op.now

abbrev checkCancelled (p : Point) : M Unit := .call (Op.checkCancelled p)

abbrev ask (q : Query) : M q.Res := .call (Op.ask q)

/-- `if b: p`. -/
def runIf (b : Bool) (p : M Unit) : M Unit := if b then p else pure ()

/-- `if x is not None: p`. -/
def forSome {α : Type} (x : Option α) (p : α → M Unit) : M Unit :=
  match x with
  | some a => p a
  | none => pure ()

theorem wp_runIf {σ : Type} {T : Env Op.Res Exn σ} {G : σ → Op → Prop} {X : Exn → σ → Prop} {s : σ} (b : Bool) (p : M Unit)
    {Q : Unit → σ → Prop} : (runIf b p).wp T G Q X s ↔ (b = true → p.wp T G Q X s) ∧ (b = false → Q () s) := by
  cases b <;> simp [runIf]

theorem uses_runIf {C : Op → Prop} {b : Bool} {p : M Unit} (hp : p.Uses C) : (runIf b p).Uses C := by
  cases b
  · trivial
  · exact hp

theorem wp_forSome {α σ : Type} {T : Env Op.Res Exn σ} {G : σ → Op → Prop} {X : Exn → σ → Prop} {s : σ} (x : Option α)
    (p : α → M Unit) {Q : Unit → σ → Prop} :
    (forSome x p).wp T G Q X s ↔ (∀ a, x = some a → (p a).wp T G Q X s) ∧ (x = none → Q () s) := by
  cases x <;> simp [forSome]

theorem uses_forSome {α : Type} {C : Op → Prop} {x : Option α} {p : α → M Unit} (hp : ∀ a, (p a).Uses C) :
    (forSome x p).Uses C := by
  cases x
  · trivial
  · exact hp _

namespace AcquisitionRepository

/-! ## Discovery -/

abbrev get (avid : Avid) : M (Option AcquisitionRecord) := sql (.getAcquisition avid)

/-- Everything one sighting of an AVID carries. -/
structure SightingArgs where
  source : String
  taskDirPath : Option String := none
  nextActionAt : Option Time := none
  releaseDate : Option Date := none
  /-- The sighting brings a magnet: a row still cooling down is accepted. -/
  wake : Bool := false
  /-- The sources this sighting must not take a row from. -/
  yieldsTo : List String := []

/-- Whether an existing row still needs magnets resolved. -/
def accepted (existing : AcquisitionRecord) (now : Time) (wake : Bool) : Bool :=
  if existing.state = .discovered then true
  else if existing.state ∈ AcquisitionState.retryable then
    wake || existing.nextActionAt.all fun t => t ≤ now
  else false

/-- The row belongs to a source this sighting yields to. -/
def ownedElsewhere (existing : AcquisitionRecord) (s : SightingArgs) : Bool :=
  existing.source ≠ s.source ∧ existing.source ∈ s.yieldsTo

/-- The updates of an accepted re-discovery. -/
def rediscover (avid : Avid) (existing : AcquisitionRecord) (s : SightingArgs) : M Unit := do
  forSome s.releaseDate fun date =>
    runIf existing.releaseDate.isNone (discard (sql (.setReleaseDate avid date false)))
  forSome s.taskDirPath fun dir =>
    runIf (existing.taskDirPath ≠ some dir ∧ !ownedElsewhere existing s) (sql (.setTaskDir avid dir s.source))
  forSome s.nextActionAt fun at_ => sql (.setNextActionAt avid at_)

/-- Record a sighting; false when someone already owns the AVID. -/
def discover (avid : Avid) (now : Time) (s : SightingArgs) : M Bool := do
  if ← sql (.insertAcquisition avid s.source s.taskDirPath s.nextActionAt s.releaseDate now) then
    pure true
  else
    match ← get avid with
    | none => pure true
    | some existing =>
      if accepted existing now s.wake then do
        rediscover avid existing s
        pure true
      else pure false

abbrev setReleaseDate (avid : Avid) (date : Date) : M Bool := sql (.setReleaseDate avid date true)

/-- None when the row is not in a replaceable state. -/
def beginReplacement (avid : Avid) (source taskDirPath : String) (replacePaths : List String) (now : Time) :
    M (Option AcquisitionRecord) := do
  if ← sql (.beginReplacement avid source taskDirPath replacePaths now) then get avid else pure none

/-! ## Acquisitions -/

/-- Compare-and-set one acquisition's state; false when the row moved on. -/
def transition (avid : Avid) (expected target : AcquisitionState) (now : Time) (note : Option String := none)
    (nextActionAt : Option Time := none) (archivedPaths : Option (List String) := none) : M Bool :=
  if target ∈ expected.edges then sql (.casAcquisition avid expected target now note nextActionAt archivedPaths)
  else .raise (.illegalAcquisition expected target)

abbrev dueForRetry (now : Time) (limit : Nat) : M (List AcquisitionRecord) := sql (.dueForRetry now limit)

abbrev activeAvids : M (List Avid) := sql .activeAvids

abbrev activeTaskDirs : M (List String) := sql .activeTaskDirs

/-! ## Attempts -/

/-- How many candidates were new. -/
def addAttempts (avid : Avid) (candidates : List MagnetCandidate) (now : Time) : M Nat :=
  if candidates = [] then pure 0 else sql (.addAttempts avid candidates now)

/-- `_CLAIM_RETRIES`. -/
def claimRetries : Nat := 3

/-- Run the claim until it is not beaten to a shared hash. -/
def claimLoop (avid : Avid) (now : Time) : Nat → M (Option MagnetAttemptRecord)
  | 0 => pure none
  | n + 1 => do
    match ← (sql (.claimNextPending avid now)).attempt with
    | .ok row => pure row
    | .error .uniqueViolation => claimLoop avid now n
    | .error e => .raise e

/-- Take the lowest pending attempt whose hash is free and mark it submitted. -/
def claimNextPending (avid : Avid) (now : Time) : M (Option MagnetAttemptRecord) := claimLoop avid now claimRetries

/-- Take one specific pending attempt. -/
def claimAttempt (avid : Avid) (attemptNo : Nat) (now : Time) : M (Option MagnetAttemptRecord) := do
  match ← (sql (.claimAttempt avid attemptNo now)).attempt with
  | .ok row => pure row
  | .error .uniqueViolation => .raise (.magnetInUse avid attemptNo)
  | .error e => .raise e

def transitionAttempt (avid : Avid) (attemptNo : Nat) (expected target : AttemptState) (now : Time)
    (error : Option String := none) : M Bool :=
  if target ∈ expected.edges then sql (.casAttempt avid attemptNo expected target now error)
  else .raise (.illegalAttempt expected target)

/-- Refresh an in-flight attempt; true when something moved. -/
def recordProgress (avid : Avid) (attemptNo : Nat) (state : AttemptState) (progress : Option Rat) (now : Time) :
    M Bool :=
  if state ∈ AttemptState.inFlight then sql (.recordProgress avid attemptNo state progress now)
  else .raise (.valueError ("record_progress only refreshes in-flight attempts, got " ++ state.value))

/-- The hashes of a query: no empty ones, each once, sorted. -/
def queried (hashes : List InfoHash) : List InfoHash := (hashes.filter (· ≠ "")).dedup.insertionSort (· ≤ ·)

/-- Live attempts by hash: the tracker's join. -/
def attemptsByInfoHash (hashes : List InfoHash) : M (List (InfoHash × MagnetAttemptRecord)) :=
  if queried hashes = [] then pure []
  else do
    let rows ← sql (.attemptsByInfoHash (queried hashes))
    pure (rows.filterMap fun row => row.infoHash.map (·, row))

def archivedInfoHashes (hashes : List InfoHash) : M (List InfoHash) :=
  if queried hashes = [] then pure [] else sql (.archivedInfoHashes (queried hashes))

abbrev inFlightAttempts : M (List MagnetAttemptRecord) := sql .inFlightAttempts

abbrev attemptsFor (avid : Avid) : M (List MagnetAttemptRecord) := sql (.attemptsFor avid)

end AcquisitionRepository

end EmbyxManager
