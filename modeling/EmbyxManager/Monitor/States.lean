import Mathlib.Data.List.Basic
/-!
# The states of the ledger

One row per AVID, and under it one row per magnet tried. The edges are those of
`_ACQUISITION_EDGES` and `_ATTEMPT_EDGES`; asking for anything else raises
before the database is asked.
-/

namespace EmbyxManager

abbrev Avid := String
abbrev InfoHash := String

/-- Microseconds since the epoch, UTC. -/
abbrev Time := Int

/-- Days since the epoch. -/
abbrev Date := Int

def seconds (n : Int) : Time := n * 1000000
def hours (n : Int) : Time := seconds (n * 3600)
def days (n : Int) : Time := hours (n * 24)

inductive AcquisitionState where
  | discovered | downloading | archived | resolveFailed | exhausted | needsAttention | ignored
  deriving DecidableEq, Repr

inductive AttemptState where
  | pending | submitted | downloading | finished | archiving | archived | junk | error | stalled | lost
  deriving DecidableEq, Repr

namespace AcquisitionState

/-- The tracker owns the AVID and nothing else may touch its folder. -/
def active : List AcquisitionState := [discovered, downloading]

/-- A title in one of these can be fetched again to replace the copy it holds. -/
def replaceable : List AcquisitionState := [archived, ignored, resolveFailed, exhausted]

/-- A retry timer can lift these. -/
def retryable : List AcquisitionState := [resolveFailed, exhausted]

/-- The background resolve pass picks these up when `nextActionAt` arrives. -/
def due : List AcquisitionState := [resolveFailed, exhausted, discovered]

/-- A resolve pass that submits nothing parks from these. -/
def parkable : List AcquisitionState := [discovered, resolveFailed, exhausted]

/-- Discovery hands these back for a fresh look; a library hit settles them. -/
def recheckable : List AcquisitionState := [discovered, resolveFailed, exhausted]

def edges : AcquisitionState → List AcquisitionState
  | discovered => [downloading, resolveFailed, needsAttention, archived, ignored]
  | downloading => [downloading, archived, exhausted, needsAttention, ignored]
  | resolveFailed => [downloading, resolveFailed, exhausted, needsAttention, archived, ignored]
  | exhausted => [downloading, resolveFailed, needsAttention, archived, ignored]
  | needsAttention => [downloading, archived, exhausted, ignored]
  | archived => []
  | ignored => [discovered]

end AcquisitionState

namespace AttemptState

def value : AttemptState → String
  | pending => "pending"
  | submitted => "submitted"
  | downloading => "downloading"
  | finished => "finished"
  | archiving => "archiving"
  | archived => "archived"
  | junk => "junk"
  | error => "error"
  | stalled => "stalled"
  | lost => "lost"

/-- Still in flight at CloudDrive. -/
def inFlight : List AttemptState := [submitted, downloading]

/-- An offline task can still be acted on; a hash is unique across these. -/
def live : List AttemptState := [submitted, downloading, finished, archiving]

def edges : AttemptState → List AttemptState
  | pending => [submitted, error]
  | submitted => [downloading, finished, error, stalled, lost]
  | downloading => [downloading, finished, error, stalled, lost]
  | finished => [archiving, lost]
  | archiving => [archived, junk, finished]
  | archived | junk | error | stalled | lost => []

end AttemptState

/-! ## Rows -/

/-- One magnet worth trying for an AVID, before it becomes an attempt row. -/
structure MagnetCandidate where
  magnet : String
  infoHash : Option InfoHash
  source : String
  sizeHint : Option Nat := none
  deriving DecidableEq

structure AcquisitionRecord where
  avid : Avid
  state : AcquisitionState
  source : String
  note : Option String := none
  archivedPaths : List String := []
  nextActionAt : Option Time := none
  createdAt : Time
  updatedAt : Time
  /-- The offline directory this AVID's magnets go to; none is the default. -/
  taskDirPath : Option String := none
  releaseDate : Option Date := none
  /-- Library paths of the copy this acquisition replaces. -/
  replacePaths : List String := []
  /-- The highest attempt number when the replacement began. -/
  replaceAfterAttempt : Option Nat := none
  deriving DecidableEq

structure MagnetAttemptRecord where
  avid : Avid
  attemptNo : Nat
  magnet : String
  infoHash : Option InfoHash
  magnetSource : String
  sizeHint : Option Nat := none
  state : AttemptState
  progress : Option Rat := none
  error : Option String := none
  submittedAt : Option Time := none
  updatedAt : Time
  deriving DecidableEq

/-- The primary key of an attempt. -/
abbrev AttemptKey := Avid × Nat

def MagnetAttemptRecord.key (r : MagnetAttemptRecord) : AttemptKey := (r.avid, r.attemptNo)

def MagnetAttemptRecord.Live (r : MagnetAttemptRecord) : Prop := r.state ∈ AttemptState.live

instance (r : MagnetAttemptRecord) : Decidable r.Live := inferInstanceAs (Decidable (_ ∈ _))

/-- The row once a claim has taken it. -/
def MagnetAttemptRecord.submittedBy (r : MagnetAttemptRecord) (now : Time) : MagnetAttemptRecord :=
  { r with state := .submitted, submittedAt := some now, updatedAt := now }

theorem MagnetAttemptRecord.key_submittedBy (now : Time) (r : MagnetAttemptRecord) : (r.submittedBy now).key = r.key := rfl

/-! ## Exceptions -/

/-- What the monitor's code raises, catches or lets through. -/
inductive Exn where
  | illegalAcquisition (source target : AcquisitionState)
  | illegalAttempt (source target : AttemptState)
  | uniqueViolation
  | foreignKeyViolation
  | valueError (msg : String)
  /-- `RunCancelledError`: the stop token of the run is set. -/
  | runCancelled
  /-- The interpreter's limit on nested calls. -/
  | recursionError
  /-- `grpc.RpcError`, with its details. -/
  | rpcError (details : String)
  | fileNotFound
  /-- An HTTP answer that is not a success. -/
  | httpStatus (code : Nat)
  | magnetInUse (avid : Avid) (attemptNo : Nat)
  /-- `SubscriptionExistsError`: the feed or talent is already subscribed. -/
  | subscriptionExists
  /-- `TalentMovedError`. -/
  | talentMoved (msg : String)
  | apiError (status : Nat) (code : String)
  | replaceError (code : String)
  /-- A database, network or filesystem failure of any other kind. -/
  | failure (msg : String)
  deriving DecidableEq

/-- `IllegalTransitionError`, for either table. -/
def Exn.Illegal : Exn → Prop
  | .illegalAcquisition _ _ => True
  | .illegalAttempt _ _ => True
  | _ => False

end EmbyxManager
