import EmbyxManager.Atom.Pool
import EmbyxManager.Monitor.Ledger
/-!
# The world the monitor runs in

Everything the monitor's code asks for is one atomic action: a statement to the
ledger, a reading of the clock, a look at the run's stop token, or a question
to something outside (CloudDrive, the magnet resolvers, the catalog, the
mounted filesystem). The ledger answers as its statements say, or the
connection fails; the outside answers whatever it likes.

Time moves on between any two actions. The log remembers every action with the
ledger it found, so that properties of a whole run can be stated about it.
-/

namespace EmbyxManager
open Atom

/-! ## Statements -/

inductive Sql where
  | insertAcquisition (avid : Avid) (source : String) (taskDirPath : Option String) (nextActionAt : Option Time)
      (releaseDate : Option Date) (now : Time)
  | getAcquisition (avid : Avid)
  | setReleaseDate (avid : Avid) (releaseDate : Date) (onlyIfNull : Bool)
  | setTaskDir (avid : Avid) (taskDirPath source : String)
  | setNextActionAt (avid : Avid) (nextActionAt : Time)
  | casAcquisition (avid : Avid) (expected target : AcquisitionState) (now : Time) (note : Option String)
      (nextActionAt : Option Time) (archivedPaths : Option (List String))
  | beginReplacement (avid : Avid) (source taskDirPath : String) (replacePaths : List String) (now : Time)
  | dueForRetry (now : Time) (limit : Nat)
  | activeAvids
  | activeTaskDirs
  | addAttempts (avid : Avid) (candidates : List MagnetCandidate) (now : Time)
  | claimNextPending (avid : Avid) (now : Time)
  | claimAttempt (avid : Avid) (attemptNo : Nat) (now : Time)
  | casAttempt (avid : Avid) (attemptNo : Nat) (expected target : AttemptState) (now : Time) (error : Option String)
  | recordProgress (avid : Avid) (attemptNo : Nat) (state : AttemptState) (progress : Option Rat) (now : Time)
  | attemptsByInfoHash (hashes : List InfoHash)
  | archivedInfoHashes (hashes : List InfoHash)
  | inFlightAttempts
  | attemptsFor (avid : Avid)

namespace Sql

abbrev Res : Sql → Type
  | insertAcquisition .. | setReleaseDate .. | casAcquisition .. | beginReplacement .. => Bool
  | setTaskDir .. | setNextActionAt .. => Unit
  | getAcquisition _ => Option AcquisitionRecord
  | dueForRetry .. => List AcquisitionRecord
  | activeAvids => List Avid
  | activeTaskDirs => List String
  | addAttempts .. => Nat
  | claimNextPending .. | claimAttempt .. => Option MagnetAttemptRecord
  | casAttempt .. | recordProgress .. => Bool
  | attemptsByInfoHash _ | inFlightAttempts | attemptsFor _ => List MagnetAttemptRecord
  | archivedInfoHashes _ => List InfoHash

/-- What the database answers, and the ledger it leaves; an error leaves it as it was. -/
def run : (s : Sql) → Ledger → Except Exn (s.Res × Ledger)
  | insertAcquisition avid source dir next release now, l => .ok (l.insertAcquisition avid source dir next release now)
  | getAcquisition avid, l => .ok (l.acq avid, l)
  | setReleaseDate avid release onlyIfNull, l => .ok (l.setReleaseDate avid release onlyIfNull)
  | setTaskDir avid dir source, l => .ok ((), l.setTaskDir avid dir source)
  | setNextActionAt avid next, l => .ok ((), l.setNextActionAt avid next)
  | casAcquisition avid expected target now note next paths, l =>
    .ok (l.casAcquisition avid expected target now note next paths)
  | beginReplacement avid source dir paths now, l => .ok (l.beginReplacement avid source dir paths now)
  | dueForRetry now limit, l => .ok (l.dueForRetry now limit, l)
  | activeAvids, l => .ok (l.activeAvids, l)
  | activeTaskDirs, l => .ok (l.activeTaskDirs, l)
  | addAttempts avid candidates now, l => l.addAttempts avid candidates now
  | claimNextPending avid now, l => l.claimNextPending avid now
  | claimAttempt avid no now, l => l.claimAttempt avid no now
  | casAttempt avid no expected target now error, l => l.casAttempt avid no expected target now error
  | recordProgress avid no state progress now, l => l.recordProgress avid no state progress now
  | attemptsByInfoHash hashes, l => .ok (l.attemptsByInfoHash hashes, l)
  | archivedInfoHashes hashes, l => .ok (l.archivedInfoHashes hashes, l)
  | inFlightAttempts, l => .ok (l.inFlightAttempts, l)
  | attemptsFor avid, l => .ok (l.attemptsFor avid, l)

/-- The rows of the tracker's join come in no particular order; every other
statement answers what `run` says. -/
def Gives : (s : Sql) → Ledger → s.Res → Ledger → Prop
  | attemptsByInfoHash hashes, l, rows, l' => rows.Perm (l.attemptsByInfoHash hashes) ∧ l' = l
  | s, l, a, l' => s.run l = .ok (a, l')

theorem gives_of_run {s : Sql} {l l' : Ledger} {a : s.Res} (h : s.run l = .ok (a, l')) : s.Gives l a l' := by
  cases s with
  | attemptsByInfoHash hashes => cases h; exact ⟨.refl _, rfl⟩
  | _ => exact h

end Sql

/-- The ledger after some statements; one that raises leaves it as it was. -/
def Ledger.after (l : Ledger) (statements : List Sql) : Ledger :=
  statements.foldl (fun l s => match s.run l with | .ok (_, l') => l' | .error _ => l) l

/-! ## Questions to the outside -/

inductive OfflineStatus where
  | init | downloading | finished | error | unknown
  deriving DecidableEq, Repr

/-- One offline task of a listing; the hash is upper case, empty when CloudDrive has none. -/
structure OfflineTask where
  name : String
  infoHash : InfoHash
  status : OfflineStatus
  progress : Rat := 0
  deriving DecidableEq

structure DirEntry where
  fullPath : String
  isDirectory : Bool
  deriving DecidableEq

/-- A magnet as JavBus lists it. -/
structure JavBusMagnet where
  magnet : String
  sizeInt : Nat
  deriving DecidableEq

/-- One archive route, resolved to the local directory it covers. -/
structure TrackerRoute where
  root : String
  dst : String
  priority : Bool
  deriving DecidableEq

/-- What the catalog knows about a work that bears on filing it. -/
structure CreditedWork where
  talentIds : List Nat
  releaseDate : Option Date := none

/-- A talent as the catalog lists it; `names` are its name and aliases, case folded. -/
structure AvbaseTalent where
  talentId : Nat
  names : List String
  aliases : List String

structure FeedItem where
  key : String
  title : Option String
  link : Option String
  content : String
  deriving DecidableEq

inductive SubscriptionKind where
  | rss | avbaseTalent
  deriving DecidableEq

structure SubscriptionRecord where
  id : Nat
  kind : SubscriptionKind
  category : String
  enabled : Bool
  url : Option String
  talentId : Option Nat
  name : Option String
  aliases : List String
  cursor : List String
  seedPending : Bool

/-- A video file: its name is what an AVID is read from. -/
structure Video where
  path : String
  name : String
  size : Nat
  deriving DecidableEq

/-- A directory: its name is the last clue to an AVID. -/
structure Folder where
  path : String
  name : String
  deriving DecidableEq

/-- What a folder looked like on a pass of the reconcile scan. -/
structure Sighting where
  size : Nat
  entries : Nat
  deriving DecidableEq

inductive Query where
  -- CloudDrive
  | listOfflineFiles (taskDir : String)
  | addOfflineFiles (links : List String) (taskDir : String)
  | removeOfflineFiles (hashes : List InfoHash) (taskDir : String) (deleteFiles : Bool)
  | listDirectory (path : String)
  | deleteFiles (paths : List String)
  -- the resolvers and the catalog
  | sukebei (avid : Avid)
  | javbus (avid : Avid)
  | releaseDate (avid : Avid)
  | cast (avid : Avid)
  | talent (name : String)
  -- the subscriptions and their feeds
  | listSubscriptions
  | relinkTalent (id talentId : Nat) (aliases : List String) (now : Time)
  | recordPoll (id : Nat) (now : Time) (cursor : Option (List String)) (error : Option String)
  | fetchFeed (url : String)
  -- the download directories
  | locate (name : String) (avid : Avid)
  | findFolderFor (avid : Avid)
  | isDir (path : String)
  | listFolders (root : String)
  | measure (folder : String)
  | largeVideos (folder : String)
  | unlink (path : String)
  | stagedVideos
  -- the library
  | moveIntoLibrary (avid : Avid) (videos : List Video) (dst : String) (priority : Bool)
  | discard (folder : String)
  | replacedCopies (avid : Avid) (paths : List String)
  | libraryHoldings (avid : Avid) (taskDir : Option String)
  deriving DecidableEq

abbrev Query.Res : Query → Type
  | listOfflineFiles _ => List OfflineTask
  | addOfflineFiles .. => Bool
  | listDirectory _ => List DirEntry
  | sukebei _ => Option String
  | javbus _ => List JavBusMagnet
  | releaseDate _ => Option Date
  | cast _ => Option CreditedWork
  | talent _ => Option AvbaseTalent
  | listSubscriptions => List SubscriptionRecord
  | relinkTalent .. => Option SubscriptionRecord
  | fetchFeed _ => List FeedItem
  | locate .. | findFolderFor _ => Option (Folder × TrackerRoute)
  | isDir _ => Bool
  | listFolders _ => List Folder
  | measure _ => Sighting
  | largeVideos _ | stagedVideos => List Video
  | moveIntoLibrary .. | replacedCopies .. | libraryHoldings .. => List String
  | removeOfflineFiles .. | deleteFiles _ | recordPoll .. | unlink _ | discard _ => Unit

/-! ## Actions -/

/-- Where in the code a look at the stop token stands. -/
inductive Point where
  | listing (taskDir : String)
  | advance (attempt : MagnetAttemptRecord) (task : OfflineTask)
  | sweep (attempt : MagnetAttemptRecord)
  | subscription (id : Nat)
  | ingest
  | library (avid : Avid)
  | resolve
  | submit
  | submitNext (avid : Avid)
  | route (src : String)
  | folder (path : String)
  | group (avid : Avid)

inductive Op where
  | sql (s : Sql)
  | now
  | checkCancelled (p : Point)
  /-- The order in which the coroutines of a gather finish. -/
  | gathered (avids : List Avid)
  | ask (q : Query)

abbrev Op.Res : Op → Type
  | sql s => s.Res
  | now => Time
  | checkCancelled _ => Unit
  | gathered _ => List Avid
  | ask q => q.Res

/-- The monitor's programs. -/
abbrev M := Prog Op.Res Exn

abbrev Event := Prog.Event Op.Res Exn

/-- What a question to the outside may raise. -/
def Exn.External : Exn → Prop
  | .rpcError _ | .fileNotFound | .httpStatus _ | .subscriptionExists | .failure _ => True
  | _ => False

/-- What is answered at time `t`, and the ledger it leaves. A statement whose
connection fails may or may not have been executed. -/
def Answers (t : Time) (l : Ledger) : (op : Op) → Except Exn op.Res → Ledger → Prop
  | .sql s, .ok a, l' => s.Gives l a l'
  | .sql s, .error e, l' =>
    (s.run l = .error e ∧ l' = l) ∨ ((∃ m, e = .failure m) ∧ (l' = l ∨ ∃ a, s.Gives l a l'))
  | .now, r, l' => r = .ok t ∧ l' = l
  | .checkCancelled _, r, l' => (r = .ok () ∨ r = .error .runCancelled) ∧ l' = l
  | .gathered avids, r, l' => (∃ order, r = .ok order ∧ order.Perm avids) ∧ l' = l
  | .ask _, .ok _, l' => l' = l
  | .ask _, .error e, l' => e.External ∧ l' = l

structure Entry (ι : Type) where
  who : ι
  time : Time
  before : Ledger
  event : Event

structure World (ι : Type) where
  ledger : Ledger
  clock : Time
  /-- Newest first. -/
  log : List (Entry ι)

/-- A policy narrows down what the world may answer. -/
abbrev Policy := (op : Op) → Except Exn op.Res → Prop

namespace World
variable {ι : Type}

/-- One action of `who`, some time after the last. -/
def Step (A : Policy) (who : ι) : Env Op.Res Exn (World ι) := fun w op r w' =>
  ∃ t l', w.clock ≤ t ∧ A op r ∧ Answers t w.ledger op r l' ∧ w' = ⟨l', t, ⟨who, t, w.ledger, op, r⟩ :: w.log⟩

/-- What `i` has asked for and was answered, newest first. -/
def history [DecidableEq ι] (w : World ι) (i : ι) : List Event :=
  w.log.filterMap fun e => if e.who = i then some e.event else none

/-- What the outside answers when it never breaks its word on what it raises. -/
abbrev Outside := (q : Query) → Except { e : Exn // e.External } q.Res

/-- The answer when nothing is cancelled and no connection fails. -/
def reply (t : Time) (out : Outside) (l : Ledger) : (op : Op) → Except Exn op.Res × Ledger
  | .sql s =>
    match s.run l with
    | .ok (a, l') => (.ok a, l')
    | .error e => (.error e, l)
  | .now => (.ok t, l)
  | .checkCancelled _ => (.ok (), l)
  | .gathered avids => (.ok avids, l)
  | .ask q => ((out q).mapError (·.val), l)

theorem reply_answers (t : Time) (out : Outside) (l : Ledger) (op : Op) :
    Answers t l op (reply t out l op).1 (reply t out l op).2 := by
  cases op with
  | sql s =>
    cases h : s.run l with
    | ok x =>
      simp only [reply, h]
      exact Sql.gives_of_run h
    | error e =>
      simp only [reply, h]
      exact .inl ⟨h, rfl⟩
  | now => exact ⟨rfl, rfl⟩
  | checkCancelled p => exact ⟨.inl rfl, rfl⟩
  | gathered avids => exact ⟨⟨_, rfl, .refl _⟩, rfl⟩
  | ask q =>
    cases h : out q with
    | ok a =>
      simp only [reply, h]
      rfl
    | error e =>
      simp only [reply, h]
      exact ⟨e.2, rfl⟩

/-- One action of `who` against a fixed outside, so much later. -/
def turn (who : ι) (d : Nat × Outside) (w : World ι) (op : Op) : Except Exn op.Res × World ι :=
  let t := w.clock + d.1
  let x := reply t d.2 w.ledger op
  (x.1, ⟨x.2, t, ⟨who, t, w.ledger, op, x.1⟩ :: w.log⟩)

theorem turn_step {A : Policy} {who : ι} {d : Nat × Outside} {w : World ι} {op : Op}
    (hA : A op (turn who d w op).1) : Step A who w op (turn who d w op).1 (turn who d w op).2 :=
  ⟨_, _, Int.le_add_of_nonneg_right (Int.natCast_nonneg d.1), hA, reply_answers _ _ _ _, rfl⟩

/-- A program run alone against a fixed outside. -/
def play {α : Type} (who : ι) (d : Nat × Outside) (w : World ι) (p : M α) : Except Exn α × World ι :=
  p.exec (turn who d) w

theorem play_runs {α : Type} (who : ι) (d : Nat × Outside) (w : World ι) (p : M α) :
    p.Runs (Step (fun _ _ => True) who) w (play who d w p).1 (play who d w p).2 := by
  refine Prog.exec_runs ?_ w p
  exact fun _ _ => turn_step trivial

/-- A fixed schedule of threads against a fixed outside. -/
def schedule [DecidableEq ι] {α : Type} (turns : List (ι × (Nat × Outside))) (c : Pool Op.Res Exn α (World ι) ι) :
    Pool Op.Res Exn α (World ι) ι :=
  turns.foldl (Pool.turn turn) c

theorem reach_schedule [DecidableEq ι] {α : Type} (turns : List (ι × (Nat × Outside)))
    (c : Pool Op.Res Exn α (World ι) ι) : Pool.Reach (Step fun _ _ => True) c (schedule turns c) :=
  Pool.reach_turns (T := Step fun _ _ => True) (fun _ _ _ _ => turn_step trivial) turns c

@[simp] theorem history_cons [DecidableEq ι] (l : Ledger) (t t' : Time) (i j : ι) (b : Ledger) (e : Event)
    (log : List (Entry ι)) :
    history ⟨l, t, ⟨j, t', b, e⟩ :: log⟩ i = if j = i then e :: history ⟨l, t, log⟩ i else history ⟨l, t, log⟩ i := by
  simp only [history, List.filterMap_cons]
  by_cases h : j = i <;> simp [h]

/-- Invariants of an interleaving, from what each thread guards by its own history, and
what that history is once the thread has ended. -/
theorem reach_inv_ends [DecidableEq ι] {α : Type} {T : ι → Env Op.Res Exn (World ι)} {K : Policy}
    (hT : ∀ i w op r w', T i w op r w' → Step K i w op r w') (G : ι → List Event → Op → Prop) (I : World ι → Prop)
    (R : ι → α → List Event → Prop) (X : ι → Exn → List Event → Prop)
    (hstep : ∀ w i op r w', I w → G i (w.history i) op → T i w op r w' → I w')
    {c₀ c : Pool Op.Res Exn α (World ι) ι} (hI : I c₀.world) (hlog : c₀.world.log = [])
    (hP : ∀ i, (c₀.prog i).wp (Prog.recorded K) (G i) (R i) (X i) []) (h : Pool.Reach T c₀ c) :
    I c.world ∧ ∀ i, (c.prog i).wp (Prog.recorded K) (G i) (R i) (X i) (c.world.history i) := by
  have h0 : (∀ i, [] = c₀.world.history i) ∧ I c₀.world := ⟨fun i => by simp [history, hlog], hI⟩
  have hstep' : ∀ w (q : ι → List Event) i op r w', (∀ j, q j = w.history j) ∧ I w → G i (q i) op → T i w op r w' →
      ∃ h', Prog.recorded K (q i) op r h' ∧ (∀ j, Function.update q i h' j = w'.history j) ∧ I w' := by
    rintro w q i op r w' ⟨hq, hI⟩ hG ht
    rw [hq i] at hG
    have hI' := hstep _ _ _ _ _ hI hG ht
    obtain ⟨t, l', -, hk, -, rfl⟩ := hT _ _ _ _ _ ht
    refine ⟨⟨op, r⟩ :: q i, ⟨hk, rfl⟩, fun j => ?_, hI'⟩
    rw [history_cons]
    by_cases hj : i = j
    · subst hj
      simp [hq i, history]
    · simp [Function.update_of_ne (Ne.symm hj), hj, hq j, history]
  obtain ⟨q, ⟨hq, hI⟩, hw⟩ :=
    Pool.reach_inv_ends (fun _ => Prog.recorded K) G (fun w q => (∀ i, q i = w.history i) ∧ I w) R X hstep' h0 hP h
  exact ⟨hI, fun i => hq i ▸ hw i⟩

/-- Invariants of an interleaving, from what each thread guards by its own history;
and whatever a thread is about to ask for, it is allowed to. -/
theorem reach_inv [DecidableEq ι] {α : Type} {T : ι → Env Op.Res Exn (World ι)} {K : Policy}
    (hT : ∀ i w op r w', T i w op r w' → Step K i w op r w') (G : ι → List Event → Op → Prop) (I : World ι → Prop)
    (hstep : ∀ w i op r w', I w → G i (w.history i) op → T i w op r w' → I w')
    {c₀ c : Pool Op.Res Exn α (World ι) ι} (hI : I c₀.world) (hlog : c₀.world.log = [])
    (hP : ∀ i, (c₀.prog i).wp (Prog.recorded K) (G i) (fun _ _ => True) (fun _ _ => True) [])
    (h : Pool.Reach T c₀ c) :
    I c.world ∧ ∀ i op next, c.prog i = .act op next → G i (c.world.history i) op := by
  obtain ⟨hI', hw⟩ := reach_inv_ends hT G I _ _ hstep hI hlog hP h
  refine ⟨hI', fun i op next hi => ?_⟩
  have := hw i
  rw [hi] at this
  exact this.1

end World

/-! ## What is known of an answer -/

/-- Facts about an answer that need no look at the ledger it came from. -/
def known : Policy
  | .sql (.getAcquisition avid), .ok (some row) => row.avid = avid
  | .sql (.dueForRetry ..), .ok rows => ∀ row ∈ rows, row.state ∈ AcquisitionState.due
  | .sql (.claimNextPending avid now), .ok (some row) =>
    row.avid = avid ∧ row.state = .submitted ∧ row.submittedAt = some now
  | .sql (.claimAttempt avid no now), .ok (some row) =>
    row.key = (avid, no) ∧ row.state = .submitted ∧ row.submittedAt = some now
  | .sql (.attemptsByInfoHash hashes), .ok rows =>
    ∀ row ∈ rows, row.Live ∧ ∃ h ∈ hashes, row.infoHash = some h
  | .sql .inFlightAttempts, .ok rows => ∀ row ∈ rows, row.state ∈ AttemptState.inFlight
  | _, .error e => ¬ e.Illegal
  | _, _ => True

/-- A constraint of the schema that a statement would break. -/
def Exn.Violation (e : Exn) : Prop := e = .uniqueViolation ∨ e = .foreignKeyViolation

theorem Exn.Violation.legal {e : Exn} (h : e.Violation) : ¬ e.Illegal := by
  rcases h with rfl | rfl <;> exact id

theorem withAttempts_error {l : Ledger} {t : Attempts} {e : Exn} (h : l.withAttempts t = .error e) : e.Violation := by
  unfold Ledger.withAttempts at h
  split at h
  · split at h
    · cases h
    · cases h; exact .inl rfl
  · cases h; exact .inr rfl

/-- The ledger itself refuses a statement only for its constraints. -/
theorem run_error {s : Sql} {l : Ledger} {e : Exn} (h : s.run l = .error e) : e.Violation := by
  have map_error : ∀ {α β : Type} {f : α → β} {x : Except Exn α}, x.map f = .error e → x = .error e := by
    intro α β f x hx
    cases x with
    | error e' => simpa [Except.map] using hx
    | ok a => cases hx
  cases s with
  | addAttempts avid cs now => exact withAttempts_error (map_error h)
  | casAttempt avid no ex tg now err => exact withAttempts_error (map_error h)
  | recordProgress avid no st pr now => exact withAttempts_error (map_error h)
  | claimAttempt avid no now => exact withAttempts_error (map_error (map_error h))
  | claimNextPending avid now =>
    change l.claimNextPending avid now = _ at h
    unfold Ledger.claimNextPending at h
    split at h
    · exact withAttempts_error (map_error (map_error h))
    · cases h
  | _ => cases h

theorem mem_dueForRetry {l : Ledger} {now : Time} {limit : Nat} {r : AcquisitionRecord}
    (h : r ∈ l.dueForRetry now limit) : l.acq r.avid = some r ∧ r.state ∈ AcquisitionState.due ∧
      ∃ t, r.nextActionAt = some t ∧ t ≤ now := by
  have hr := List.mem_of_mem_take h
  simp only [List.mem_insertionSort, List.mem_filter, decide_eq_true_eq, Option.any_eq_true] at hr
  exact ⟨Table.find_eq_some.2 ⟨hr.1, rfl⟩, hr.2⟩

theorem gives_known {s : Sql} {l l' : Ledger} {a : s.Res} (h : s.Gives l a l') : known (.sql s) (.ok a) := by
  -- only what a caller relies on is told: the key asked for, the states, the hashes
  cases s with
  | getAcquisition avid =>
    cases a with
    | none => trivial
    | some row =>
      simp only [Sql.Gives, Sql.run, Except.ok.injEq, Prod.mk.injEq] at h
      exact Ledger.acq_avid h.1
  | dueForRetry now limit =>
    simp only [Sql.Gives, Sql.run, Except.ok.injEq, Prod.mk.injEq] at h
    intro row hrow
    rw [← h.1] at hrow
    exact (mem_dueForRetry hrow).2.1
  | claimNextPending avid now =>
    cases a with
    | none => trivial
    | some row =>
      rcases Ledger.claimNextPending_spec h with ⟨h, -⟩ | ⟨n, r, -, hr, -, h, -⟩
      · cases h
      · cases h
        exact ⟨congrArg Prod.fst (Ledger.att_key hr), rfl, rfl⟩
  | claimAttempt avid no now =>
    cases a with
    | none => trivial
    | some row =>
      obtain ⟨r, hr, -, rfl⟩ := ((Ledger.claimAttempt_spec h).2.2 row).1 rfl
      exact ⟨(MagnetAttemptRecord.key_submittedBy now r).trans (Ledger.att_key hr), rfl, rfl⟩
  | attemptsByInfoHash hashes =>
    intro row hrow
    obtain ⟨-, hl, x, hx, hm⟩ := Ledger.mem_attemptsByInfoHash.1 (h.1.mem_iff.1 hrow)
    exact ⟨hl, x, hm, hx⟩
  | inFlightAttempts =>
    simp only [Sql.Gives, Sql.run, Except.ok.injEq, Prod.mk.injEq] at h
    intro row hrow
    rw [← h.1] at hrow
    exact (Ledger.mem_inFlightAttempts.1 hrow).2
  | _ => trivial

theorem answers_known {t : Time} {l l' : Ledger} {op : Op} {r : Except Exn op.Res} (h : Answers t l op r l') :
    known op r := by
  have error : ∀ e, r = .error e → ¬ e.Illegal := by
    rintro e rfl
    cases op with
    | sql s =>
      rcases h with ⟨h, -⟩ | ⟨⟨m, rfl⟩, -⟩
      · exact (run_error h).legal
      · exact id
    | now => cases h.1
    | checkCancelled p => rcases h.1 with h | h <;> cases h; exact id
    | gathered avids => obtain ⟨⟨_, h, -⟩, -⟩ := h; cases h
    | ask q =>
      intro hi
      have := h.1
      cases e <;> simp_all [Exn.External, Exn.Illegal]
  cases r with
  | error e => cases op with
    | sql s => cases s <;> exact error e rfl
    | _ => exact error e rfl
  | ok a =>
    cases op with
    | sql s => exact gives_known h
    | _ => trivial

/-! ## What a run was answered -/

/-- The exception was answered to the run, not made by it. -/
def Answered (e : Exn) (h : List Event) : Prop := ¬ e.Illegal ∧ ∃ op, (⟨op, .error e⟩ : Event) ∈ h

theorem known_error {op : Op} {e : Exn} (h : known op (.error e)) : ¬ e.Illegal := by
  cases op with
  | sql s => cases s <;> exact h
  | _ => exact h

theorem answered_of_known {op : Op} {e : Exn} {h : List Event} (hk : known op (.error e)) :
    Answered e (⟨op, .error e⟩ :: h) :=
  ⟨known_error hk, op, by simp⟩

/-- A run in the world, as the thread itself saw it. -/
theorem World.runs_recorded {ι α : Type} [DecidableEq ι] {A : Policy} {who : ι} {p : M α} {out : Except Exn α}
    {w w' : World ι} (hr : p.Runs (Step A who) w out w') :
    p.Runs (Prog.recorded known) (w.history who) out (w'.history who) := by
  induction hr with
  | ret a w => exact .ret a _
  | raise e w => exact .raise e _
  | @act op k r w w₁ out w' ht _ ih =>
    refine .act ?_ ih
    obtain ⟨t, l, -, -, ha, rfl⟩ := ht
    rw [history_cons, if_pos rfl]
    exact ⟨answers_known ha, rfl⟩

/-- The exception a run ends in. -/
def raised {α : Type} : Except Exn α → Option Exn
  | .error e => some e
  | .ok _ => none

theorem World.play_raises {ι α : Type} {who : ι} {d : Nat × Outside} {w : World ι} {p : M α} {e : Exn}
    (h : raised (play who d w p).1 = some e) :
    p.Runs (Step (fun _ _ => True) who) w (.error e) (play who d w p).2 := by
  have hr := play_runs who d w p
  cases ho : (play who d w p).1 with
  | error e' =>
    rw [ho] at h hr
    cases h
    exact hr
  | ok a => rw [ho] at h; cases h

theorem World.play_returns {ι α : Type} {who : ι} {d : Nat × Outside} {w : World ι} {p : M α} {a : α}
    (h : (play who d w p).1.toOption = some a) :
    p.Runs (Step (fun _ _ => True) who) w (.ok a) (play who d w p).2 := by
  have hr := play_runs who d w p
  cases ho : (play who d w p).1 with
  | ok a' =>
    rw [ho] at h hr
    cases h
    exact hr
  | error e => rw [ho] at h; cases h

end EmbyxManager
