import Mathlib.Data.List.Pairwise
import Mathlib.Data.List.Sort
import Mathlib.Data.Prod.Lex
import Mathlib.Data.String.Basic
import EmbyxManager.Atom.Table
import EmbyxManager.Monitor.States
/-!
# The ledger and its statements

The two tables of `monitor/acquisitions.py` and each SQL statement (or
transaction) the repository sends them, as a function on the ledger. A ledger
carries the constraints the schema declares: an attempt belongs to an
acquisition, and at most one live attempt holds an info hash. A statement that
would break one raises instead, as PostgreSQL does.

The specifications say what a statement answers and what it leaves in each row,
so no later proof looks at the tables again.
-/

namespace EmbyxManager
open Atom

/-- The partial unique index `archive_magnet_attempts_live_hash_idx`. -/
def LiveUnique (rows : List MagnetAttemptRecord) : Prop :=
  ((rows.filter fun r => r.Live).filterMap (·.infoHash)).Nodup

instance (rows : List MagnetAttemptRecord) : Decidable (LiveUnique rows) := inferInstanceAs (Decidable (List.Nodup _))

abbrev Acquisitions := Table AcquisitionRecord Avid (·.avid)
abbrev Attempts := Table MagnetAttemptRecord AttemptKey (·.key)

structure Ledger where
  acquisitions : Acquisitions
  attempts : Attempts
  owned : ∀ r ∈ attempts.rows, (acquisitions.find r.avid).isSome
  liveUnique : LiveUnique attempts.rows

namespace Ledger

def empty : Ledger := ⟨.empty, .empty, by simp [Table.empty], by decide⟩

/-- The row of an AVID. -/
def acq (l : Ledger) (a : Avid) : Option AcquisitionRecord := l.acquisitions.find a

/-- One attempt of an AVID. -/
def att (l : Ledger) (k : AttemptKey) : Option MagnetAttemptRecord := l.attempts.find k

theorem acq_avid {l : Ledger} {a : Avid} {r : AcquisitionRecord} (h : l.acq a = some r) : r.avid = a :=
  Table.find_key (t := l.acquisitions) h

theorem att_key {l : Ledger} {k : AttemptKey} {r : MagnetAttemptRecord} (h : l.att k = some r) : r.key = k :=
  Table.find_key h

theorem att_of_mem {l : Ledger} {r : MagnetAttemptRecord} (h : r ∈ l.attempts.rows) : l.att r.key = some r :=
  Table.find_eq_some.2 ⟨h, rfl⟩

theorem mem_of_att {l : Ledger} {k : AttemptKey} {r : MagnetAttemptRecord} (h : l.att k = some r) :
    r ∈ l.attempts.rows :=
  Table.mem_of_find h

theorem nodup_filterMap_inj {α β : Type} {f : α → Option β} {l : List α} (h : (l.filterMap f).Nodup) {x y : α} {b : β}
    (hx : x ∈ l) (hy : y ∈ l) (hfx : f x = some b) (hfy : f y = some b) : x = y := by
  by_contra hne
  have : Std.Symm fun x y => ∀ b, f x = some b → ∀ b', f y = some b' → b ≠ b' :=
    ⟨fun x y hxy b hb b' hb' => (hxy b' hb' b hb).symm⟩
  exact (List.pairwise_filterMap.1 h).forall hx hy hne b hfx b hfy rfl

/-- At most one live attempt holds a hash. -/
theorem live_inj {l : Ledger} {k k' : AttemptKey} {r r' : MagnetAttemptRecord} {h : InfoHash} (hr : l.att k = some r)
    (hr' : l.att k' = some r') (hl : r.Live) (hl' : r'.Live) (hh : r.infoHash = some h) (hh' : r'.infoHash = some h) :
    k = k' := by
  have := nodup_filterMap_inj l.liveUnique (List.mem_filter.2 ⟨mem_of_att hr, by simpa using hl⟩)
    (List.mem_filter.2 ⟨mem_of_att hr', by simpa using hl'⟩) hh hh'
  rw [← att_key hr, ← att_key hr', this]

/-! ## The constraints are checked on every write -/

theorem map_ok {ε α β : Type} {f : α → β} {x : Except ε α} {b : β} (h : x.map f = .ok b) : ∃ a, x = .ok a ∧ f a = b := by
  cases x with
  | error e => cases h
  | ok a => cases h; exact ⟨a, rfl, rfl⟩

/-- A write to `archive_acquisitions` that drops no row. -/
def withAcquisitions (l : Ledger) (t : Acquisitions) (h : ∀ a, (l.acquisitions.find a).isSome → (t.find a).isSome) :
    Ledger :=
  { l with acquisitions := t, owned := fun r hr => h _ (l.owned r hr) }

/-- A write to `archive_magnet_attempts`. -/
def withAttempts (l : Ledger) (t : Attempts) : Except Exn Ledger :=
  if ho : ∀ r ∈ t.rows, (l.acquisitions.find r.avid).isSome then
    if hu : LiveUnique t.rows then .ok ⟨l.acquisitions, t, ho, hu⟩ else .error .uniqueViolation
  else .error .foreignKeyViolation

def updateAcquisition (l : Ledger) (a : Avid) (p : AcquisitionRecord → Bool) (f : AcquisitionRecord → AcquisitionRecord)
    (hf : ∀ r, (f r).avid = r.avid) : Ledger :=
  l.withAcquisitions (l.acquisitions.modify a p f hf) fun a' h => by rw [Table.find_modify]; simpa using h

def updateAttempt (l : Ledger) (k : AttemptKey) (p : MagnetAttemptRecord → Bool)
    (f : MagnetAttemptRecord → MagnetAttemptRecord) (hf : ∀ r, (f r).key = r.key) : Except Exn Ledger :=
  l.withAttempts (l.attempts.modify k p f hf)

/-- The `UPDATE`, with whether it hit a row. -/
def touchAttempt (l : Ledger) (k : AttemptKey) (p : MagnetAttemptRecord → Bool)
    (f : MagnetAttemptRecord → MagnetAttemptRecord) (hf : ∀ r, (f r).key = r.key) : Except Exn (Bool × Ledger) :=
  (l.updateAttempt k p f hf).map fun l' => (l.attempts.matched k p, l')

@[simp] theorem acq_updateAcquisition (l : Ledger) (a a' : Avid) (p f hf) :
    (l.updateAcquisition a p f hf).acq a' = (l.acq a').map fun r => if a' = a ∧ p r then f r else r :=
  Table.find_modify _ _ _ _ _ hf

@[simp] theorem att_updateAcquisition (l : Ledger) (a : Avid) (p f hf) (k : AttemptKey) :
    (l.updateAcquisition a p f hf).att k = l.att k := rfl

theorem withAttempts_ok {l l' : Ledger} {t : Attempts} (h : l.withAttempts t = .ok l') :
    l'.acquisitions = l.acquisitions ∧ l'.attempts = t := by
  unfold withAttempts at h
  split at h
  · split at h
    · cases h; exact ⟨rfl, rfl⟩
    · cases h
  · cases h

theorem touchAttempt_spec {l l' : Ledger} {k : AttemptKey} {p f hf b} (h : l.touchAttempt k p f hf = .ok (b, l')) :
    (∀ a, l'.acq a = l.acq a) ∧ (∀ k', l'.att k' = (l.att k').map fun r => if k' = k ∧ p r then f r else r) ∧
      (b = true ↔ ∃ r, l.att k = some r ∧ p r = true) := by
  obtain ⟨l₁, hu, he⟩ := map_ok h
  cases he
  obtain ⟨h1, h2⟩ := withAttempts_ok hu
  refine ⟨fun a => by simp only [acq, h1], fun k' => ?_, Table.matched_iff⟩
  simp only [att, h2]
  exact Table.find_modify ..

/-- A row that does not become live, and keeps its hash, cannot break the index. -/
theorem touchAttempt_isOk (l : Ledger) (k : AttemptKey) (p f hf)
    (hl : ∀ r, p r = true → (f r).Live → r.Live ∧ (f r).infoHash = r.infoHash) :
    ∃ b l', l.touchAttempt k p f hf = .ok (b, l') := by
  -- no key changes, so every attempt keeps its acquisition
  have ho : ∀ r ∈ (l.attempts.modify k p f hf).rows, (l.acquisitions.find r.avid).isSome := by
    intro r hr
    obtain ⟨r', hr', rfl⟩ := List.mem_map.1 hr
    have hk : (if r'.key = k ∧ p r' = true then f r' else r').avid = r'.avid := by
      split
      · exact congrArg Prod.fst (hf r')
      · rfl
    rw [hk]
    exact l.owned r' hr'
  -- the live hashes afterwards are some of those before
  have hu : LiveUnique (l.attempts.modify k p f hf).rows := by
    refine List.Sublist.nodup ?_ l.liveUnique
    simp only [Table.modify]
    generalize l.attempts.rows = rows
    induction rows with
    | nil => simp
    | cons r rows ih =>
      have hg : (if r.key = k ∧ p r = true then f r else r).Live →
          r.Live ∧ (if r.key = k ∧ p r = true then f r else r).infoHash = r.infoHash := by
        split
        · rename_i h; exact hl r h.2
        · exact fun h => ⟨h, rfl⟩
      simp only [List.map_cons]
      generalize (if r.key = k ∧ p r = true then f r else r) = r' at hg ⊢
      by_cases hr' : r'.Live
      · obtain ⟨hr, hh⟩ := hg hr'
        simp only [List.filter_cons, hr, hr', decide_true, if_true, List.filterMap_cons, hh]
        cases r.infoHash with
        | none => exact ih
        | some h => exact ih.cons_cons h
      · simp only [List.filter_cons, hr', decide_false, Bool.false_eq_true, if_false]
        refine ih.trans ?_
        split
        · exact List.Sublist.filterMap _ (List.sublist_cons_self ..)
        · exact .refl _
  exact ⟨_, _, by rw [touchAttempt, updateAttempt, withAttempts, dif_pos ho, dif_pos hu]; rfl⟩

/-! ## Statements on `archive_acquisitions` -/

/-- `INSERT … ON CONFLICT (avid) DO NOTHING RETURNING avid`, of a discovery. -/
def insertAcquisition (l : Ledger) (avid : Avid) (source : String) (taskDirPath : Option String)
    (nextActionAt : Option Time) (releaseDate : Option Date) (now : Time) : Bool × Ledger :=
  ((l.acq avid).isNone,
    l.withAcquisitions
      (l.acquisitions.insertNew { avid, state := .discovered, source, taskDirPath, nextActionAt, releaseDate,
                                  createdAt := now, updatedAt := now })
      fun a h => by
        rw [Table.find_insertNew]
        split
        · rfl
        · exact h)

/-- `UPDATE … SET release_date`; `onlyIfNull` is the `AND release_date IS NULL` of `set_release_date`. -/
def setReleaseDate (l : Ledger) (avid : Avid) (releaseDate : Date) (onlyIfNull : Bool) : Bool × Ledger :=
  let p (r : AcquisitionRecord) := !onlyIfNull || r.releaseDate.isNone
  (l.acquisitions.matched avid p, l.updateAcquisition avid p (fun r => { r with releaseDate }) fun _ => rfl)

def setTaskDir (l : Ledger) (avid : Avid) (taskDirPath source : String) : Ledger :=
  l.updateAcquisition avid (fun _ => true) (fun r => { r with taskDirPath, source }) fun _ => rfl

def setNextActionAt (l : Ledger) (avid : Avid) (nextActionAt : Time) : Ledger :=
  l.updateAcquisition avid (fun _ => true) (fun r => { r with nextActionAt }) fun _ => rfl

/-- The `UPDATE` of `transition`: a compare-and-set on the state. -/
def casAcquisition (l : Ledger) (avid : Avid) (expected target : AcquisitionState) (now : Time) (note : Option String)
    (nextActionAt : Option Time) (archivedPaths : Option (List String)) : Bool × Ledger :=
  let p (r : AcquisitionRecord) := r.state = expected
  (l.acquisitions.matched avid p,
    l.updateAcquisition avid p
      (fun r => { r with
        state := target, note, nextActionAt, updatedAt := now
        archivedPaths := archivedPaths.getD r.archivedPaths
        replacePaths := if target = .archived then [] else r.replacePaths
        replaceAfterAttempt := if target = .archived then none else r.replaceAfterAttempt })
      fun _ => rfl)

/-- `COALESCE(MAX(attempt_no), 0)` of an AVID. -/
def maxAttemptNo (l : Ledger) (avid : Avid) : Nat :=
  ((l.attempts.rows.filter fun r => r.avid = avid).map (·.attemptNo)).foldl max 0

/-- The transaction of `begin_replacement`; false when the row is not replaceable. -/
def beginReplacement (l : Ledger) (avid : Avid) (source taskDirPath : String) (replacePaths : List String) (now : Time) :
    Bool × Ledger :=
  match l.acq avid with
  | none =>
    (true,
      l.withAcquisitions
        (l.acquisitions.insertNew { avid, state := .discovered, source, taskDirPath, replacePaths,
                                    replaceAfterAttempt := some 0, createdAt := now, updatedAt := now })
        fun a h => by
          rw [Table.find_insertNew]
          split
          · rfl
          · exact h)
  | some row =>
    if row.state ∈ AcquisitionState.replaceable then
      (true,
        l.updateAcquisition avid (fun _ => true)
          (fun r => { r with
            state := .discovered, note := none, nextActionAt := none, taskDirPath, replacePaths, updatedAt := now
            replaceAfterAttempt := some (l.maxAttemptNo avid) })
          fun _ => rfl)
    else (false, l)

/-- Rows whose action timer has expired, oldest deadline first. -/
def dueForRetry (l : Ledger) (now : Time) (limit : Nat) : List AcquisitionRecord :=
  let due := l.acquisitions.rows.filter fun r =>
    r.state ∈ AcquisitionState.due ∧ r.nextActionAt.any fun t => t ≤ now
  (due.insertionSort fun r r' =>
    toLex (r.nextActionAt.getD 0, r.avid) ≤ toLex (r'.nextActionAt.getD 0, r'.avid)).take limit

def activeAvids (l : Ledger) : List Avid :=
  (l.acquisitions.rows.filter fun r => r.state ∈ AcquisitionState.active).map (·.avid)

/-- The offline directories pinned on active rows. -/
def activeTaskDirs (l : Ledger) : List String :=
  ((l.acquisitions.rows.filter fun r => r.state ∈ AcquisitionState.active).filterMap (·.taskDirPath)).dedup.insertionSort
    (· ≤ ·)

/-! ## Statements on `archive_magnet_attempts` -/

/-- The rows `add_attempts` appends: candidates whose hash is new, numbered on. -/
def newAttempts (avid : Avid) (now : Time) : Nat → List InfoHash → List MagnetCandidate → List MagnetAttemptRecord
  | _, _, [] => []
  | no, seen, c :: cs =>
    let row : MagnetAttemptRecord := ⟨avid, no, c.magnet, c.infoHash, c.source, c.sizeHint, .pending, none, none, none, now⟩
    match c.infoHash with
    | some h => if h ∈ seen then newAttempts avid now no seen cs else row :: newAttempts avid now (no + 1) (h :: seen) cs
    | none => row :: newAttempts avid now (no + 1) seen cs

/-- The transaction of `add_attempts`: how many rows went in. -/
def addAttempts (l : Ledger) (avid : Avid) (candidates : List MagnetCandidate) (now : Time) : Except Exn (Nat × Ledger) :=
  let rows := l.attempts.rows.filter fun r => r.avid = avid
  let pending := newAttempts avid now (l.maxAttemptNo avid + 1) (rows.filterMap (·.infoHash)) candidates
  (l.withAttempts (pending.foldl .insertNew l.attempts)).map fun l' => (pending.length, l')

/-- No live attempt holds this attempt's hash. -/
def hashFree (l : Ledger) (r : MagnetAttemptRecord) : Bool :=
  l.attempts.rows.all fun live => !(live.Live ∧ live.infoHash.isSome ∧ live.infoHash = r.infoHash)

/-- The attempt `claim_next_pending` selects: the lowest pending one whose hash is free. -/
def nextPending (l : Ledger) (avid : Avid) : Option Nat :=
  ((l.attempts.rows.filter fun r => r.avid = avid ∧ r.state = .pending ∧ l.hashFree r).map (·.attemptNo)).min?

/-- `UPDATE … SET state = 'submitted' WHERE … AND state = 'pending' RETURNING *`. -/
def claimAttempt (l : Ledger) (avid : Avid) (attemptNo : Nat) (now : Time) :
    Except Exn (Option MagnetAttemptRecord × Ledger) :=
  let p (r : MagnetAttemptRecord) := r.state = .pending
  (l.touchAttempt (avid, attemptNo) p (fun r => r.submittedBy now) (MagnetAttemptRecord.key_submittedBy now)).map
    fun (hit, l') => (if hit then l'.att (avid, attemptNo) else none, l')

def claimNextPending (l : Ledger) (avid : Avid) (now : Time) : Except Exn (Option MagnetAttemptRecord × Ledger) :=
  match l.nextPending avid with
  | some n => l.claimAttempt avid n now
  | none => .ok (none, l)

/-- The `UPDATE` of `transition_attempt`: a compare-and-set on the state. -/
def casAttempt (l : Ledger) (avid : Avid) (attemptNo : Nat) (expected target : AttemptState) (now : Time)
    (error : Option String) : Except Exn (Bool × Ledger) :=
  let p (r : MagnetAttemptRecord) := r.state = expected
  l.touchAttempt (avid, attemptNo) p (fun r => { r with state := target, error, updatedAt := now }) fun _ => rfl

/-- The `UPDATE` of `record_progress`: only an in-flight row, only when it moved. -/
def recordProgress (l : Ledger) (avid : Avid) (attemptNo : Nat) (state : AttemptState) (progress : Option Rat)
    (now : Time) : Except Exn (Bool × Ledger) :=
  let p (r : MagnetAttemptRecord) := r.state ∈ AttemptState.inFlight ∧ (r.state ≠ state ∨ r.progress ≠ progress)
  l.touchAttempt (avid, attemptNo) p (fun r => { r with state, progress, updatedAt := now }) fun _ => rfl

/-- Live attempts by hash: the values of the tracker's join, in row order. -/
def attemptsByInfoHash (l : Ledger) (hashes : List InfoHash) : List MagnetAttemptRecord :=
  l.attempts.rows.filter fun r => r.Live ∧ r.infoHash.any (· ∈ hashes)

/-- The hashes among these whose attempt archived and that no live attempt holds. -/
def archivedInfoHashes (l : Ledger) (hashes : List InfoHash) : List InfoHash :=
  hashes.filter fun h =>
    l.attempts.rows.any (fun r => r.infoHash = some h ∧ r.state = .archived) ∧
      !l.attempts.rows.any fun r => r.infoHash = some h ∧ r.Live

/-- Attempts CloudDrive should still be working on, oldest update first. -/
def inFlightAttempts (l : Ledger) : List MagnetAttemptRecord :=
  (l.attempts.rows.filter fun r => r.state ∈ AttemptState.inFlight).insertionSort fun r r' =>
    toLex (r.updatedAt, toLex (r.avid, r.attemptNo)) ≤ toLex (r'.updatedAt, toLex (r'.avid, r'.attemptNo))

def attemptsFor (l : Ledger) (avid : Avid) : List MagnetAttemptRecord :=
  (l.attempts.rows.filter fun r => r.avid = avid).insertionSort fun r r' => r.attemptNo ≤ r'.attemptNo

/-! ## What the statements leave behind -/

section Spec
variable {l l' : Ledger} {a : Avid} {n : Nat} {now : Time}

/-- The row a discovery inserts. -/
def discoveredRow (avid : Avid) (source : String) (taskDirPath : Option String) (nextActionAt : Option Time)
    (releaseDate : Option Date) (now : Time) : AcquisitionRecord :=
  { avid, state := .discovered, source, taskDirPath, nextActionAt, releaseDate, createdAt := now, updatedAt := now }

@[simp] theorem att_insertAcquisition (l : Ledger) (a s d t rd now) (k : AttemptKey) :
    (l.insertAcquisition a s d t rd now).2.att k = l.att k := rfl

theorem acq_insertAcquisition (l : Ledger) (a s d t rd now) (a' : Avid) :
    (l.insertAcquisition a s d t rd now).2.acq a' =
      if l.acq a = none ∧ a = a' then some (discoveredRow a s d t rd now) else l.acq a' :=
  Table.find_insertNew ..

@[simp] theorem insertAcquisition_fst (l : Ledger) (a s d t rd now) :
    (l.insertAcquisition a s d t rd now).1 = (l.acq a).isNone := rfl

@[simp] theorem att_setReleaseDate (l : Ledger) (a d b) (k : AttemptKey) : (l.setReleaseDate a d b).2.att k = l.att k := rfl

@[simp] theorem acq_setReleaseDate (l : Ledger) (a d b) (a' : Avid) :
    (l.setReleaseDate a d b).2.acq a' =
      (l.acq a').map fun r => if a' = a ∧ (!b || r.releaseDate.isNone) then { r with releaseDate := some d } else r :=
  acq_updateAcquisition ..

@[simp] theorem att_setTaskDir (l : Ledger) (a d s) (k : AttemptKey) : (l.setTaskDir a d s).att k = l.att k := rfl

@[simp] theorem acq_setTaskDir (l : Ledger) (a d s) (a' : Avid) :
    (l.setTaskDir a d s).acq a' =
      (l.acq a').map fun r => if a' = a then { r with taskDirPath := some d, source := s } else r := by
  simp [setTaskDir]

@[simp] theorem att_setNextActionAt (l : Ledger) (a t) (k : AttemptKey) : (l.setNextActionAt a t).att k = l.att k := rfl

@[simp] theorem acq_setNextActionAt (l : Ledger) (a t) (a' : Avid) :
    (l.setNextActionAt a t).acq a' = (l.acq a').map fun r => if a' = a then { r with nextActionAt := some t } else r := by
  simp [setNextActionAt]

@[simp] theorem att_casAcquisition (l : Ledger) (a e t now note na ps) (k : AttemptKey) :
    (l.casAcquisition a e t now note na ps).2.att k = l.att k := rfl

@[simp] theorem acq_casAcquisition (l : Ledger) (a e t now note na ps) (a' : Avid) :
    (l.casAcquisition a e t now note na ps).2.acq a' =
      (l.acq a').map fun r => if a' = a ∧ r.state = e then
        { r with
          state := t, note := note, nextActionAt := na, updatedAt := now
          archivedPaths := ps.getD r.archivedPaths
          replacePaths := if t = .archived then [] else r.replacePaths
          replaceAfterAttempt := if t = .archived then none else r.replaceAfterAttempt } else r := by
  simp [casAcquisition]

theorem casAcquisition_fst {a e t now note na ps} :
    (l.casAcquisition a e t now note na ps).1 = true ↔ ∃ r, l.acq a = some r ∧ r.state = e := by
  simp [casAcquisition, Table.matched_iff, acq]

@[simp] theorem att_beginReplacement (l : Ledger) (a s d ps now) (k : AttemptKey) :
    (l.beginReplacement a s d ps now).2.att k = l.att k := by
  unfold beginReplacement
  split
  · rfl
  · split <;> rfl

theorem acq_beginReplacement_ne {a a' : Avid} (h : a ≠ a') (l : Ledger) (s d ps now) :
    (l.beginReplacement a s d ps now).2.acq a' = l.acq a' := by
  unfold beginReplacement
  split
  · refine (Table.find_insertNew ..).trans (if_neg ?_)
    rintro ⟨-, he⟩
    exact h he
  · split
    · simp [Ne.symm h]
    · rfl

theorem casAttempt_spec {e t : AttemptState} {err b} (h : l.casAttempt a n e t now err = .ok (b, l')) :
    (∀ a', l'.acq a' = l.acq a') ∧
    (∀ k, l'.att k = (l.att k).map fun r => if k = (a, n) ∧ r.state = e then
      { r with state := t, error := err, updatedAt := now } else r) ∧
    (b = true ↔ ∃ r, l.att (a, n) = some r ∧ r.state = e) := by
  simpa using touchAttempt_spec h

/-- An edge never makes a row live, except that a claim may. -/
theorem live_of_edge {e t : AttemptState} (he : t ∈ e.edges) (hp : e ≠ .pending) (ht : t ∈ AttemptState.live) :
    e ∈ AttemptState.live := by
  cases e <;> cases t <;> simp_all [AttemptState.edges, AttemptState.live]

theorem casAttempt_isOk {e t : AttemptState} {err} (he : t ∈ e.edges) (hp : e ≠ .pending) :
    ∃ b l', l.casAttempt a n e t now err = .ok (b, l') := by
  refine l.touchAttempt_isOk _ _ _ _ fun r hr hl => ⟨?_, rfl⟩
  simp only [decide_eq_true_eq] at hr
  exact live_of_edge (hr ▸ he) (hr ▸ hp) hl

theorem recordProgress_spec {st p b} (h : l.recordProgress a n st p now = .ok (b, l')) :
    (∀ a', l'.acq a' = l.acq a') ∧
    (∀ k, l'.att k = (l.att k).map fun r =>
      if k = (a, n) ∧ r.state ∈ AttemptState.inFlight ∧ (r.state ≠ st ∨ r.progress ≠ p) then
        { r with state := st, progress := p, updatedAt := now } else r) ∧
    (b = true ↔ ∃ r, l.att (a, n) = some r ∧ r.state ∈ AttemptState.inFlight ∧ (r.state ≠ st ∨ r.progress ≠ p)) := by
  obtain ⟨h1, h2, h3⟩ := touchAttempt_spec h
  exact ⟨h1, fun k => by simpa only [decide_eq_true_eq] using h2 k, by simpa only [decide_eq_true_eq] using h3⟩

theorem live_of_inFlight {st : AttemptState} (h : st ∈ AttemptState.inFlight) : st ∈ AttemptState.live := by
  cases st <;> simp_all [AttemptState.inFlight, AttemptState.live]

theorem claimAttempt_spec {o} (h : l.claimAttempt a n now = .ok (o, l')) :
    (∀ a', l'.acq a' = l.acq a') ∧
    (∀ k, l'.att k = (l.att k).map fun r => if k = (a, n) ∧ r.state = .pending then r.submittedBy now else r) ∧
    (∀ r', o = some r' ↔ ∃ r, l.att (a, n) = some r ∧ r.state = .pending ∧ r' = r.submittedBy now) := by
  obtain ⟨⟨hit, l₁⟩, ht, he⟩ := map_ok h
  cases he
  obtain ⟨h1, h2, h3⟩ := touchAttempt_spec ht
  simp only [decide_eq_true_eq] at h2 h3
  refine ⟨h1, h2, fun r' => ?_⟩
  rw [h2]
  constructor
  · intro h
    split at h
    · rename_i hit
      obtain ⟨r, hr, hp⟩ := h3.1 hit
      simp only [hr, hp, Option.map_some, and_self, if_true, Option.some.injEq] at h
      exact ⟨r, hr, hp, h.symm⟩
    · cases h
  · rintro ⟨r, hr, hp, rfl⟩
    rw [if_pos (h3.2 ⟨r, hr, hp⟩)]
    simp [hr, hp]

/-- What `claim_next_pending` selects is pending and holds a free hash. -/
theorem nextPending_spec (h : l.nextPending a = some n) :
    ∃ r, l.att (a, n) = some r ∧ r.state = .pending ∧ l.hashFree r = true := by
  obtain ⟨hm, -⟩ := List.min?_eq_some_iff.1 h
  obtain ⟨r, hr, rfl⟩ := List.mem_map.1 hm
  simp only [List.mem_filter, decide_eq_true_eq] at hr
  obtain ⟨hr, rfl, hp, hf⟩ := hr
  exact ⟨r, att_of_mem hr, hp, hf⟩

theorem claimNextPending_spec {o} (h : l.claimNextPending a now = .ok (o, l')) :
    (o = none ∧ l' = l ∧ l.nextPending a = none) ∨
    ∃ n r, l.nextPending a = some n ∧ l.att (a, n) = some r ∧ r.state = .pending ∧
      o = some (r.submittedBy now) ∧ (∀ a', l'.acq a' = l.acq a') ∧
      ∀ k, l'.att k = if k = (a, n) then some (r.submittedBy now) else l.att k := by
  unfold claimNextPending at h
  cases hn : l.nextPending a with
  | none =>
    simp only [hn, Except.ok.injEq, Prod.mk.injEq] at h
    exact .inl ⟨h.1.symm, h.2.symm, rfl⟩
  | some n =>
    simp only [hn] at h
    obtain ⟨r, hr, hp, -⟩ := nextPending_spec hn
    obtain ⟨h1, h2, h3⟩ := claimAttempt_spec h
    refine .inr ⟨n, r, rfl, hr, hp, (h3 _).2 ⟨r, hr, hp, rfl⟩, h1, fun k => ?_⟩
    rw [h2]
    by_cases hk : k = (a, n)
    · subst hk; simp [hr, hp]
    · simp [hk]

/-- A row `add_attempts` appends. -/
theorem mem_newAttempts {no : Nat} {seen : List InfoHash} {cs : List MagnetCandidate} {r : MagnetAttemptRecord}
    (h : r ∈ newAttempts a now no seen cs) :
    r.avid = a ∧ r.state = .pending ∧ r.submittedAt = none ∧ ∃ c ∈ cs, r.magnet = c.magnet ∧ r.infoHash = c.infoHash := by
  induction cs generalizing no seen with
  | nil => simp [newAttempts] at h
  | cons c cs ih =>
    have tail : ∀ {no seen}, r ∈ newAttempts a now no seen cs → r.avid = a ∧ r.state = .pending ∧
        r.submittedAt = none ∧ ∃ c' ∈ c :: cs, r.magnet = c'.magnet ∧ r.infoHash = c'.infoHash := by
      intro no seen hr
      obtain ⟨h1, h2, h3, c', hc', h4⟩ := ih hr
      exact ⟨h1, h2, h3, c', List.mem_cons_of_mem _ hc', h4⟩
    simp only [newAttempts] at h
    split at h
    · split at h
      · exact tail h
      · rcases List.mem_cons.1 h with rfl | h
        · exact ⟨rfl, rfl, rfl, c, by simp, rfl, rfl⟩
        · exact tail h
    · rcases List.mem_cons.1 h with rfl | h
      · exact ⟨rfl, rfl, rfl, c, by simp, rfl, rfl⟩
      · exact tail h

theorem find_foldl_insertNew {ρ κ : Type} [DecidableEq κ] {key : ρ → κ} (rs : List ρ) (t : Table ρ κ key) (k : κ) :
    (∀ r, t.find k = some r → (rs.foldl .insertNew t).find k = some r) ∧
      ∀ r, (rs.foldl .insertNew t).find k = some r → t.find k = some r ∨ (t.find k = none ∧ r ∈ rs) := by
  induction rs generalizing t with
  | nil => exact ⟨fun _ h => h, fun _ h => .inl h⟩
  | cons x rs ih =>
    obtain ⟨h1, h2⟩ := ih (t.insertNew x)
    refine ⟨fun r hr => h1 r ?_, fun r hr => ?_⟩
    · rw [Table.find_insertNew]
      split
      · rename_i h; rw [h.2, hr] at h; cases h.1
      · exact hr
    · rcases h2 r hr with h | ⟨h, hm⟩
      · rw [Table.find_insertNew] at h
        split at h
        · rename_i hx
          cases h
          exact .inr ⟨hx.2 ▸ hx.1, by simp⟩
        · exact .inl h
      · rw [Table.find_insertNew] at h
        split at h
        · cases h
        · exact .inr ⟨h, by simp [hm]⟩

theorem addAttempts_spec {cs : List MagnetCandidate} {c : Nat} (h : l.addAttempts a cs now = .ok (c, l')) :
    (∀ a', l'.acq a' = l.acq a') ∧ (∀ k r, l.att k = some r → l'.att k = some r) ∧
    ∀ k r, l'.att k = some r → l.att k = some r ∨ (l.att k = none ∧ r.avid = a ∧ r.state = .pending ∧
      r.submittedAt = none ∧ ∃ c ∈ cs, r.magnet = c.magnet ∧ r.infoHash = c.infoHash) := by
  obtain ⟨l₁, hw, he⟩ := map_ok h
  cases he
  obtain ⟨h1, h2⟩ := withAttempts_ok hw
  refine ⟨fun a' => by simp only [acq, h1], fun k r hr => ?_, fun k r hr => ?_⟩
  · simp only [att, h2]
    exact (find_foldl_insertNew _ l.attempts k).1 r hr
  · simp only [att, h2] at hr
    rcases (find_foldl_insertNew _ l.attempts k).2 r hr with h | ⟨h, hm⟩
    · exact .inl h
    · exact .inr ⟨h, mem_newAttempts hm⟩

theorem mem_attemptsByInfoHash {hs : List InfoHash} {r : MagnetAttemptRecord} :
    r ∈ l.attemptsByInfoHash hs ↔ l.att r.key = some r ∧ r.Live ∧ ∃ h, r.infoHash = some h ∧ h ∈ hs := by
  simp only [attemptsByInfoHash, List.mem_filter, Option.any_eq_true, decide_eq_true_eq, Bool.decide_and]
  constructor
  · rintro ⟨hr, h⟩
    simp only [Bool.and_eq_true, decide_eq_true_eq] at h
    exact ⟨att_of_mem hr, h.1, h.2⟩
  · rintro ⟨hr, hl, hh⟩
    refine ⟨mem_of_att hr, ?_⟩
    simp only [Bool.and_eq_true, decide_eq_true_eq]
    exact ⟨hl, hh⟩

theorem mem_inFlightAttempts {r : MagnetAttemptRecord} :
    r ∈ l.inFlightAttempts ↔ l.att r.key = some r ∧ r.state ∈ AttemptState.inFlight := by
  simp only [inFlightAttempts, List.mem_insertionSort, List.mem_filter, decide_eq_true_eq]
  exact ⟨fun h => ⟨att_of_mem h.1, h.2⟩, fun h => ⟨mem_of_att h.1, h.2⟩⟩

end Spec

end Ledger

end EmbyxManager
