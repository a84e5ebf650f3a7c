import Mathlib.Data.List.Dedup
import EmbyxManager.Monitor.Attempts
import EmbyxManager.Monitor.Claims
import EmbyxManager.Monitor.Stall
/-!
# Whose tasks the tracker removes

Concluding an attempt frees its hash, and the task is removed only after the AVID's next
magnet was submitted. Whoever claims an attempt with the same hash in between downloads
through a task that is about to be deleted, its files included.

Where nobody claims a hash whose task is about to go, no removal hits a live attempt.
-/

namespace EmbyxManager
open Atom Prog AcquisitionRepository Archive

/-! ## What is about to be removed -/

/-- The tracker concludes an attempt whose task it then removes, and not one that was refused. -/
def abandons (target : AttemptState) (error : Option String) : Bool :=
  target = .stalled || target = .junk || target = .error && error = some "CloudDrive reported the download failed"

/-- The poll is at an attempt of its join, not yet at the sweep. -/
def advancing : List Event → Bool
  | [] => false
  | ⟨.checkCancelled (.advance ..), _⟩ :: _ => true
  | ⟨.checkCancelled _, _⟩ :: _ => false
  | _ :: h => advancing h

/-- This step of the poll concluded the attempt, and its task is still to be removed; for junk
nobody asks whether the compare-and-set took it. A statement or a lookup that fails ends the
poll, unless it is a claim that lost a race. -/
def owes : List Event → AttemptKey → Bool
  | [], _ => false
  | ⟨.sql (.casAttempt avid no _ target _ error), .ok won⟩ :: h, k =>
    (avid, no) = k && abandons target error && (won || target = .junk) && advancing h || owes h k
  | ⟨.sql (.claimNextPending ..), .error .uniqueViolation⟩ :: h, k => owes h k
  | ⟨.sql _, .error _⟩ :: _, _ => false
  | ⟨.ask (.releaseDate _), .error _⟩ :: _, _ => false
  | ⟨.ask (.removeOfflineFiles _ _ true), _⟩ :: _, _ => false
  | ⟨.checkCancelled _, _⟩ :: _, _ => false
  | _ :: h, k => owes h k

/-- The hash was read as archived by this poll, and its task is still to be cleared. -/
def clears : List Event → InfoHash → Bool
  | [], _ => false
  | ⟨.sql (.archivedInfoHashes _), .ok found⟩ :: _, x => x ∈ found
  | ⟨.ask (.removeOfflineFiles hashes _ false), _⟩ :: h, x => x ∉ hashes && clears h x
  | ⟨.checkCancelled _, _⟩ :: _, _ => false
  | _ :: h, x => clears h x

def Op.removes : Op → Bool
  | .ask (.removeOfflineFiles ..) => true
  | _ => false

def Op.checks : Op → Bool
  | .checkCancelled _ => true
  | _ => false

/-- Within a step of the poll an owed attempt stays owed, as long as nothing fails. -/
theorem owes_ok {op : Op} {a : op.Res} {h : List Event} {k : AttemptKey} (hr : op.removes = false) (hc : op.checks = false)
    (hh : owes h k = true) : owes (⟨op, .ok a⟩ :: h) k = true := by
  cases op with
  | sql s =>
    cases s with
    | casAttempt avid no expected target at_ error => simp [owes, hh]
    | _ => exact hh
  | checkCancelled p => cases hc
  | ask q =>
    cases q with
    | removeOfflineFiles hashes dir del => cases hr
    | _ => exact hh
  | _ => exact hh

/-- An attempt owed after an action was concluded by it, or owed before. -/
theorem owes_cons {op : Op} {r : Except Exn op.Res} {h : List Event} {k : AttemptKey} (hh : owes (⟨op, r⟩ :: h) k = true) :
    owes h k = true ∨ ∃ expected target at_ error won, op = .sql (.casAttempt k.1 k.2 expected target at_ error) ∧
      HEq r (.ok won : Except Exn Bool) ∧ abandons target error = true ∧ (won = true ∨ target = .junk) ∧
      advancing h = true := by
  unfold owes at hh
  split at hh
  · cases hh
  · rename_i avid no expected target at_ error won h' heq
    cases heq
    simp only [Bool.or_eq_true, Bool.and_eq_true, decide_eq_true_eq] at hh
    rcases hh with ⟨⟨⟨rfl, ha⟩, hw⟩, hadv⟩ | hh
    · exact .inr ⟨expected, target, at_, error, won, rfl, HEq.rfl, ha, hw, hadv⟩
    · exact .inl hh
  · rename_i heq
    cases heq
    exact .inl hh
  · cases hh
  · cases hh
  · cases hh
  · cases hh
  · rename_i heq
    cases heq
    exact .inl hh

theorem clears_cons {op : Op} {r : Except Exn op.Res} {h : List Event} {x : InfoHash} (hh : clears (⟨op, r⟩ :: h) x = true) :
    clears h x = true ∨ ∃ hashes found, op = .sql (.archivedInfoHashes hashes) ∧ x ∈ found ∧
      HEq r (.ok found : Except Exn (List InfoHash)) := by
  unfold clears at hh
  split at hh
  · cases hh
  · rename_i hashes found h' heq
    cases heq
    exact .inr ⟨hashes, found, rfl, by simpa using hh, HEq.rfl⟩
  · rename_i heq
    cases heq
    rw [Bool.and_eq_true] at hh
    exact .inl hh.2
  · cases hh
  · rename_i heq
    cases heq
    exact .inl hh

/-- An attempt is abandoned from a live state. -/
def Abandoning : Op → Prop
  | .sql (.casAttempt _ _ expected target _ error) => abandons target error = true → expected ∈ AttemptState.live
  | _ => True

theorem Mild.abandoning {op : Op} (h : Mild op) : Abandoning op := by
  cases op with
  | sql s =>
    cases s with
    | casAttempt avid no expected target at_ error =>
      obtain ⟨rfl, -⟩ := h
      exact fun _ => by decide
    | _ => trivial
  | _ => trivial

/-- A task is removed for an attempt this step concluded, and cleared for a hash read as archived. -/
def Removing (h : List Event) : Op → Prop
  | .ask (.removeOfflineFiles hashes _ true) =>
    ∃ attempt ∈ joined h, ∃ x, hashes = [x] ∧ attempt.infoHash = some x ∧ owes h attempt.key = true
  | .ask (.removeOfflineFiles hashes _ false) => ∀ x ∈ hashes, clears h x = true
  | op => Abandoning op

/-- Nothing is removed, and nothing abandoned but from a live state. -/
def Harmless (op : Op) : Prop := op.removes = false ∧ Abandoning op

/-- Harmless, within one step of the poll. -/
def Within (op : Op) : Prop := Harmless op ∧ op.checks = false

theorem Removing.abandoning {h : List Event} {op : Op} (hop : Removing h op) : Abandoning op := by
  cases op with
  | ask q => trivial
  | _ => exact hop

theorem Harmless.removing {h : List Event} {op : Op} (hop : Harmless op) : Removing h op := by
  cases op with
  | ask q =>
    cases q with
    | removeOfflineFiles hashes dir del => cases hop.1
    | _ => exact hop.2
  | _ => exact hop.2

theorem Asks.within {op : Op} (hop : Asks op) : Within op := by
  cases op with
  | ask q =>
    cases q with
    | removeOfflineFiles hashes dir del => cases hop
    | _ => exact ⟨⟨rfl, trivial⟩, rfl⟩
  | _ => cases hop

theorem advancing_within {op : Op} {r : Except Exn op.Res} {h : List Event} (hop : op.checks = false) :
    advancing (⟨op, r⟩ :: h) = advancing h := by
  cases op with
  | checkCancelled p => cases hop
  | _ => rfl

/-! ## What a step of the poll knows -/

/-- Archived hashes are some of those asked for. -/
def Telling : Policy
  | .sql (.archivedInfoHashes hashes), .ok found => found.Sublist hashes
  | _, _ => True

def Told : Policy := fun op r => known op r ∧ Telling op r

theorem answers_telling {t : Time} {l l' : Ledger} {op : Op} {r : Except Exn op.Res} (h : Answers t l op r l') : Telling op r := by
  unfold Telling
  split
  · simp only [Answers, Sql.Gives, Sql.run, Except.ok.injEq, Prod.mk.injEq] at h
    obtain ⟨rfl, -⟩ := h
    exact List.filter_sublist
  · trivial

/-- The rows were joined, and these attempts are owed. -/
def Owing (rows : List MagnetAttemptRecord) (ks : List AttemptKey) (h : List Event) : Prop :=
  rows ⊆ joined h ∧ ∀ k ∈ ks, owes h k = true

section Steps
variable {t : Tracker} {rows : List MagnetAttemptRecord} {ks : List AttemptKey} {α β : Type}

/-- The program removes nothing it must not, and ends a step with what is owed. -/
abbrev KeepsOwed (rows : List MagnetAttemptRecord) (ks : List AttemptKey) (p : M α) : Prop :=
  p.Keeps (recorded Told) Removing (Owing rows ks) fun _ _ => True

theorem owing_ok {op : Op} {a : op.Res} {h : List Event} (hop : Within op) (hh : Owing rows ks h) :
    Owing rows ks (⟨op, .ok a⟩ :: h) :=
  ⟨fun _ hr => joined_cons _ _ (hh.1 hr), fun k hk => owes_ok hop.1.1 hop.2 (hh.2 k hk)⟩

theorem owed_call {op : Op} (hop : Within op) : KeepsOwed rows ks (call op : M op.Res) := by
  refine keeps_call (fun _ _ => hop.1.removing) ?_ fun _ _ _ _ _ => trivial
  rintro h a _ hh ⟨-, rfl⟩
  exact owing_ok hop hh

/-- Where nothing is owed nothing can be forgotten. -/
theorem owed_harmless {p : M α} (hp : Uses Harmless p) : KeepsOwed rows [] p := by
  refine keeps_mono (keeps_of_uses hp (fun _ _ hop _ => hop.removing) ?_) fun _ _ _ => trivial
  rintro h op r _ - hh ⟨-, rfl⟩
  exact ⟨fun _ hr => joined_cons _ _ (hh.1 hr), by simp⟩

theorem owed_transition {avid : Avid} {expected target : AcquisitionState} {at_ : Time} {note : Option String}
    {next : Option Time} {paths : Option (List String)} :
    KeepsOwed rows ks (transition avid expected target at_ note next paths) := by
  unfold transition
  split
  · exact owed_call ⟨⟨rfl, trivial⟩, rfl⟩
  · exact keeps_raise fun _ _ => trivial

theorem owed_exhaust (avid : Avid) : KeepsOwed rows ks (t.exhaust avid) := by
  unfold Tracker.exhaust ensureReleaseDate
  refine keeps_bind (owed_call ⟨⟨rfl, trivial⟩, rfl⟩) fun record => ?_
  split
  · exact keeps_pure _
  · split
    · refine keeps_bind ?_ fun date => keeps_bind (owed_call ⟨⟨rfl, trivial⟩, rfl⟩) fun at_ => keeps_discard owed_transition
      split
      · exact keeps_pure _
      · refine keeps_bind (owed_call ⟨⟨rfl, trivial⟩, rfl⟩) fun found => ?_
        split
        · exact keeps_bind (keeps_discard (owed_call ⟨⟨rfl, trivial⟩, rfl⟩)) fun _ => keeps_pure _
        · exact keeps_pure _
    · exact keeps_pure _

/-- A claim that lost a race for its hash is tried again. -/
theorem owed_claimNextPending (avid : Avid) (at_ : Time) : KeepsOwed rows ks (claimNextPending avid at_) := by
  unfold claimNextPending
  generalize claimRetries = n
  induction n with
  | zero => exact keeps_pure _
  | succ n ih =>
    have claim : (call (Op.sql (.claimNextPending avid at_)) : M _).Keeps (recorded Told) Removing (Owing rows ks)
        fun e h => e = .uniqueViolation → Owing rows ks h := by
      refine keeps_call (fun _ _ => trivial) ?_ ?_
      · rintro h a _ hh ⟨-, rfl⟩
        exact owing_ok ⟨⟨rfl, trivial⟩, rfl⟩ hh
      · rintro h e _ hh ⟨-, rfl⟩ rfl
        exact ⟨fun _ hr => joined_cons _ _ (hh.1 hr), hh.2⟩
    refine keeps_attempt_bind claim (fun row => keeps_pure _) fun e h hh => ?_
    cases e with
    | uniqueViolation => exact ih h (hh rfl)
    | _ => trivial

theorem owed_submitMagnet (cloud : Bool) (dirs : List String) (avid : Avid) (magnet : String) :
    KeepsOwed rows ks (submitMagnet cloud dirs avid magnet) := by
  unfold submitMagnet
  split
  · exact keeps_pure _
  · refine keeps_bind (owed_call ⟨⟨rfl, trivial⟩, rfl⟩) fun record => ?_
    split
    · exact keeps_pure _
    · rename_i taskDir _
      have add : (call (Op.ask (.addOfflineFiles [magnet] taskDir)) : M _).Keeps (recorded Told) Removing (Owing rows ks)
          fun _ => Owing rows ks := by
        refine keeps_call (fun _ _ => trivial) ?_ ?_
        · rintro h a _ hh ⟨-, rfl⟩
          exact owing_ok ⟨⟨rfl, trivial⟩, rfl⟩ hh
        · rintro h e _ hh ⟨-, rfl⟩
          exact ⟨fun _ hr => joined_cons _ _ (hh.1 hr), hh.2⟩
      refine keeps_bind (keeps_attempt add fun _ _ h => h) fun r => ?_
      cases r with
      | ok success => exact keeps_pure _
      | error e => cases e <;> exact keeps_pure _

/-- The next magnet is submitted while the last one's task is still to be removed. -/
theorem owed_tryNext (avid : Avid) (limit : Nat) : KeepsOwed rows ks (t.tryNext avid limit) := by
  induction limit with
  | zero => exact keeps_raise fun _ _ => trivial
  | succ limit ih =>
    unfold Tracker.tryNext
    refine keeps_bind (owed_call ⟨⟨rfl, trivial⟩, rfl⟩) fun record => ?_
    split
    · exact keeps_pure _
    · split
      · exact keeps_pure _
      · refine keeps_bind (owed_call ⟨⟨rfl, trivial⟩, rfl⟩) fun attempts => ?_
        split
        · exact owed_exhaust avid
        · refine keeps_bind (owed_call ⟨⟨rfl, trivial⟩, rfl⟩) fun at_ => keeps_bind (owed_claimNextPending _ _) fun claimed => ?_
          split
          · exact owed_exhaust avid
          · refine keeps_bind (owed_submitMagnet _ _ _ _) fun ok => ?_
            split
            · exact keeps_pure _
            · refine keeps_bind (keeps_discard ?_) fun _ => ih
              unfold transitionAttempt
              exact owed_call ⟨⟨rfl, fun _ => by decide⟩, rfl⟩

/-- What the compare-and-set that concluded the attempt leaves behind. -/
theorem owing_concluded {avid : Avid} {no : Nat} {expected target : AttemptState} {at_ : Time} {error : Option String}
    {won : Bool} {h : List Event} (hh : rows ⊆ joined h) (hadv : abandons target error = true → advancing h = true)
    (hw : won = true ∨ target = .junk) :
    Owing rows (if abandons target error then [(avid, no)] else [])
      (⟨.sql (.casAttempt avid no expected target at_ error), .ok won⟩ :: h) := by
  refine ⟨fun _ hr => joined_cons _ _ (hh hr), fun k hk => ?_⟩
  split at hk
  · rename_i ha
    obtain rfl := List.mem_singleton.1 hk
    simp [owes, ha, hadv ha, hw]
  · cases hk

/-- Whoever concludes an attempt owes its task. -/
theorem wp_giveUp_owed {attempt : MagnetAttemptRecord} {state : AttemptState} {reason : String} {h : List Event}
    (hh : rows ⊆ joined h) (hlive : abandons state (some reason) = true → attempt.Live ∧ advancing h = true) :
    (t.giveUp attempt state reason).wp (recorded Told) Removing
      (fun gaveUp h => rows ⊆ joined h ∧ (gaveUp = true → abandons state (some reason) = true → owes h attempt.key = true))
      (fun _ _ => True) h := by
  have remembered : ∀ e : Event, rows ⊆ joined (e :: h) := fun e _ hr => joined_cons _ _ (hh hr)
  unfold Tracker.giveUp
  rw [wp_bind, wp_call_recorded]
  refine ⟨trivial, fun at_ _ => ?_, fun _ _ => trivial⟩
  rw [wp_bind]
  unfold transitionAttempt
  refine wp_ite (fun _ => ?_) fun _ => trivial
  rw [wp_call_recorded]
  refine ⟨fun ha => (hlive ha).1, fun won _ => ?_, fun _ _ => trivial⟩
  cases won with
  | false => exact ⟨fun _ hr => joined_cons _ _ (remembered _ hr), fun h => by cases h⟩
  | true =>
    rw [if_pos rfl, wp_bind]
    refine wp_mono (owed_tryNext _ _ _ (owing_concluded (remembered _) (fun ha => (hlive ha).2) (.inl rfl))) (fun _ h hh => ?_)
      fun _ _ _ => trivial
    refine ⟨hh.1, fun _ ha => hh.2 _ ?_⟩
    rw [if_pos ha]
    exact List.mem_singleton_self _

theorem wp_removeIf {attempt : MagnetAttemptRecord} {x : InfoHash} {taskDir : String} {gaveUp : Bool} {h : List Event}
    (ha : attempt ∈ rows) (hx : attempt.infoHash = some x) (hh : rows ⊆ joined h) (hgone : gaveUp = true → owes h attempt.key = true) :
    (runIf gaveUp (Tracker.removeTask x taskDir)).wp (recorded Told) Removing (fun _ h => rows ⊆ joined h) (fun _ _ => True) h := by
  rw [wp_runIf]
  refine ⟨fun hg => ?_, fun _ => hh⟩
  unfold Tracker.removeTask
  rw [wp_discard, wp_attempt, wp_call_recorded]
  exact ⟨⟨attempt, hh ha, x, rfl, hx, hgone hg⟩, fun _ _ _ hr => joined_cons _ _ (hh hr), fun _ _ _ hr => joined_cons _ _ (hh hr)⟩

/-! ## A step of the poll -/

/-- A poll that is at an attempt of its join stays there. -/
def AtJoined (rows : List MagnetAttemptRecord) (h : List Event) : Prop := rows ⊆ joined h ∧ advancing h = true

theorem atJoined_cons {op : Op} {r : Except Exn op.Res} {h : List Event} (hop : op.checks = false) (hh : AtJoined rows h) :
    AtJoined rows (⟨op, r⟩ :: h) :=
  ⟨fun _ hr => joined_cons _ _ (hh.1 hr), (advancing_within hop).trans hh.2⟩

theorem joined_within {p : M α} (hp : Uses Within p) :
    p.Keeps (recorded Told) Removing (AtJoined rows) fun _ _ => True := by
  refine keeps_mono (keeps_of_uses hp (fun _ _ hop _ => hop.1.removing) ?_) fun _ _ _ => trivial
  rintro h op r _ hop hh ⟨-, rfl⟩
  exact atJoined_cons hop.2 hh

theorem within_file (attempt : MagnetAttemptRecord) (folder : Folder) (route : TrackerRoute) :
    Uses Within (t.file attempt folder route) :=
  t.uses_file_asks (fun _ => Asks.within) (fun _ => ⟨⟨rfl, trivial⟩, rfl⟩) attempt folder route

theorem within_claimFinished (attempt : MagnetAttemptRecord) (at_ : Time) : Uses Within (Tracker.claimFinished attempt at_) := by
  have taken : ∀ {expected target : AttemptState}, abandons target none = false →
      Uses Within (transitionAttempt attempt.avid attempt.attemptNo expected target at_) := fun ha =>
    uses_transitionAttempt ⟨⟨rfl, fun h => by rw [ha] at h; cases h⟩, rfl⟩
  unfold Tracker.claimFinished
  exact uses_ite (taken rfl) (uses_bind (taken rfl) fun finished => uses_ite (taken rfl) trivial)

/-- The task of an attempt found junk is removed whether or not the compare-and-set took it. -/
theorem wp_settle_owed {attempt : MagnetAttemptRecord} {result : ArchiveResult} {h : List Event} (hh : AtJoined rows h) :
    (t.settle attempt result).wp (recorded Told) Removing
      (fun _ h => rows ⊆ joined h ∧ (result.outcome = .junk → owes h attempt.key = true)) (fun _ _ => True) h := by
  -- only a junk folder is owed a removal, and only the second branch is for one
  have other : ∀ {p : M Unit} h, result.outcome ≠ .junk → AtJoined rows h → Uses Within p →
      p.wp (recorded Told) Removing
        (fun _ h => rows ⊆ joined h ∧ (result.outcome = .junk → owes h attempt.key = true)) (fun _ _ => True) h :=
    fun h hne hh hp => wp_mono (joined_within hp h hh) (fun _ _ hh => ⟨hh.1, fun he => absurd he hne⟩) fun _ _ _ => trivial
  have moved : ∀ {target : AttemptState} {at_ : Time}, abandons target none = false →
      Uses Within (discard (transitionAttempt attempt.avid attempt.attemptNo .archiving target at_)) := fun ha =>
    uses_discard (uses_transitionAttempt ⟨⟨rfl, fun h => by rw [ha] at h; cases h⟩, rfl⟩)
  unfold Tracker.settle
  rw [wp_bind, wp_call_recorded]
  refine ⟨trivial, fun at_ _ => ?_, fun _ _ => trivial⟩
  have hh' : AtJoined rows (⟨.now, .ok at_⟩ :: h) := atJoined_cons rfl hh
  split
  · rename_i ho
    exact other _ (by rw [ho]; decide) hh' (uses_bind (moved rfl) fun _ => uses_discard (uses_transition ⟨⟨rfl, trivial⟩, rfl⟩))
  · rw [wp_bind, wp_discard]
    unfold transitionAttempt
    rw [if_pos (by decide), wp_call_recorded]
    refine ⟨fun _ => by decide, fun won _ => ?_, fun _ _ => trivial⟩
    refine wp_mono (owed_tryNext _ _ _ (owing_concluded hh'.1 (fun _ => hh'.2) (.inr rfl))) (fun _ h hh => ?_) fun _ _ _ => trivial
    exact ⟨hh.1, fun _ => hh.2 _ (List.mem_singleton_self _)⟩
  · rename_i outcome hne ho
    exact other _ ho hh' (uses_bind (moved rfl) fun _ => uses_runIf (uses_discard (uses_transition ⟨⟨rfl, trivial⟩, rfl⟩)))

/-- A step that starts at a joined attempt, and remembers the join to its end. -/
def StepsWell (rows : List MagnetAttemptRecord) (p : M Unit) : Prop :=
  ∀ h, AtJoined rows h → p.wp (recorded Told) Removing (fun _ h => rows ⊆ joined h) (fun _ _ => True) h

theorem stepsWell_bind {p : M α} {f : α → M Unit} (hp : Uses Within p) (hf : ∀ a, StepsWell rows (f a)) :
    StepsWell rows (p >>= f) := by
  intro h hh
  rw [wp_bind]
  exact wp_mono (joined_within hp h hh) (fun a h hh => hf a h hh) fun _ _ _ => trivial

theorem stepsWell_within {p : M Unit} (hp : Uses Within p) : StepsWell rows p := fun h hh =>
  wp_mono (joined_within hp h hh) (fun _ _ hh => hh.1) fun _ _ _ => trivial

theorem stepsWell_archiveFinished {attempt : MagnetAttemptRecord} {task : OfflineTask} (taskDir : String)
    (ha : attempt ∈ rows) (hx : attempt.infoHash = some task.infoHash) :
    StepsWell rows (t.archiveFinished attempt task taskDir) := by
  have ok : ∀ {op : Op}, Within op → Uses Within (call op : M op.Res) := fun h => uses_ok h
  unfold Tracker.archiveFinished
  refine stepsWell_bind (ok ⟨⟨rfl, trivial⟩, rfl⟩) fun at_ => stepsWell_bind (ok ⟨⟨rfl, trivial⟩, rfl⟩) fun record => ?_
  split
  · exact stepsWell_within trivial
  · split
    · exact stepsWell_within trivial
    · refine stepsWell_bind (within_claimFinished _ _) fun won => ?_
      split
      · refine stepsWell_bind ?_ fun _ => stepsWell_bind (ok ⟨⟨rfl, trivial⟩, rfl⟩) fun located => ?_
        · exact uses_discard (uses_attempt (uses_bind (uses_discard (ok ⟨⟨rfl, trivial⟩, rfl⟩)) fun _ => ok ⟨⟨rfl, trivial⟩, rfl⟩))
        · split
          · refine stepsWell_within (uses_bind (ok ⟨⟨rfl, trivial⟩, rfl⟩) fun released => uses_discard ?_)
            exact uses_transitionAttempt ⟨⟨rfl, fun h => by cases h⟩, rfl⟩
          · refine stepsWell_bind (within_file _ _ _) fun result h hh => ?_
            rw [wp_bind]
            refine wp_mono (wp_settle_owed hh) (fun _ h hh => ?_) fun _ _ _ => trivial
            exact wp_removeIf ha hx hh.1 fun hj => hh.2 (by simpa using hj)
      · exact stepsWell_within trivial

/-- The attempt is given up, and then its task removed. -/
theorem stepsWell_giveUp {attempt : MagnetAttemptRecord} {task : OfflineTask} {state : AttemptState} {reason : String}
    (taskDir : String) (ha : attempt ∈ rows) (hlive : attempt.Live) (hx : attempt.infoHash = some task.infoHash)
    (hab : abandons state (some reason) = true) :
    StepsWell rows (do
      let gaveUp ← t.giveUp attempt state reason
      runIf gaveUp (Tracker.removeTask task.infoHash taskDir)) := by
  intro h hh
  rw [wp_bind]
  refine wp_mono (wp_giveUp_owed hh.1 fun _ => ⟨hlive, hh.2⟩) (fun gaveUp h hh => ?_) fun _ _ _ => trivial
  exact wp_removeIf ha hx hh.1 fun hg => hh.2 hg hab

theorem stepsWell_advance {attempt : MagnetAttemptRecord} {task : OfflineTask} (taskDir : String) (ha : attempt ∈ rows)
    (hlive : attempt.Live) (hx : attempt.infoHash = some task.infoHash) : StepsWell rows (t.advance attempt task taskDir) := by
  unfold Tracker.advance
  split
  · exact stepsWell_archiveFinished taskDir ha hx
  · exact stepsWell_giveUp taskDir ha hlive hx rfl
  · split
    · unfold Tracker.refreshProgress
      refine stepsWell_bind (uses_ok ⟨⟨rfl, trivial⟩, rfl⟩) fun at_ => stepsWell_bind ?_ fun moved => ?_
      · exact uses_recordProgress ⟨⟨rfl, trivial⟩, rfl⟩
      · split
        · exact stepsWell_within trivial
        · dsimp only
          split
          · exact stepsWell_giveUp taskDir ha hlive hx rfl
          · exact stepsWell_within trivial
    · exact stepsWell_within trivial

/-- The tasks are listed under their own hashes. -/
def Keyed (byHash : Listing) : Prop := ∀ entry ∈ byHash, entry.2.1.infoHash = entry.1

theorem keyed_mergeTasks {byHash : Listing} (hk : Keyed byHash) (taskDir : String) (tasks : List OfflineTask) :
    Keyed (Tracker.mergeTasks byHash taskDir tasks) := by
  unfold Tracker.mergeTasks
  induction tasks generalizing byHash with
  | nil => exact hk
  | cons task tasks ih =>
    refine ih ?_
    unfold Tracker.listTask
    split
    · exact hk
    · intro entry he
      rcases List.mem_append.1 he with he | he
      · exact hk entry he
      · obtain rfl := List.mem_singleton.1 he
        rfl

/-- A joined attempt is what its row and its task both say it is. -/
theorem removing_consider {byHash : Listing} {x : InfoHash × MagnetAttemptRecord} (hk : Keyed byHash) (hx : x.2 ∈ rows)
    (hlive : x.2.Live) (hhash : x.2.infoHash = some x.1) :
    (t.consider byHash x).Keeps (recorded Told) Removing (fun h => rows ⊆ joined h) (fun _ _ => True) := by
  intro h hh
  unfold Tracker.consider
  split
  · rename_i task taskDir hl
    have hkey : task.infoHash = x.1 := by
      obtain ⟨l₁, l₂, heq, -⟩ := List.lookup_eq_some_iff.1 hl
      exact hk (x.1, task, taskDir) (by rw [heq]; simp)
    rw [wp_bind, wp_call_recorded]
    refine ⟨trivial, fun _ _ => ?_, fun _ _ => trivial⟩
    exact stepsWell_advance taskDir hx hlive (hhash.trans (congrArg some hkey.symm)) _
      ⟨fun _ hr => joined_cons _ _ (hh hr), rfl⟩
  · trivial

/-! ## The sweep and the clear-up -/

theorem harmless_transitionAttempt {avid : Avid} {no : Nat} {expected target : AttemptState} {at_ : Time} {error : Option String}
    (h : abandons target error = true → expected ∈ AttemptState.live) :
    Uses Harmless (transitionAttempt avid no expected target at_ error) := uses_transitionAttempt ⟨rfl, h⟩

theorem harmless_ok {op : Op} (hop : Harmless op) : KeepsOwed rows [] (call op : M op.Res) := owed_harmless (uses_ok hop)

theorem owed_settle (attempt : MagnetAttemptRecord) (result : ArchiveResult) : KeepsOwed rows [] (t.settle attempt result) := by
  have moved : ∀ {target : AttemptState} {at_ : Time},
      KeepsOwed rows [] (discard (transitionAttempt attempt.avid attempt.attemptNo .archiving target at_)) :=
    owed_harmless (uses_discard (harmless_transitionAttempt fun _ => by decide))
  unfold Tracker.settle
  refine keeps_bind (harmless_ok ⟨rfl, trivial⟩) fun at_ => ?_
  split
  · exact keeps_bind moved fun _ => keeps_discard owed_transition
  · exact keeps_bind moved fun _ => owed_tryNext _ _
  · refine keeps_bind moved fun _ => ?_
    unfold runIf
    split
    · exact keeps_discard owed_transition
    · exact keeps_pure _

/-- The sweep concludes attempts and removes no task. -/
theorem owed_sweepOne (byHash : Listing) (at_ : Time) (attempt : MagnetAttemptRecord) :
    KeepsOwed rows [] (t.sweepOne byHash at_ attempt) := by
  have finished : ∀ {expected target : AttemptState} {at_ : Time}, abandons target none = false →
      KeepsOwed rows [] (transitionAttempt attempt.avid attempt.attemptNo expected target at_) := fun ha =>
    owed_harmless (harmless_transitionAttempt fun h => by rw [ha] at h; cases h)
  unfold Tracker.sweepOne
  refine keeps_bind (harmless_ok ⟨rfl, trivial⟩) fun _ => ?_
  split
  · exact keeps_pure _
  · split
    · exact keeps_pure _
    · refine keeps_bind (harmless_ok ⟨rfl, trivial⟩) fun located => ?_
      split
      · unfold Tracker.archiveOrphaned
        refine keeps_bind (harmless_ok ⟨rfl, trivial⟩) fun at_ => keeps_bind (finished rfl) fun won => ?_
        split
        · refine keeps_bind (finished rfl) fun won => ?_
          split
          · refine keeps_bind (owed_harmless ?_) fun result => owed_settle _ _
            exact uses_mono (within_file _ _ _) fun _ h => h.1
          · exact keeps_pure _
        · exact keeps_pure _
      · refine keeps_discard ?_
        unfold Tracker.giveUp
        refine keeps_bind (harmless_ok ⟨rfl, trivial⟩) fun at_ => keeps_bind ?_ fun won => ?_
        · exact owed_harmless (harmless_transitionAttempt fun h => by cases h)
        · split
          · exact keeps_bind (owed_tryNext _ _) fun _ => keeps_pure _
          · exact keeps_pure _

/-- Chunks are chunks: nothing is lost, and nothing moves. -/
theorem flatten_toChunks {β : Type} (n : Nat) (xs : List β) : (xs.toChunks n).flatten = xs := by
  have pushed : ∀ (xs : List β) (acc₁ : Array β) (acc₂ : Array (List β)),
      (List.toChunks.go n xs acc₁ acc₂).flatten = acc₂.toList.flatten ++ (acc₁.toList ++ xs) := by
    intro xs
    induction xs with
    | nil => intro acc₁ acc₂; simp [List.toChunks.go]
    | cons x xs ih =>
      intro acc₁ acc₂
      unfold List.toChunks.go
      split <;> simp [ih]
  cases xs with
  | nil => cases n <;> rfl
  | cons x xs =>
    cases n with
    | zero => simp [List.toChunks]
    | succ n => simpa [List.toChunks] using pushed xs #[x] #[]

/-- One more hash goes into its directory's group, or nowhere. -/
theorem groupByDir_perm (f : InfoHash → Option String) (x : InfoHash) {groups : List (String × List InfoHash)}
    (hk : (groups.map (·.1)).Nodup) :
    ((Tracker.groupByDir f groups x).map (·.1)).Nodup ∧
      ∃ ys, ys.Sublist [x] ∧ ((Tracker.groupByDir f groups x).flatMap (·.2)).Perm (groups.flatMap (·.2) ++ ys) := by
  unfold Tracker.groupByDir
  split
  · exact ⟨hk, [], by simp, by simp⟩
  · rename_i dir _
    split
    · rename_i hdir
      refine ⟨?_, [x], .refl _, ?_⟩
      · have : (groups.map fun g => if g.1 = dir then (g.1, g.2 ++ [x]) else g).map (·.1) = groups.map (·.1) := by
          rw [List.map_map]
          refine List.map_congr_left fun g _ => ?_
          simp only [Function.comp_apply]
          split <;> rfl
        rwa [this]
      · -- the group that has the directory is the only one, as the names differ
        induction groups with
        | nil => cases hdir
        | cons g groups ih =>
          rw [List.map_cons, List.nodup_cons] at hk
          by_cases hg : g.1 = dir
          · have same : (groups.map fun g => if g.1 = dir then (g.1, g.2 ++ [x]) else g) = groups := by
              refine (List.map_congr_left fun g' hg' => ?_).trans (List.map_id _)
              rw [if_neg]
              · rfl
              · intro he
                exact hk.1 (List.mem_map.2 ⟨g', hg', he.trans hg.symm⟩)
            simp only [List.map_cons, List.flatMap_cons, if_pos hg, same, List.append_assoc]
            exact (List.perm_append_comm).append_left _
          · have hdir' : dir ∈ groups.map (·.1) := by
              rw [List.map_cons, List.mem_cons] at hdir
              exact hdir.resolve_left (Ne.symm hg)
            simp only [List.map_cons, List.flatMap_cons, if_neg hg, List.append_assoc]
            exact (ih hk.2 hdir').append_left _
    · rename_i hdir
      refine ⟨?_, [x], .refl _, by simp⟩
      rw [List.map_append, List.nodup_append]
      refine ⟨hk, by simp, ?_⟩
      rintro a ha b hb rfl
      obtain rfl := List.mem_singleton.1 hb
      exact hdir ha

theorem foldl_groupByDir_perm (f : InfoHash → Option String) (xs : List InfoHash) {groups : List (String × List InfoHash)}
    (hk : (groups.map (·.1)).Nodup) :
    ∃ ys, ys.Sublist xs ∧ ((xs.foldl (Tracker.groupByDir f) groups).flatMap (·.2)).Perm (groups.flatMap (·.2) ++ ys) := by
  induction xs generalizing groups with
  | nil => exact ⟨[], .refl _, by simp⟩
  | cons x xs ih =>
    obtain ⟨hk', ys, hys, hperm⟩ := groupByDir_perm f x hk
    obtain ⟨zs, hzs, hperm'⟩ := ih hk'
    refine ⟨ys ++ zs, List.Sublist.append hys hzs, hperm'.trans ?_⟩
    rw [← List.append_assoc]
    exact hperm.append_right _

/-- A batch is cleared; the hashes that wait for theirs are still to be. -/
theorem clears_batch {batch rest : List InfoHash} {dir : String} {r : Except Exn Unit} {h : List Event}
    (hnd : (batch ++ rest).Nodup) (hh : ∀ x ∈ batch ++ rest, clears h x = true) :
    ∀ x ∈ rest, clears (⟨.ask (.removeOfflineFiles batch dir false), r⟩ :: h) x = true := by
  intro x hx
  have hne : x ∉ batch := fun hb => (List.nodup_append.1 hnd).2.2 x hb x hx rfl
  simp [clears, hne, hh x (List.mem_append_right _ hx)]

theorem removing_clearArchived (byHash : Listing) (h : List Event) :
    (Tracker.clearArchived byHash).wp (recorded Told) Removing (fun _ _ => True) (fun _ _ => True) h := by
  -- the batches are the hashes found, each in one batch only
  have cleared : ∀ (found : List InfoHash) h, found.Nodup → (∀ x ∈ found, clears h x = true) →
      (forEach ((found.insertionSort (· ≤ ·)).foldl
          (Tracker.groupByDir fun h => ((byHash.filter fun entry => entry.2.1.status = .finished).lookup h).map (·.2)) [])
        fun group => forEach (group.2.toChunks Tracker.clearBatch) fun batch =>
          discard (ask (.removeOfflineFiles batch group.1 false)).attempt).wp (recorded Told) Removing (fun _ _ => True)
        (fun _ _ => True) h := by
    intro found h hnd hh
    have hnone : (([] : List (String × List InfoHash)).map (·.1)).Nodup := List.nodup_nil
    obtain ⟨ys, hys, hperm⟩ := foldl_groupByDir_perm
      (fun h => ((byHash.filter fun entry => entry.2.1.status = .finished).lookup h).map (·.2))
      (found.insertionSort (· ≤ ·)) hnone
    rw [List.flatMap_nil, List.nil_append] at hperm
    have sorted := List.perm_insertionSort (· ≤ ·) found
    refine wp_foldEach (fun groups (_ : Unit) h => (groups.flatMap (·.2)).Nodup ∧ ∀ x ∈ groups.flatMap (·.2), clears h x = true)
      ?_ (fun _ _ _ => trivial) ⟨hperm.nodup_iff.2 ((sorted.nodup_iff.2 hnd).sublist hys), fun x hx =>
        hh x (sorted.mem_iff.1 (hys.subset (hperm.mem_iff.1 hx)))⟩
    rintro ⟨dir, hashes⟩ groups - h ⟨hnd, hh⟩
    refine wp_foldEach (fun batches (_ : Unit) h => (batches.flatten ++ groups.flatMap (·.2)).Nodup ∧
      ∀ x ∈ batches.flatten ++ groups.flatMap (·.2), clears h x = true) ?_ (fun _ h hh => by simpa using hh) ?_
    · rintro batch batches - h ⟨hnd, hh⟩
      rw [List.flatten_cons, List.append_assoc] at hnd hh
      rw [wp_discard, wp_attempt, wp_call_recorded]
      refine ⟨fun x hx => hh x (List.mem_append_left _ hx), fun _ _ => ?_, fun _ _ => ?_⟩
      · exact ⟨(List.nodup_append.1 hnd).2.1, clears_batch hnd hh⟩
      · exact ⟨(List.nodup_append.1 hnd).2.1, clears_batch hnd hh⟩
    · rw [flatten_toChunks]
      exact ⟨hnd, hh⟩
  unfold Tracker.clearArchived AcquisitionRepository.archivedInfoHashes
  dsimp only
  rw [wp_bind]
  refine wp_ite (fun _ => cleared [] h (by simp) (by simp)) fun _ => ?_
  rw [wp_call_recorded]
  refine ⟨trivial, fun found hfound => cleared found _ ?_ fun x hx => by simpa [clears] using hx, fun _ _ => trivial⟩
  refine List.Nodup.sublist hfound.2 ?_
  exact (List.perm_insertionSort _ _).nodup_iff.2 (List.nodup_dedup _)

/-- Whatever a poll removes it owes, or is clearing. -/
theorem removing_poll (h : List Event) : t.poll.wp (recorded Told) Removing (fun _ _ => True) (fun _ _ => True) h := by
  unfold Tracker.poll
  refine wp_ite (fun _ => trivial) fun _ => ?_
  have listing : t.listTasks.wp (recorded Told) Removing (fun byHash _ => Keyed byHash) (fun _ _ => True) h := by
    unfold Tracker.listTasks
    refine wp_foldEach (fun _ byHash _ => Keyed byHash) ?_ (fun _ _ h => h) (by rintro _ ⟨⟩)
    intro taskDir dirs byHash h hk
    rw [wp_bind, wp_call_recorded]
    refine ⟨trivial, fun _ _ => ?_, fun _ _ => trivial⟩
    rw [wp_bind, wp_call_recorded]
    exact ⟨trivial, fun tasks _ => keyed_mergeTasks hk taskDir tasks, fun _ _ => trivial⟩
  rw [wp_bind]
  refine wp_mono listing (fun byHash h hk => ?_) fun _ _ _ => trivial
  have rest : ∀ h, (t.sweepLost byHash >>= fun _ => Tracker.clearArchived byHash).wp (recorded Told) Removing (fun _ _ => True)
      (fun _ _ => True) h := by
    intro h
    have swept : KeepsOwed [] [] (t.sweepLost byHash) := by
      unfold Tracker.sweepLost
      refine keeps_bind (harmless_ok ⟨rfl, trivial⟩) fun at_ => keeps_bind (harmless_ok ⟨rfl, trivial⟩) fun attempts => ?_
      exact keeps_forEach fun attempt _ => owed_sweepOne _ _ _
    rw [wp_bind]
    exact wp_mono (swept h ⟨by simp, by simp⟩) (fun _ h _ => removing_clearArchived byHash h) fun _ _ _ => trivial
  rw [wp_bind]
  unfold AcquisitionRepository.attemptsByInfoHash
  refine wp_ite (fun _ => rest h) fun _ => ?_
  rw [wp_bind, wp_call_recorded]
  refine ⟨trivial, fun rows hrows => ?_, fun _ _ => trivial⟩
  rw [wp_pure, wp_bind]
  have steps : (forEach (rows.filterMap fun row => row.infoHash.map (·, row)) (t.consider byHash)).Keeps (recorded Told) Removing
      (fun h => rows ⊆ joined h) (fun _ _ => True) := by
    refine keeps_forEach fun x hx => ?_
    obtain ⟨row, hrow, hr⟩ := List.mem_filterMap.1 hx
    obtain ⟨infoHash, hi, rfl⟩ := Option.map_eq_some_iff.1 hr
    exact removing_consider hk hrow (hrows.1 row hrow).1 hi
  exact wp_mono (steps _ (List.subset_append_left _ _)) (fun _ h _ => rest h) fun _ _ _ => trivial

theorem removing_replica (polls : Nat) (h : List Event) :
    (t.replica polls).wp (recorded Told) Removing (fun _ _ => True) (fun _ _ => True) h := by
  unfold Tracker.replica
  refine keeps_forEach (I := fun _ => True) (fun t' ht h _ => ?_) h trivial
  obtain rfl := List.eq_of_mem_replicate ht
  rw [wp_discard, wp_attempt]
  exact wp_mono (removing_poll h) (fun _ _ _ => trivial) fun _ _ _ => trivial

end Steps

/-! ## Which runs are sound -/

/-- The attempt the statement would claim. -/
def Sql.takes (l : Ledger) : Sql → Option AttemptKey
  | .claimNextPending avid _ => (l.nextPending avid).map (avid, ·)
  | .claimAttempt avid no _ => some (avid, no)
  | _ => none

theorem takes_of_claims {s : Sql} {l l' : Ledger} {a : s.Res} {k : AttemptKey} {r r' : MagnetAttemptRecord}
    (h : s.Gives l a l') (hc : s.claims k = true) (hr : l.att k = some r) (hr' : l'.att k = some r') (hne : r.state ≠ r'.state) :
    s.takes l = some k := by
  cases s with
  | claimNextPending avid now =>
    obtain rfl : avid = k.1 := by simpa [Sql.claims] using hc
    rcases Ledger.claimNextPending_spec h with ⟨-, rfl, -⟩ | ⟨n, _, hn, -, -, -, -, hatt⟩
    · cases hr.symm.trans hr'
      exact absurd rfl hne
    · rw [hatt] at hr'
      split at hr'
      · rename_i hk
        rw [Sql.takes, hn, hk]
        rfl
      · cases hr.symm.trans hr'
        exact absurd rfl hne
  | claimAttempt avid no now =>
    obtain rfl : (avid, no) = k := by simpa [Sql.claims] using hc
    rfl
  | _ => cases hc

section Unused
variable {ι : Type} [DecidableEq ι]

/-- A poll is about to remove the task of this hash. -/
def removalDue (w : World ι) (i : ι) (x : InfoHash) : Bool :=
  clears (w.history i) x || w.ledger.attempts.rows.any fun r => r.infoHash = some x && owes (w.history i) r.key

/-- Nobody claims an attempt while the task of its hash is about to be removed; and a poll
declares a download junk only while it still holds the claim. -/
def defers (w : World ι) (i : ι) : Op → Bool
  | .sql (.casAttempt avid no .archiving .junk _ _) =>
    !advancing (w.history i) || (w.ledger.att (avid, no)).any fun r => r.state = .archiving
  | .sql s => ((s.takes w.ledger).bind w.ledger.att).all fun r =>
    r.state ≠ .pending || r.infoHash.all fun x => w.log.all fun e => !removalDue w e.who x
  | _ => true

def DeferringStep (i : ι) : Env Op.Res Exn (World ι) := fun w op r w' =>
  World.Step (fun _ _ => True) i w op r w' ∧ defers w i op = true

/-- No attempt with the hash of a task that a poll is about to remove is live. -/
def RemovesUnused (component : ι → Component) (c : Pool Op.Res Exn Unit (World ι) ι) : Prop :=
  ∀ i hashes taskDir deleteFiles next, component i = .poll →
    c.prog i = .act (.ask (.removeOfflineFiles hashes taskDir deleteFiles)) next →
      ∀ x ∈ hashes, ∀ k r, c.world.ledger.att k = some r → r.infoHash = some x → ¬ r.Live

/-! ## The invariant -/

structure Unused (w : World ι) : Prop where
  joined : ∀ i, ∀ attempt ∈ joined (w.history i), ∃ r, w.ledger.att attempt.key = some r ∧ r.infoHash = attempt.infoHash
  owned : ∀ i k, owes (w.history i) k = true → (w.ledger.att k).isSome
  free : ∀ i x, removalDue w i x = true → ∀ k r, w.ledger.att k = some r → r.infoHash = some x → ¬ r.Live

theorem removalDue_iff {w : World ι} {i : ι} {x : InfoHash} : removalDue w i x = true ↔
    clears (w.history i) x = true ∨
      ∃ k r, w.ledger.att k = some r ∧ r.infoHash = some x ∧ owes (w.history i) k = true := by
  simp only [removalDue, Bool.or_eq_true, List.any_eq_true, Bool.and_eq_true, decide_eq_true_eq]
  refine or_congr .rfl ⟨?_, ?_⟩
  · rintro ⟨r, hr, hx, ho⟩
    exact ⟨_, r, Ledger.att_of_mem hr, hx, ho⟩
  · rintro ⟨k, r, hr, hx, ho⟩
    exact ⟨r, Ledger.mem_of_att hr, hx, (Ledger.att_key hr).symm ▸ ho⟩

/-- Whoever is about to remove something has done something. -/
theorem logged_of_due {w : World ι} {i : ι} {x : InfoHash} (h : removalDue w i x = true) : ∃ e ∈ w.log, e.who = i := by
  have hne : w.history i ≠ [] := by
    intro he
    rcases removalDue_iff.1 h with hc | ⟨k, r, -, -, ho⟩
    · rw [he] at hc
      cases hc
    · rw [he] at ho
      cases ho
  obtain ⟨e, he⟩ := List.exists_mem_of_ne_nil _ hne
  obtain ⟨entry, hentry, hwho⟩ := List.mem_filterMap.1 he
  split at hwho
  · exact ⟨entry, hentry, ‹_›⟩
  · cases hwho

section Step
variable {i : ι} {w : World ι} {l' : Ledger} {clock : Time} {op : Op} {a : Except Exn op.Res}

omit [DecidableEq ι] in
theorem later_of_answers (hop : Lawful op) (hans : Answers clock w.ledger op a l') : Later w.ledger l' := by
  rcases answers_ledger hans with rfl | ⟨s, b, rfl, hg⟩
  · exact .refl _
  · refine later_of_gives hg ?_
    cases s with
    | casAttempt avid no expected target at_ error => exact hop.1
    | _ => trivial

/-- An attempt that was in the ledger has the hash it had. -/
theorem hash_before {l l' : Ledger} {k : AttemptKey} {r' : MagnetAttemptRecord} (hlater : Later l l') (hsome : (l.att k).isSome)
    (hr' : l'.att k = some r') : ∃ r, l.att k = some r ∧ r.infoHash = r'.infoHash := by
  obtain ⟨r, hr⟩ := Option.isSome_iff_exists.1 hsome
  obtain ⟨r'', hr'', -, hx, -⟩ := hlater k r hr
  cases hr'.symm.trans hr''
  exact ⟨r, hr, hx.symm⟩

/-- A compare-and-set that begins a removal takes the attempt out of play. -/
theorem taken_of_concluded {k : AttemptKey} {expected target : AttemptState} {at_ : Time} {error : Option String} {won : Bool}
    (hop : Lawful (.sql (.casAttempt k.1 k.2 expected target at_ error)))
    (hans : Answers clock w.ledger (.sql (.casAttempt k.1 k.2 expected target at_ error)) (.ok won) l')
    (hok : defers w i (.sql (.casAttempt k.1 k.2 expected target at_ error)) = true)
    (hw : won = true ∨ target = .junk) (hadv : advancing (w.history i) = true) :
    ∃ r, w.ledger.att k = some r ∧ r.state = expected := by
  rcases hw with rfl | rfl
  · exact (Ledger.casAttempt_spec hans).2.2.1 rfl
  · obtain rfl : expected = .archiving := by
      have hedge := hop.1
      revert hedge
      cases expected <;> decide
    have held : (w.ledger.att (k.1, k.2)).any (fun r => r.state = .archiving) = true := by simpa [defers, hadv] using hok
    obtain ⟨r, hr, hs⟩ := (Option.any_eq_true _ _).1 held
    exact ⟨r, hr, by simpa using hs⟩

/-- Nobody was about to remove what a statement claims. -/
theorem not_due_of_takes {s : Sql} {k : AttemptKey} {r : MagnetAttemptRecord} {x : InfoHash}
    (hok : defers w i (.sql s) = true) (htakes : s.takes w.ledger = some k) (hr : w.ledger.att k = some r)
    (hp : r.state = .pending) (hx : r.infoHash = some x) : ∀ e ∈ w.log, removalDue w e.who x = false := by
  have waits : ((s.takes w.ledger).bind w.ledger.att).all (fun r =>
      r.state ≠ .pending || r.infoHash.all fun x => w.log.all fun e => !removalDue w e.who x) = true := by
    cases s with
    | claimNextPending avid now => exact hok
    | claimAttempt avid no now => exact hok
    | _ => cases htakes
  simpa [htakes, hr, hp, hx] using waits

theorem not_live_of_abandons {target : AttemptState} {error : Option String} (h : abandons target error = true) :
    target ∉ AttemptState.live := by
  revert h
  cases target <;> simp [abandons, AttemptState.live]

theorem not_live_of_archived {l : Ledger} {hashes : List InfoHash} {x : InfoHash} {k : AttemptKey} {r : MagnetAttemptRecord}
    (hx : x ∈ l.archivedInfoHashes hashes) (hr : l.att k = some r) (hrx : r.infoHash = some x) : ¬ r.Live := by
  intro hl
  simp only [Ledger.archivedInfoHashes, List.mem_filter, decide_eq_true_eq, Bool.not_eq_true', List.any_eq_false] at hx
  exact hx.2.2 r (Ledger.mem_of_att hr) (by simpa using ⟨hrx, hl⟩)

/-- Whoever owes a removal after an action owed it before, or has just taken the attempt out of play. -/
theorem owes_after (hi : Unused w) (hop : Lawful op) (hans : Answers clock w.ledger op a l') (hok : defers w i op = true)
    {j : ι} {k : AttemptKey} (ho : owes (World.history ⟨l', clock, ⟨i, clock, w.ledger, op, a⟩ :: w.log⟩ j) k = true) :
    (w.ledger.att k).isSome ∧ (owes (w.history j) k = true ∨ j = i ∧ ∃ expected target at_ error won,
      op = .sql (.casAttempt k.1 k.2 expected target at_ error) ∧ HEq a (.ok won : Except Exn Bool) ∧
        abandons target error = true ∧ (won = true ∨ target = .junk) ∧ advancing (w.history i) = true) := by
  rw [World.history_cons] at ho
  by_cases hij : i = j
  · subst hij
    rw [if_pos rfl] at ho
    rcases owes_cons ho with ho | ⟨expected, target, at_, error, won, rfl, ha, hab, hw, hadv⟩
    · exact ⟨hi.owned _ _ ho, .inl ho⟩
    · obtain rfl := eq_of_heq ha
      obtain ⟨r, hr, -⟩ := taken_of_concluded hop hans hok hw hadv
      exact ⟨Option.isSome_iff_exists.2 ⟨r, hr⟩, .inr ⟨rfl, expected, target, at_, error, won, rfl, HEq.rfl, hab, hw, hadv⟩⟩
  · rw [if_neg hij] at ho
    exact ⟨hi.owned _ _ ho, .inl ho⟩

/-- What was about to be removed is claimed by nobody. -/
theorem free_after (hi : Unused w) (hop : Lawful op) (hans : Answers clock w.ledger op a l') (hok : defers w i op = true)
    {j : ι} {x : InfoHash} (hdue : removalDue w j x = true) {k : AttemptKey} {r' : MagnetAttemptRecord} (hr' : l'.att k = some r')
    (hx : r'.infoHash = some x) : ¬ r'.Live := by
  intro hl
  rcases answers_ledger hans with rfl | ⟨s, b, rfl, hg⟩
  · exact hi.free j x hdue k r' hr' hx hl
  · rcases live_before hg hop hr' hl with ⟨r, hr, hlive, -, hhash⟩ | ⟨r, hr, hp, hc, hs', hhash⟩
    · exact hi.free j x hdue k r hr (hhash.trans hx) hlive
    · have htakes := takes_of_claims hg hc hr hr' (by rw [hp, hs']; decide)
      obtain ⟨e, he, hwho⟩ := logged_of_due hdue
      have hnot := not_due_of_takes hok htakes hr hp (hhash.trans hx) e he
      rw [hwho, hdue] at hnot
      cases hnot

/-- The rows a join has read are in the ledger, with the hash they had. -/
theorem joined_after (hi : Unused w) (hop : Lawful op) (hans : Answers clock w.ledger op a l') {j : ι} {attempt : MagnetAttemptRecord}
    (hj : attempt ∈ EmbyxManager.joined (World.history ⟨l', clock, ⟨i, clock, w.ledger, op, a⟩ :: w.log⟩ j)) :
    ∃ r, l'.att attempt.key = some r ∧ r.infoHash = attempt.infoHash := by
  have before : attempt ∈ EmbyxManager.joined (w.history j) → ∃ r, l'.att attempt.key = some r ∧ r.infoHash = attempt.infoHash := by
    intro hj
    obtain ⟨r, hr, hx⟩ := hi.joined j attempt hj
    obtain ⟨r', hr', -, hx', -⟩ := later_of_answers hop hans _ r hr
    exact ⟨r', hr', hx'.trans hx⟩
  rw [World.history_cons] at hj
  by_cases hij : i = j
  · subst hij
    rw [if_pos rfl, EmbyxManager.joined, List.flatMap_cons, List.mem_append] at hj
    rcases hj with hj | hj
    · unfold joinedRows at hj
      split at hj
      · rename_i hashes rows heq
        cases heq
        obtain ⟨hperm, rfl⟩ := hans
        exact ⟨attempt, (Ledger.mem_attemptsByInfoHash.1 (hperm.mem_iff.1 hj)).1, rfl⟩
      · cases hj
    · exact before hj
  · rw [if_neg hij] at hj
    exact before hj

theorem unused_step (hi : Unused w) (hop : Lawful op) (hab : Abandoning op) (hans : Answers clock w.ledger op a l')
    (hok : defers w i op = true) : Unused (⟨l', clock, ⟨i, clock, w.ledger, op, a⟩ :: w.log⟩ : World ι) := by
  have hlater := later_of_answers hop hans
  refine ⟨fun j attempt hj => joined_after hi hop hans hj, fun j k ho => ?_, fun j x hdue k r' hr' hx hl => ?_⟩
  · obtain ⟨r, hr⟩ := Option.isSome_iff_exists.1 (owes_after hi hop hans hok ho).1
    obtain ⟨r', hr', -⟩ := hlater k r hr
    exact Option.isSome_iff_exists.2 ⟨r', hr'⟩
  · rcases removalDue_iff.1 hdue with hc | ⟨k₀, r₀', hr₀', hx₀, ho⟩
    · rw [World.history_cons] at hc
      by_cases hij : i = j
      · subst hij
        rw [if_pos rfl] at hc
        rcases clears_cons hc with hc | ⟨hashes, found, rfl, hfound, ha⟩
        · exact free_after hi hop hans hok (removalDue_iff.2 (.inl hc)) hr' hx hl
        · obtain rfl := eq_of_heq ha
          simp only [Answers, Sql.Gives, Sql.run, Except.ok.injEq, Prod.mk.injEq] at hans
          obtain ⟨rfl, rfl⟩ := hans
          exact not_live_of_archived hfound hr' hx hl
      · rw [if_neg hij] at hc
        exact free_after hi hop hans hok (removalDue_iff.2 (.inl hc)) hr' hx hl
    · obtain ⟨hsome, horigin⟩ := owes_after hi hop hans hok ho
      obtain ⟨r₀, hr₀, hx₀'⟩ := hash_before hlater hsome hr₀'
      rcases horigin with ho | ⟨rfl, expected, target, at_, error, won, rfl, ha, hab', hw, hadv⟩
      · exact free_after hi hop hans hok (removalDue_iff.2 (.inr ⟨k₀, r₀, hr₀, hx₀'.trans hx₀, ho⟩)) hr' hx hl
      · obtain rfl := eq_of_heq ha
        obtain ⟨r, hr, hs⟩ := taken_of_concluded hop hans hok hw hadv
        cases hr₀.symm.trans hr
        have hlive : r₀.Live := by
          rw [MagnetAttemptRecord.Live, hs]
          exact hab hab'
        have hg : (Sql.casAttempt k₀.1 k₀.2 expected target at_ error).Gives w.ledger won l' := hans
        rcases live_before hg hop hr' hl with ⟨r, hr, hlive', -, hhash⟩ | ⟨r, -, -, hc, -⟩
        · obtain rfl := Ledger.live_inj hr hr₀ hlive' hlive (hhash.trans hx) (hx₀'.trans hx₀)
          rw [(Ledger.casAttempt_spec hans).2.1, hr₀] at hr'
          obtain rfl := Option.some.inj hr'
          simp only [MagnetAttemptRecord.Live, hs, and_self, if_true] at hl
          exact not_live_of_abandons hab' hl
        · cases hc

end Step

/-- Whatever polls and other components do at the same time, from any ledger: where claims wait
for the removals of their hash, and claims held are not taken over before a download is found
junk, a poll removes no task that a live attempt uses. -/
theorem removes_unused {s : Setup} {component : ι → Component} {polls : ι → Nat} {l : Ledger} {start : Time}
    {c : Pool Op.Res Exn Unit (World ι) ι}
    (h : Pool.Reach DeferringStep ⟨⟨l, start, []⟩, fun i => (component i).thread s (polls i)⟩ c) :
    RemovesUnused component c := by
  have step : ∀ (i : ι) w op a w', DeferringStep i w op a w' → World.Step Told i w op a w' := by
    rintro i w op a w' ⟨⟨clock, l', hc, -, ha, hw⟩, -⟩
    exact ⟨clock, l', hc, ⟨answers_known ha, answers_telling ha⟩, ha, hw⟩
  have nothing : Unused (⟨l, start, []⟩ : World ι) := by
    refine ⟨fun i attempt ha => ?_, fun i k ho => ?_, fun i x hdue => ?_⟩
    · cases ha
    · cases ho
    · obtain ⟨e, he, -⟩ := logged_of_due hdue
      cases he
  -- only polls remove tasks; the other components never ask for it
  have guarded : ∀ i, ((component i).thread s (polls i)).wp (recorded Told)
      (fun h op => Lawful op ∧ Abandoning op ∧ (component i = .poll → Removing h op)) (fun _ _ => True) (fun _ _ => True) [] := by
    intro i
    have lawful := keeps_of_uses (T := recorded Told) (G := fun _ op => Lawful op) (I := Anyway)
      (Component.lawful_thread s (polls i) (component i)) (fun _ _ hop _ => hop) fun _ _ _ _ _ _ _ => trivial
    by_cases hi : component i = .poll
    · rw [hi] at lawful ⊢
      exact wp_guards (removing_replica (polls i) []) (lawful [] trivial) fun h op hr hop => ⟨hop, hr.abandoning, fun _ => hr⟩
    · rw [Component.thread_of_ne hi] at lawful ⊢
      have mild := keeps_of_uses (T := recorded Told) (G := fun _ op => Mild op) (I := Anyway)
        (Component.uses_prog s hi) (fun _ _ hop _ => hop) fun _ _ _ _ _ _ _ => trivial
      refine wp_mono (wp_guards (mild [] trivial) (lawful [] trivial) fun h op hm hop => ?_) (fun _ _ _ => trivial) fun _ _ _ => trivial
      exact ⟨hop, hm.abandoning, fun hp => absurd hp hi⟩
  obtain ⟨hu, hnext⟩ := World.reach_inv step
    (fun i h op => Lawful op ∧ Abandoning op ∧ (component i = .poll → Removing h op)) Unused
    (fun w i op a w' hi hG ht => by
      obtain ⟨⟨clock, l', -, -, hans, rfl⟩, hok⟩ := ht
      exact unused_step hi hG.1 hG.2.1 hans hok) nothing rfl guarded h
  intro i hashes taskDir deleteFiles next hi hop x hx k r hr hrx
  have hr' := (hnext i _ next hop).2.2 hi
  cases deleteFiles with
  | true =>
    obtain ⟨attempt, ha, x', rfl, hax, ho⟩ := hr'
    obtain rfl := List.mem_singleton.1 hx
    obtain ⟨r', hr', hrx'⟩ := hu.joined i attempt ha
    exact hu.free i x (removalDue_iff.2 (.inr ⟨_, r', hr', hrx'.trans hax, ho⟩)) k r hr hrx
  | false => exact hu.free i x (removalDue_iff.2 (.inl (hr' x hx))) k r hr hrx

end Unused

/-! ## One torrent, two AVIDs -/

namespace RemovalExample

/-- One torrent holds both titles: it is submitted for the first, and a candidate of the second. -/
def ledger : Ledger :=
  .after .empty (submittedAt "ABC-123" "AA" 0 ++
    [.insertAcquisition "XYZ-456" "manual" (some "/inbox") none none 0,
      .addAttempts "XYZ-456" [{ magnet := "magnet:AA", infoHash := some "AA", source := "manual" }] 0])

/-- The download failed. -/
def outside : World.Outside
  | .listOfflineFiles _ => .ok [⟨"ABC-123", "AA", .error, 0⟩]
  | .addOfflineFiles .. => .ok true
  | .removeOfflineFiles .. => .ok ()
  | _ => .error ⟨.failure "unreachable", trivial⟩

/-- A replica polls, and an operator retries the second title. -/
def component : Bool → Component
  | true => .poll
  | false => .retry "XYZ-456"

def start : Pool Op.Res Exn Unit (World Bool) Bool :=
  ⟨⟨ledger, 0, []⟩, fun i => (component i).thread smallSetup 1⟩

def turns (i : Bool) (n : Nat) : List (Bool × (Nat × World.Outside)) := List.replicate n (i, 1, outside)

/-- The hashes the program is about to remove. -/
def removed : M Unit → List InfoHash
  | .act (.ask (.removeOfflineFiles hashes _ _)) _ => hashes
  | _ => []

theorem removed_eq {p : M Unit} {x : InfoHash} (h : x ∈ removed p) :
    ∃ hashes taskDir deleteFiles next, p = .act (.ask (.removeOfflineFiles hashes taskDir deleteFiles)) next ∧ x ∈ hashes := by
  unfold removed at h
  split at h
  · exact ⟨_, _, _, _, rfl, h⟩
  · cases h

end RemovalExample

open RemovalExample in
/-- The download failed, and its task is about to go before anyone else claims the hash. -/
theorem removes_unused_failed :
    removed ((World.schedule (turns true 13) start).prog true) = ["AA"] ∧
      RemovesUnused component (World.schedule (turns true 13) start) := by
  have hreach : Pool.Reach DeferringStep start (World.schedule (turns true 13) start) := by
    refine Pool.reach_turnsOk (fun i w op _ _ => defers w i op) (fun i d w op h => ?_) (by decide)
    exact ⟨World.turn_step trivial, h⟩
  exact ⟨by decide, removes_unused hreach⟩

open RemovalExample in
/-- The failed download frees its hash, the operator's retry claims it, and its task is removed. -/
theorem removes_retried :
    ∃ c, Pool.Reach (World.Step fun _ _ => True) start c ∧ ¬ RemovesUnused component c := by
  refine ⟨_, World.reach_schedule (turns true 6 ++ turns false 12 ++ turns true 7) start, fun h => ?_⟩
  generalize hc : World.schedule (turns true 6 ++ turns false 12 ++ turns true 7) start = c at h
  have hremoved : "AA" ∈ removed (c.prog true) := by
    rw [← hc]
    decide
  have hlive : (c.world.ledger.att ("XYZ-456", 1)).any (fun r => r.infoHash = some "AA" && r.Live) = true := by
    rw [← hc]
    decide
  obtain ⟨hashes, taskDir, deleteFiles, next, hnext, hx⟩ := removed_eq hremoved
  obtain ⟨r, hr, hrl⟩ := (Option.any_eq_true _ _).1 hlive
  rw [Bool.and_eq_true, decide_eq_true_eq, decide_eq_true_eq] at hrl
  exact h true hashes taskDir deleteFiles next rfl hnext "AA" hx _ r hr hrl.1 hrl.2

end EmbyxManager
