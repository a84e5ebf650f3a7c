import EmbyxManager.Monitor.LibraryMoves
import EmbyxManager.Monitor.PollSet
import EmbyxManager.Monitor.TrackerEdges
/-!
# What a poll's steps show

A poll looks at the stop token before each step, and each step is about one
attempt. What a step is answered is seen as a few signs. The tracker's parts
leave every attempt alone but the one they are called for.
-/

namespace EmbyxManager
open Atom Prog AcquisitionRepository Archive

/-! ## What is seen in an attempt's own step -/

/-- What a step may show. -/
inductive Sign where
  /-- The attempt was claimed for archiving. -/
  | claimed
  /-- The acquisition was read as no longer downloading. -/
  | settled
  /-- A folder was found for an unlisted attempt. -/
  | found
  /-- The library took its videos. -/
  | took
  deriving DecidableEq

def Sign.shows (s : Sign) (e : Event) : Bool :=
  match s, e with
  | .claimed, ⟨.sql (.casAttempt _ _ .finished .archiving _ _), .ok won⟩ => won
  | .settled, ⟨.sql (.getAcquisition _), .ok row⟩ => row.all fun record => record.state ≠ .downloading
  | .found, ⟨.ask (.findFolderFor _), .ok folder⟩ => folder.isSome
  | .took, ⟨.ask (.moveIntoLibrary ..), .ok archived⟩ => !archived.isEmpty
  | _, _ => false

/-- The attempt's own step has shown it. -/
def sawIn (s : Sign) (k : AttemptKey) : List Event → Bool
  | [] => false
  | e :: h => (s.shows e && stepOf (e :: h) = some k) || sawIn s k h

/-! ## A poll alone -/

/-- Nobody else acts. -/
abbrev alone {ι : Type} (who : ι) : Env Op.Res Exn (World ι) := World.Step (fun _ _ => True) who

/-- The attempt an action moves or refreshes by its number. -/
def Op.about : Op → Option AttemptKey
  | .sql (.casAttempt avid no ..) => some (avid, no)
  | .sql (.recordProgress avid no ..) => some (avid, no)
  | _ => none

/-- The action asks for a folder of an unlisted attempt, or moves videos into the library. -/
def Op.tells : Op → Bool
  | .ask (.findFolderFor _) | .ask (.moveIntoLibrary ..) => true
  | _ => false

/-- The action belongs to a step, and shows neither a folder nor videos that were taken. -/
def Mute (op : Op) : Prop := OfStep op ∧ op.tells = false

/-- No attempt is named. -/
def Aloof (op : Op) : Prop := op.about = none ∧ Mute op

/-- No attempt is named, and whatever is answered shows nothing. -/
def Bland (op : Op) : Prop := op.about = none ∧ ∀ s a, Sign.shows s ⟨op, a⟩ = false

theorem Asks.about {op : Op} (h : Asks op) : op.about = none := by
  cases op with
  | sql s => cases h
  | _ => rfl

/-! ### The signs of a step -/

section Signs
variable {s : Sign} {k : AttemptKey} {op : Op} {a : Except Exn op.Res} {h h' : List Event}

theorem sawIn_blank (hs : s.shows ⟨op, a⟩ = false) : sawIn s k (⟨op, a⟩ :: h) = sawIn s k h := by simp [sawIn, hs]

/-- What another attempt's step shows says nothing about this one. -/
theorem sawIn_away (hk : stepOf (⟨op, a⟩ :: h) ≠ some k) : sawIn s k (⟨op, a⟩ :: h) = sawIn s k h := by simp [sawIn, hk]

theorem sawIn_head (hop : OfStep op) (hk : stepOf h = some k) (hs : s.shows ⟨op, a⟩ = true) :
    sawIn s k (⟨op, a⟩ :: h) = true := by
  simp [sawIn, hs, stepOf_same hop, hk]

theorem sawIn_cons (hs : sawIn s k h = true) : sawIn s k (⟨op, a⟩ :: h) = true := by simp [sawIn, hs]

theorem shows_mute (hop : Mute op) : Sign.shows .found ⟨op, a⟩ = false ∧ Sign.shows .took ⟨op, a⟩ = false := by
  cases op with
  | ask q =>
    cases q with
    | findFolderFor avid => cases hop.2
    | moveIntoLibrary avid videos dst priority => cases hop.2
    | _ => exact ⟨rfl, rfl⟩
  | sql s => cases s <;> exact ⟨rfl, rfl⟩
  | _ => exact ⟨rfl, rfl⟩

/-- Inside the attempt's own step: the library took what it took since the step began. -/
structure OwnStep (k : AttemptKey) (h : List Event) : Prop where
  own : stepOf h = some k
  took : sawIn .took k h = libraryTook h

theorem OwnStep.step (hop : OfStep op) (hh : OwnStep k h) : OwnStep k (⟨op, a⟩ :: h) := by
  have hown := (stepOf_same (a := a) hop).trans hh.own
  refine ⟨hown, ?_⟩
  simp only [sawIn, hown, hh.took, decide_true, Bool.and_true]
  cases op with
  | ask q =>
    cases q with
    | moveIntoLibrary avid videos dst priority => cases a <;> rfl
    | _ => rfl
  | sql s => cases s <;> rfl
  | checkCancelled c => cases hop
  | _ => rfl

theorem libraryTook_mute (hop : Mute op) : libraryTook (⟨op, a⟩ :: h) = libraryTook h := by
  refine libraryTook_cons hop.1 ?_ a h
  cases op with
  | ask q =>
    cases q with
    | moveIntoLibrary avid videos dst priority => cases hop.2
    | _ => rfl
  | _ => rfl

end Signs

section Alone
variable {ι : Type} [DecidableEq ι] {who : ι} {k : AttemptKey} {r : MagnetAttemptRecord} {α β : Type}

theorem history_alone {w w' : World ι} {op : Op} {a : Except Exn op.Res} (h : alone who w op a w') :
    w'.history who = ⟨op, a⟩ :: w.history who := by
  obtain ⟨t, l', -, -, -, rfl⟩ := h
  rw [World.history_cons, if_pos rfl]
  rfl

/-- Time has passed, and nothing was listed. -/
structure Follows (who : ι) (w w' : World ι) : Prop where
  later : w.clock ≤ w'.clock
  listed : tasksRead (w'.history who) = tasksRead (w.history who)

theorem follows_refl (w : World ι) : Follows who w w := ⟨le_refl _, rfl⟩

theorem follows_step {w w₁ w' : World ι} {op : Op} {a : Except Exn op.Res} (hop : op.lists = false) (hf : Follows who w w₁)
    (h : alone who w₁ op a w') : Follows who w w' := by
  have hh := history_alone h
  obtain ⟨t, l', hle, -, -, rfl⟩ := h
  refine ⟨hf.later.trans hle, ?_⟩
  rw [hh, ← hf.listed]
  cases op with
  | ask q =>
    cases q with
    | listOfflineFiles => cases hop
    | _ => rfl
  | _ => rfl

variable (who) in
theorem wp_follows {p : M α} (hp : Uses (fun op => op.lists = false) p) (w : World ι) :
    p.wp (alone who) (fun _ _ => True) (fun _ w' => Follows who w w') (fun _ _ => True) w :=
  wp_mono (keeps_of_uses (I := Follows who w) hp (fun _ _ _ _ => trivial) (fun _ _ _ _ hop hf h => follows_step hop hf h) w
    (follows_refl w)) (fun _ _ h => h) fun _ _ _ => trivial

/-- What the history of the program itself shows. -/
theorem wp_recorded {p : M α} {Q : α → List Event → Prop} {w : World ι}
    (h : p.wp (recorded fun _ _ => True) (fun _ _ => True) Q (fun _ _ => True) (w.history who)) :
    p.wp (alone who) (fun _ _ => True) (fun a w' => Q a (w'.history who)) (fun _ _ => True) w :=
  wp_through (fun w : World ι => w.history who) (fun _ _ _ _ ht => ⟨trivial, history_alone ht⟩) h

/-! ### Leaving an attempt alone -/

/-- The attempt stays as it is, and so does whatever actions of this kind keep of the history. -/
def Spares (C : Op → Prop) (who : ι) (k : AttemptKey) (r : MagnetAttemptRecord) (p : M α) : Prop :=
  ∀ I : List Event → Prop, (∀ op a h, C op → I h → I (⟨op, a⟩ :: h)) →
    p.Keeps (alone who) (fun _ _ => True) (fun w => w.ledger.att k = some r ∧ I (w.history who)) fun _ _ => True

section Rules
variable {C C' : Op → Prop}

theorem spares_mono {p : M α} (hp : Spares C who k r p) (h : ∀ op, C op → C' op) : Spares C' who k r p :=
  fun I hI => hp I fun op a hist hop => hI op a hist (h op hop)

theorem spares_pure (a : α) : Spares C who k r (pure a) := fun _ _ => keeps_pure a

theorem spares_raise (e : Exn) : Spares C who k r (.raise e : M α) := fun _ _ => keeps_raise fun _ _ => trivial

theorem spares_bind {p : M α} {f : α → M β} (hp : Spares C who k r p) (hf : ∀ a, Spares C who k r (f a)) :
    Spares C who k r (p >>= f) := fun I hI => keeps_bind (hp I hI) fun a => hf a I hI

theorem spares_discard {p : M α} (hp : Spares C who k r p) : Spares C who k r (discard p) := fun I hI => keeps_discard (hp I hI)

omit [DecidableEq ι] in
theorem att_left {w w' : World ι} {op : Op} {a : Except Exn op.Res} (hp : r.state ≠ .pending) (hop : op.about ≠ some k)
    (hr : w.ledger.att k = some r) (h : alone who w op a w') : w'.ledger.att k = some r := by
  obtain ⟨t, l', -, -, ha, rfl⟩ := h
  rcases answers_ledger ha with heq | ⟨s, b, rfl, hg⟩
  · rw [← hr]
    exact congrArg (·.att k) heq
  · obtain ⟨r', hr', heff⟩ := Sql.att_effect hg hr
    cases heff with
    | same => exact hr'
    | claimed now hs hpend => exact absurd hpend hp
    | moved hs he =>
      subst hs
      exact absurd rfl hop
    | progressed hs hf =>
      subst hs
      exact absurd rfl hop

omit [DecidableEq ι] in
theorem att_aside {w w' : World ι} {op : Op} {a : Except Exn op.Res} (hp : r.state ≠ .pending) (hr : w.ledger.att k = some r)
    (h : alone who w op a w') (hop : op.about = none) : w'.ledger.att k = some r :=
  att_left hp (by rw [hop]; exact (Option.some_ne_none k).symm) hr h

theorem spares_uses (hp : r.state ≠ .pending) {p : M α} (hu : Uses (fun op => op.about ≠ some k ∧ C op) p) :
    Spares C who k r p := by
  intro I hI
  refine keeps_mono (keeps_of_uses hu (fun _ _ _ _ => trivial) ?_) fun _ _ _ => trivial
  rintro w op a w' ⟨hop, hC⟩ ⟨hr, hh⟩ h
  exact ⟨att_left hp hop hr h, history_alone h ▸ hI op a _ hC hh⟩

theorem spares_aloof (hp : r.state ≠ .pending) {p : M α} (hu : Uses Aloof p) : Spares Mute who k r p :=
  spares_uses hp (uses_mono hu fun _ h => ⟨by rw [h.1]; exact (Option.some_ne_none k).symm, h.2⟩)

theorem spares_ok (hp : r.state ≠ .pending) {op : Op} (hop : Aloof op) : Spares Mute who k r (call op : M op.Res) :=
  spares_aloof hp (uses_ok hop)

/-- What sparing an attempt comes to. -/
theorem wp_spared {p : M α} (hp : Spares C who k r p) {I : List Event → Prop} (hI : ∀ op a h, C op → I h → I (⟨op, a⟩ :: h))
    {w : World ι} (hr : w.ledger.att k = some r) (hh : I (w.history who)) :
    p.wp (alone who) (fun _ _ => True) (fun _ w' => w'.ledger.att k = some r ∧ I (w'.history who)) (fun _ _ => True) w :=
  hp I hI w ⟨hr, hh⟩

end Rules

end Alone

/-! ## What the tracker asks about one attempt -/

theorem aloof_ensureReleaseDate (lookup : Bool) (record : AcquisitionRecord) : Uses Aloof (ensureReleaseDate lookup record) := by
  unfold ensureReleaseDate
  split
  · trivial
  · refine uses_bind (uses_ok ⟨rfl, rfl, rfl⟩) fun found => ?_
    split
    · exact uses_bind (uses_discard (uses_ok ⟨rfl, rfl, rfl⟩)) fun _ => trivial
    · trivial

theorem aloof_submitMagnet (cloud : Bool) (dirs : List String) (avid : Avid) (magnet : String) :
    Uses Aloof (submitMagnet cloud dirs avid magnet) := by
  unfold submitMagnet
  split
  · trivial
  · refine uses_bind (uses_ok ⟨rfl, rfl, rfl⟩) fun record => ?_
    split
    · trivial
    · refine uses_bind (uses_attempt (uses_ok ⟨rfl, rfl, rfl⟩)) fun r => ?_
      cases r with
      | ok success => trivial
      | error e => cases e <;> trivial

namespace Tracker
variable (t : Tracker)

theorem aloof_exhaust (avid : Avid) : Uses Aloof (t.exhaust avid) := by
  unfold exhaust
  refine uses_bind (uses_ok ⟨rfl, rfl, rfl⟩) fun record => ?_
  split
  · trivial
  · split
    · refine uses_bind (aloof_ensureReleaseDate _ _) fun date => uses_bind (uses_ok ⟨rfl, rfl, rfl⟩) fun at_ => ?_
      exact uses_discard (uses_transition ⟨rfl, rfl, rfl⟩)
    · trivial

theorem aloof_removeTask (infoHash : InfoHash) (taskDir : String) : Uses Aloof (removeTask infoHash taskDir) :=
  uses_discard (uses_attempt (uses_ok ⟨rfl, rfl, rfl⟩))

theorem bland_clearArchived (byHash : Listing) : Uses Bland (clearArchived byHash) := by
  unfold clearArchived AcquisitionRepository.archivedInfoHashes
  dsimp only
  refine uses_bind ?_ fun archived => uses_forEach fun group _ => uses_forEach fun batch _ => ?_
  · split
    · trivial
    · exact uses_ok ⟨rfl, fun s _ => by cases s <;> rfl⟩
  · exact uses_discard (uses_attempt (uses_ok ⟨rfl, fun s _ => by cases s <;> rfl⟩))

section Spares
variable {ι : Type} [DecidableEq ι] {who : ι} {k : AttemptKey} {r : MagnetAttemptRecord} {w : World ι}
variable (hp : r.state ≠ .pending)
include hp

theorem spares_file (attempt : MagnetAttemptRecord) (folder : Folder) (route : TrackerRoute) :
    Spares OfStep who k r (t.file attempt folder route) :=
  spares_uses hp (t.uses_file_asks (fun _ h => ⟨by rw [h.about]; exact (Option.some_ne_none k).symm, h.inStep⟩)
    (fun _ => ⟨(Option.some_ne_none k).symm, rfl⟩) attempt folder route)

/-- What a claim takes was pending, and is not this attempt. -/
theorem wp_claimNextPending_spares (avid : Avid) (at_ : Time) {I : List Event → Prop}
    (hI : ∀ op a h, Mute op → I h → I (⟨op, a⟩ :: h)) (hr : w.ledger.att k = some r) (hh : I (w.history who)) :
    (claimNextPending avid at_).wp (alone who) (fun _ _ => True)
      (fun claimed w => (w.ledger.att k = some r ∧ I (w.history who)) ∧ ∀ row, claimed = some row → (avid, row.attemptNo) ≠ k)
      (fun _ _ => True) w := by
  unfold claimNextPending
  generalize claimRetries = n
  induction n generalizing w with
  | zero => exact ⟨⟨hr, hh⟩, fun _ h => by cases h⟩
  | succ n ih =>
    have kept : ∀ {a w'}, alone who w (.sql (.claimNextPending avid at_)) a w' →
        w'.ledger.att k = some r ∧ I (w'.history who) := fun h =>
      ⟨att_aside hp hr h rfl, history_alone h ▸ hI _ _ _ ⟨rfl, rfl⟩ hh⟩
    unfold claimLoop
    rw [wp_bind, wp_attempt, wp_call]
    refine ⟨trivial, fun claimed w' h => ?_, fun e w' h => ?_⟩
    · refine ⟨kept h, fun row hrow hk => ?_⟩
      obtain ⟨t', l', -, -, ha, rfl⟩ := h
      rcases Ledger.claimNextPending_spec ha with ⟨hnone, -⟩ | ⟨no, r₁, -, hr₁, hpend, hsome, -⟩
      · rw [hnone] at hrow
        cases hrow
      · rw [hsome] at hrow
        cases hrow
        have hno : (r₁.submittedBy at_).attemptNo = no := congrArg Prod.snd (Ledger.att_key hr₁)
        rw [hno] at hk
        rw [hk, hr] at hr₁
        cases hr₁
        exact hp hpend
    · cases e with
      | uniqueViolation => exact ih (kept h).1 (kept h).2
      | _ => trivial

theorem spares_tryNext (avid : Avid) (limit : Nat) : Spares Mute who k r (t.tryNext avid limit) := by
  induction limit with
  | zero => exact spares_raise _
  | succ limit ih =>
    unfold tryNext
    refine spares_bind (spares_ok hp ⟨rfl, rfl, rfl⟩) fun record => ?_
    split
    · exact spares_pure _
    · split
      · exact spares_pure _
      · refine spares_bind (spares_ok hp ⟨rfl, rfl, rfl⟩) fun attempts => ?_
        split
        · exact spares_aloof hp (t.aloof_exhaust avid)
        · refine spares_bind (spares_ok hp ⟨rfl, rfl, rfl⟩) fun at_ I hI w ⟨hr, hh⟩ => ?_
          rw [wp_bind]
          refine wp_mono (wp_claimNextPending_spares hp avid at_ hI hr hh) ?_ fun _ _ _ => trivial
          rintro claimed w ⟨hw, hne⟩
          split
          · exact spares_aloof hp (t.aloof_exhaust avid) I hI w hw
          · rename_i claimed
            refine spares_bind (spares_aloof hp (aloof_submitMagnet _ _ _ _)) (fun accepted => ?_) I hI w hw
            split
            · exact spares_pure _
            · refine spares_bind (spares_discard (spares_uses hp (uses_transitionAttempt ⟨fun hk => ?_, rfl, rfl⟩))) fun _ => ih
              exact hne claimed rfl (Option.some.inj hk)

variable {attempt : MagnetAttemptRecord}

theorem spares_transitionAttempt (hne : attempt.key ≠ k) {expected target : AttemptState} {at_ : Time}
    {error : Option String} :
    Spares Mute who k r (transitionAttempt attempt.avid attempt.attemptNo expected target at_ error) :=
  spares_uses hp (uses_transitionAttempt ⟨fun hk => hne (Option.some.inj hk), rfl, rfl⟩)

theorem spares_giveUp (hne : attempt.key ≠ k) (state : AttemptState) (reason : String) :
    Spares Mute who k r (t.giveUp attempt state reason) := by
  unfold giveUp
  refine spares_bind (spares_ok hp ⟨rfl, rfl, rfl⟩) fun at_ => spares_bind (spares_transitionAttempt hp hne) fun won => ?_
  split
  · exact spares_bind (t.spares_tryNext hp _ _) fun _ => spares_pure _
  · exact spares_pure _

/-- What settling asks for once the attempt has been moved. -/
theorem spares_settled (avid : Avid) (target : AcquisitionState) (at_ : Time) (note : Option String) (paths : Option (List String)) :
    Spares Mute who k r (discard (transition avid .downloading target at_ note none paths)) :=
  spares_aloof hp (uses_discard (uses_transition ⟨rfl, rfl, rfl⟩))

theorem spares_settle (hne : attempt.key ≠ k) (result : ArchiveResult) : Spares Mute who k r (t.settle attempt result) := by
  have moved : ∀ {target : AttemptState} {at_ : Time},
      Spares Mute who k r (discard (transitionAttempt attempt.avid attempt.attemptNo .archiving target at_)) :=
    spares_discard (spares_transitionAttempt hp hne)
  unfold settle
  refine spares_bind (spares_ok hp ⟨rfl, rfl, rfl⟩) fun at_ => ?_
  split
  · exact spares_bind moved fun _ => spares_settled hp _ _ _ _ _
  · exact spares_bind moved fun _ => t.spares_tryNext hp _ _
  · refine spares_bind moved fun _ => ?_
    unfold runIf
    split
    · exact spares_settled hp _ _ _ _ _
    · exact spares_pure _

theorem spares_claimFinished (hne : attempt.key ≠ k) (at_ : Time) : Spares Mute who k r (claimFinished attempt at_) := by
  unfold claimFinished
  split
  · exact spares_transitionAttempt hp hne
  · refine spares_bind (spares_transitionAttempt hp hne) fun finished => ?_
    split
    · exact spares_transitionAttempt hp hne
    · exact spares_pure _

theorem spares_dropped (gaveUp : Bool) (infoHash : InfoHash) (taskDir : String) :
    Spares Mute who k r (runIf gaveUp (removeTask infoHash taskDir)) :=
  spares_aloof hp (uses_runIf (aloof_removeTask _ _))

theorem spares_archiveFinished (hne : attempt.key ≠ k) (task : OfflineTask) (taskDir : String) :
    Spares OfStep who k r (t.archiveFinished attempt task taskDir) := by
  have mute : ∀ {α : Type} {p : M α}, Spares Mute who k r p → Spares OfStep who k r p := fun h => spares_mono h fun _ => And.left
  have ok : ∀ {op : Op}, Aloof op → Spares OfStep who k r (call op : M op.Res) := fun h => mute (spares_ok hp h)
  unfold archiveFinished
  refine spares_bind (ok ⟨rfl, rfl, rfl⟩) fun at_ => spares_bind (ok ⟨rfl, rfl, rfl⟩) fun record => ?_
  split
  · exact spares_pure _
  · split
    · exact spares_pure _
    · refine spares_bind (mute (spares_claimFinished hp hne at_)) fun won => ?_
      split
      · refine spares_bind (mute (spares_aloof hp (uses_refreshMount (fun _ => ⟨rfl, rfl, rfl⟩) _ _))) fun _ => spares_bind (ok ⟨rfl, rfl, rfl⟩) fun located => ?_
        split
        · exact spares_bind (ok ⟨rfl, rfl, rfl⟩) fun _ => mute (spares_discard (spares_transitionAttempt hp hne))
        · refine spares_bind (t.spares_file hp _ _ _) fun result => spares_bind (mute (t.spares_settle hp hne _)) fun _ => ?_
          exact mute (spares_dropped hp _ _ _)
      · exact spares_pure _

theorem spares_advance (hne : attempt.key ≠ k) (task : OfflineTask) (taskDir : String) :
    Spares OfStep who k r (t.advance attempt task taskDir) := by
  have mute : ∀ {α : Type} {p : M α}, Spares Mute who k r p → Spares OfStep who k r p := fun h => spares_mono h fun _ => And.left
  have gaveUp : ∀ state reason, Spares OfStep who k r (do
      let gaveUp ← t.giveUp attempt state reason
      runIf gaveUp (removeTask task.infoHash taskDir)) := fun state reason =>
    mute (spares_bind (t.spares_giveUp hp hne state reason) fun _ => spares_dropped hp _ _ _)
  unfold advance
  split
  · exact t.spares_archiveFinished hp hne _ _
  · exact gaveUp _ _
  · split
    · unfold refreshProgress
      refine spares_bind (mute (spares_ok hp ⟨rfl, rfl, rfl⟩)) fun at_ =>
        spares_bind (mute (spares_uses hp (uses_recordProgress ⟨fun hk => ?_, rfl, rfl⟩))) fun moved => ?_
      · exact hne (Option.some.inj hk)
      · split
        · exact spares_pure _
        · dsimp only
          split
          · exact gaveUp _ _
          · exact spares_pure _
    · exact spares_pure _

theorem spares_archiveOrphaned (hne : attempt.key ≠ k) (folder : Folder) (route : TrackerRoute) :
    Spares OfStep who k r (t.archiveOrphaned attempt folder route) := by
  have mute : ∀ {α : Type} {p : M α}, Spares Mute who k r p → Spares OfStep who k r p := fun h => spares_mono h fun _ => And.left
  unfold archiveOrphaned
  refine spares_bind (mute (spares_ok hp ⟨rfl, rfl, rfl⟩)) fun at_ =>
    spares_bind (mute (spares_transitionAttempt hp hne)) fun finished => ?_
  split
  · refine spares_bind (mute (spares_transitionAttempt hp hne)) fun won => ?_
    split
    · exact spares_bind (t.spares_file hp _ _ _) fun result => mute (t.spares_settle hp hne _)
    · exact spares_pure _
  · exact spares_pure _

end Spares

end Tracker

end EmbyxManager
