import EmbyxManager.Monitor.Footprint
import EmbyxManager.Monitor.Standing
/-!
# At rest between operations

Between two operations an AVID has at most one live attempt, and has one only
while its acquisition is downloading or waits for a human. An operation that
claims a magnet of an AVID without one, and one that concludes the attempt an
AVID has, keeps it so to its end: here the submission of a magnet, and the
tracker's poll.
-/

namespace EmbyxManager
open Atom Prog AcquisitionRepository Archive

/-! ## At rest -/

structure Standing.Rests (s : Standing) : Prop where
  one : s.live.Subsingleton
  held : s.live.Nonempty → s.state = some .downloading ∨ s.state = some .needsAttention
  kept : s.state ≠ some .ignored

def Rested (l : Ledger) : Prop := ∀ a, (l.standing a).Rests

theorem rested_empty : Rested .empty := fun a => by
  rw [Ledger.standing_empty]
  exact ⟨Set.subsingleton_empty, fun h => absurd h Set.not_nonempty_empty, by simp⟩

theorem rests_free {st : Option AcquisitionState} (h : st ≠ some .ignored) : Standing.Rests ⟨st, ∅⟩ :=
  ⟨Set.subsingleton_empty, fun h => absurd h Set.not_nonempty_empty, h⟩

theorem rests_downloading (n : Nat) : Standing.Rests ⟨some .downloading, {n}⟩ :=
  ⟨Set.subsingleton_singleton, fun _ => .inl rfl, by simp⟩

theorem Standing.Rests.free {s : Standing} (h : s.Rests) (hd : s.state ≠ some .downloading)
    (hn : s.state ≠ some .needsAttention) : s.live = ∅ := by
  by_contra hne
  rcases h.held (Set.nonempty_iff_ne_empty.2 hne) with hs | hs
  · exact hd hs
  · exact hn hs

theorem Standing.Rests.only {s : Standing} (h : s.Rests) {n : Nat} (hn : n ∈ s.live) : s.live = {n} :=
  h.one.eq_singleton_of_mem hn

/-! ## In the middle of an operation on one AVID -/

/-- Only the standing of `a` has changed since `σ`, to `s`. -/
def Amid (σ : Avid → Standing) (a : Avid) (s : Standing) (l : Ledger) : Prop := l.standing = Function.update σ a s

section Amid
variable {σ : Avid → Standing} {a : Avid} {s : Standing} {l l' : Ledger}

theorem amid_start (l : Ledger) (a : Avid) : Amid l.standing a (l.standing a) l := (Function.update_eq_self ..).symm

theorem Amid.here (h : Amid σ a s l) : l.standing a = s := by
  rw [h]
  exact Function.update_self ..

theorem Amid.same (h : Amid σ a s l) (h' : l'.standing = l.standing) : Amid σ a s l' := h'.trans h

theorem Amid.moved {s' : Standing} (h : Amid σ a s l) (h' : l'.standing = Function.update l.standing a s') : Amid σ a s' l' := by
  rw [h, Function.update_idem] at h'
  exact h'

theorem Amid.rested (hσ : ∀ b, b ≠ a → (σ b).Rests) (h : Amid σ a s l) (hs : s.Rests) : Rested l := by
  intro b
  rw [h]
  by_cases hb : b = a
  · subst hb
    rwa [Function.update_self]
  · rw [Function.update_of_ne hb]
    exact hσ b hb

/-- The AVID is at rest again. -/
def Kept (σ : Avid → Standing) (a : Avid) (l : Ledger) : Prop := ∃ s : Standing, s.Rests ∧ Amid σ a s l

theorem Kept.rested (hσ : ∀ b, b ≠ a → (σ b).Rests) (h : Kept σ a l) : Rested l := by
  obtain ⟨s, hs, hl⟩ := h
  exact hl.rested hσ hs

/-- One attempt has been taken and not handed over yet. -/
structure InHand (σ : Avid → Standing) (a : Avid) (st : Option AcquisitionState) (n : Nat) (l : Ledger) : Prop where
  amid : Amid σ a ⟨st, {n}⟩ l
  submitted : ∃ r, l.att (a, n) = some r ∧ r.state = .submitted

theorem claimed_of_taken {st : Option AcquisitionState} {row : MagnetAttemptRecord} (h : Amid σ a ⟨st, ∅⟩ l)
    (ht : Sql.Taken l a row l') : InHand σ a st row.attemptNo l' := by
  refine ⟨h.moved ?_, ht.submitted⟩
  rw [ht.standing, h.here]
  simp

end Amid

/-! ## Programs -/

/-- The action leaves the ledger as it is. -/
def Op.reads : Op → Bool
  | .sql s => s.row = none ∧ s.writesAttempts = false
  | _ => true

theorem ledger_reads {t : Time} {l l' : Ledger} {op : Op} {r : Except Exn op.Res} (h : Answers t l op r l')
    (hop : op.reads = true) : l' = l := by
  rcases answers_ledger h with rfl | ⟨s, x, rfl, hg⟩
  · rfl
  · cases s with
    | attemptsByInfoHash => exact hg.2
    | getAcquisition | dueForRetry | activeAvids | activeTaskDirs | archivedInfoHashes | inFlightAttempts | attemptsFor =>
      simp only [Sql.Gives, Sql.run, Except.ok.injEq, Prod.mk.injEq] at hg
      exact hg.2.symm
    | _ => cases hop

section Programs
variable {ι : Type} {who : ι} {α β : Type} {P : Ledger → Prop} {a : Avid}

/-- From a ledger in `P` the program returns in `Q`, or raises with everything at rest. -/
abbrev Settles (who : ι) (P : Ledger → Prop) (p : M α) (Q : α → Ledger → Prop) : Prop :=
  ∀ w, P w.ledger → p.wp (World.Step connected who) (fun _ _ => True) (fun x w' => Q x w'.ledger) (fun _ w' => Rested w'.ledger) w

theorem answering_connected (who : ι) (X : Exn → World ι → Prop) :
    Answering (World.Step connected who) (fun _ _ => True) X where
  answers := by
    rintro w op r w' ⟨t, l', -, -, h, rfl⟩
    exact ⟨t, h⟩
  fails := by
    rintro w s m w' ⟨t, l', -, hA, -⟩
    exact absurd hA id
  guards _ _ _ := trivial

theorem settles_bind {p : M α} {f : α → M β} {Q : α → Ledger → Prop} {R : β → Ledger → Prop} (hp : Settles who P p Q)
    (hf : ∀ x, Settles who (Q x) (f x) R) : Settles who P (p >>= f) R := by
  intro w hw
  rw [wp_bind]
  exact wp_mono (hp w hw) (fun x w' h => hf x w' h) fun _ _ h => h

theorem settles_discard {p : M α} {Q : Ledger → Prop} (hp : Settles who P p fun _ => Q) : Settles who P (discard p) fun _ => Q :=
  settles_bind hp fun _ _ h => h

theorem settles_mono {p : M α} {P' : Ledger → Prop} {Q Q' : α → Ledger → Prop} (hp : Settles who P p Q) (hP : ∀ l, P' l → P l)
    (hQ : ∀ x l, Q x l → Q' x l) : Settles who P' p Q' :=
  fun w hw => wp_mono (hp w (hP _ hw)) (fun x _ h => hQ x _ h) fun _ _ h => h

/-- Reading leaves everything as it is. -/
theorem settles_reads {p : M α} (hp : Uses (fun op => op.reads = true) p) (hP : ∀ l, P l → Rested l) : Settles who P p fun _ => P := by
  intro w hw
  refine wp_mono (keeps_of_uses (I := fun w' => P w'.ledger) hp (fun _ _ _ _ => trivial) (fun w₁ op r w₂ hop hI ht => ?_) w hw)
    (fun _ _ h => h) fun _ w' h => hP _ h
  obtain ⟨t, l', -, -, ha, rfl⟩ := ht
  dsimp only
  rw [ledger_reads ha hop]
  exact hI

theorem settles_idle {p : M α} (hp : Uses (fun op => op.idle = true) p) (hP : ∀ l l', l'.standing = l.standing → P l → P l')
    (hrest : ∀ l, P l → Rested l) : Settles who P p fun _ => P := by
  intro w hw
  exact (answering_connected who _).wp_idle hp (fun _ w' h => hP _ _ h hw) fun _ w' h => hrest _ (hP _ _ h hw)

theorem settles_get : Settles who P (get a) fun o l => P l ∧ o = l.acq a := by
  intro w hw
  exact (answering_connected who _).wp_get fun w' hl => ⟨by rw [hl]; exact hw, by rw [hl]⟩

theorem settles_now : Settles who P now fun _ => P := by
  intro w hw
  rw [wp_call]
  refine ⟨trivial, fun at_ w' ht => ?_, fun e w' ht => ?_⟩
  · obtain ⟨t, l', -, -, ⟨-, rfl⟩, rfl⟩ := ht
    exact hw
  · obtain ⟨t, l', -, -, ⟨he, -⟩, -⟩ := ht
    cases he

theorem settles_pure {Q : α → Ledger → Prop} (x : α) (h : ∀ l, P l → Q x l) : Settles who P (pure x : M α) Q := fun _ hw => h _ hw

theorem settles_raise {Q : α → Ledger → Prop} {e : Exn} (h : ∀ l, P l → Rested l) : Settles who P (.raise e : M α) Q :=
  fun _ hw => h _ hw

end Programs

/-! ### What only reads, or moves nobody -/

theorem idle_ensureReleaseDate (lookup : Bool) (record : AcquisitionRecord) :
    Uses (fun op => op.idle = true) (ensureReleaseDate lookup record) := by
  unfold ensureReleaseDate
  split
  · trivial
  · refine uses_bind (uses_ok rfl) fun found => ?_
    split
    · exact uses_bind (uses_discard (uses_ok rfl)) fun _ => trivial
    · trivial

theorem idle_addAttempts (avid : Avid) (candidates : List MagnetCandidate) (at_ : Time) :
    Uses (fun op => op.idle = true) (addAttempts avid candidates at_) := by
  unfold addAttempts
  split
  · trivial
  · exact uses_ok rfl

theorem reads_asks {op : Op} (h : Asks op) : op.reads = true := by
  cases op with
  | sql s => cases h
  | _ => rfl

theorem reads_resolveOrNone (i : Intake) (avid : Avid) (itemMagnet : Option String) :
    Uses (fun op => op.reads = true) (Intake.resolveOrNone i avid itemMagnet) := by
  unfold Intake.resolveOrNone Intake.resolve
  refine uses_bind (uses_attempt ?_) fun r => ?_
  · refine uses_bind (uses_ok rfl) fun sukebei => uses_bind (uses_attempt (uses_ok rfl)) fun r => ?_
    cases r <;> trivial
  · cases r <;> trivial

theorem reads_addOffline (link taskDir : String) (n : Nat) :
    Uses (fun op => op.reads = true) (Intake.addOffline link taskDir n) := by
  induction n with
  | zero => exact uses_ok rfl
  | succ n ih =>
    refine uses_bind (uses_attempt (uses_ok rfl)) fun r => ?_
    cases r with
    | ok success => trivial
    | error e =>
      dsimp only
      split
      · exact ih
      · trivial

namespace Tracker

theorem reads_removeTask (infoHash : InfoHash) (taskDir : String) :
    Uses (fun op => op.reads = true) (removeTask infoHash taskDir) :=
  uses_discard (uses_attempt (uses_ok rfl))

theorem reads_refreshMount (task : OfflineTask) (taskDir : String) :
    Uses (fun op => op.reads = true) (refreshMount task taskDir) :=
  uses_discard (uses_attempt (uses_bind (uses_discard (uses_ok rfl)) fun _ => uses_ok rfl))

theorem reads_listTasks (t : Tracker) : Uses (fun op => op.reads = true) t.listTasks := by
  unfold listTasks
  refine uses_foldEach (fun byHash taskDir _ => ?_) _
  exact uses_bind (uses_ok rfl) fun _ => uses_bind (uses_ok rfl) fun _ => uses_pure _

theorem reads_clearArchived (byHash : Listing) : Uses (fun op => op.reads = true) (clearArchived byHash) := by
  unfold clearArchived AcquisitionRepository.archivedInfoHashes
  dsimp only
  refine uses_bind ?_ fun archived => uses_forEach fun group _ => uses_forEach fun batch _ => ?_
  · split
    · trivial
    · exact uses_ok rfl
  · exact uses_discard (uses_attempt (uses_ok rfl))

end Tracker

/-! ## Submitting a magnet -/

section Submitting
variable {ι : Type} {who : ι} {σ : Avid → Standing} {a : Avid} {st : Option AcquisitionState} {n : Nat} {P : Ledger → Prop}

/-- The dashboard's and the tracker's submission raises nothing. -/
theorem settles_submitMagnet (cloud : Bool) (dirs : List String) (avid : Avid) (magnet : String) :
    Settles who P (submitMagnet cloud dirs avid magnet) fun _ => P := by
  unfold submitMagnet
  split
  · exact settles_pure _ fun _ h => h
  · refine settles_bind (settles_mono settles_get (fun _ h => h) fun _ _ h => h.1) fun record => ?_
    split
    · exact settles_pure _ fun _ h => h
    · intro w hw
      rw [wp_bind, wp_attempt, wp_call]
      refine ⟨trivial, fun success w' ht => ?_, fun e w' ht => ?_⟩
      · obtain ⟨t, l', -, -, rfl, rfl⟩ := ht
        exact hw
      · obtain ⟨t, l', -, -, ⟨-, rfl⟩, rfl⟩ := ht
        cases e <;> exact hw

/-- Nor does the intake's, whatever CloudDrive makes of its tries. -/
theorem settles_addMagnet (link taskDir : String) : Settles who P (Intake.addMagnet link taskDir) fun _ => P := by
  intro w hw
  unfold Intake.addMagnet
  rw [wp_bind, wp_attempt]
  have hkeeps : (Intake.addOffline link taskDir 2).Keeps (World.Step connected who) (fun _ _ => True)
      (fun w => P w.ledger) fun _ w => P w.ledger := by
    refine keeps_of_uses (reads_addOffline link taskDir 2) (fun _ _ _ _ => trivial) fun w₁ op r w₂ hop hI ht => ?_
    obtain ⟨t, l', -, -, ha, rfl⟩ := ht
    dsimp only
    rw [ledger_reads ha hop]
    exact hI
  refine wp_mono (hkeeps w hw) (fun success w' h => ?_) fun e w' h => ?_
  · cases success <;> exact h
  · cases e <;> exact h

/-- A magnet that was refused is given back. -/
theorem settles_giveBack (at_ : Time) (error : Option String) :
    Settles who (InHand σ a st n) (discard (transitionAttempt a n .submitted .error at_ error)) fun _ => Amid σ a ⟨st, ∅⟩ := by
  intro w ⟨hamid, r, hr, hs⟩
  rw [wp_discard]
  refine (answering_connected who _).wp_transitionAttempt (by decide) (fun w' _ _ hmoved => hamid.moved ?_)
    (fun w' hlost _ => absurd hs (hlost r hr)) fun hill => absurd (by decide) hill
  rw [hmoved, hamid.here, if_neg (by decide)]
  simp

/-- The row of an AVID whose magnet is in goes to the tracker. -/
theorem settles_toTracker {st : AcquisitionState} (hedge : .downloading ∈ st.edges) (at_ : Time) (note : Option String) :
    Settles who (InHand σ a (some st) n) (transition a st .downloading at_ note) fun won l =>
      won = true ∧ Amid σ a ⟨some .downloading, {n}⟩ l := by
  intro w ⟨hamid, _⟩
  refine (answering_connected who _).wp_transition trivial (fun w' _ hmoved => ⟨rfl, hamid.moved ?_⟩)
    (fun w' hlost _ => ?_) fun hill => absurd hedge hill
  · rw [hmoved, hamid.here]
  · rw [hamid.here] at hlost
    exact absurd rfl hlost

variable (hσ : ∀ b, b ≠ a → (σ b).Rests)
include hσ

theorem amid_free_rested (hst : st ≠ some .ignored) : ∀ l, Amid σ a ⟨st, ∅⟩ l → Rested l := fun _ h => h.rested hσ (rests_free hst)

/-- The next untried magnet is taken, or nothing is. -/
theorem settles_claimNextPending (hst : st ≠ some .ignored) (at_ : Time) :
    Settles who (Amid σ a ⟨st, ∅⟩) (claimNextPending a at_) fun o l =>
      (o = none ∧ Amid σ a ⟨st, ∅⟩ l) ∨ ∃ row, o = some row ∧ InHand σ a st row.attemptNo l := by
  intro w hw
  refine (answering_connected who _).wp_claimNextPending (fun w' h => .inl ⟨rfl, hw.same h⟩)
    (fun row w' h => .inr ⟨row, rfl, claimed_of_taken hw h⟩) fun e w' h => ?_
  exact amid_free_rested hσ hst _ (hw.same h)

/-- A compare-and-set of the acquisition of an AVID without live attempts. -/
theorem settles_transition_free (hst : st ≠ some .ignored) {e t : AcquisitionState} (ht : t ≠ .ignored) (at_ : Time)
    (note : Option String) (next : Option Time) (paths : Option (List String)) :
    Settles who (Amid σ a ⟨st, ∅⟩) (discard (transition a e t at_ note next paths)) fun _ => Kept σ a := by
  intro w hw
  rw [wp_discard]
  refine (answering_connected who _).wp_transition trivial (fun w' _ hmoved => ⟨⟨some t, ∅⟩, rests_free (by simpa using ht), ?_⟩)
    (fun w' _ hsame => ⟨_, rests_free hst, hw.same hsame⟩) fun _ => amid_free_rested hσ hst _ hw
  refine hw.moved ?_
  rw [hmoved, hw.here]

end Submitting

/-! ## The tracker -/

namespace Tracker
variable (t : Tracker) {ι : Type} {who : ι}

section Avid
variable {σ : Avid → Standing} {a : Avid} {st : Option AcquisitionState} (hσ : ∀ b, b ≠ a → (σ b).Rests)
include hσ

theorem settles_exhaust (hst : st ≠ some .ignored) : Settles who (Amid σ a ⟨st, ∅⟩) (t.exhaust a) fun _ => Rested := by
  have rest := amid_free_rested hσ hst
  unfold exhaust
  refine settles_bind (settles_mono settles_get (fun _ h => h) fun _ _ h => h.1) fun record => ?_
  split
  · exact settles_pure _ rest
  · split
    · refine settles_bind (settles_idle (idle_ensureReleaseDate _ _) (fun _ _ h hl => hl.same h) rest) fun date => ?_
      refine settles_bind settles_now fun at_ => ?_
      exact settles_mono (settles_transition_free hσ hst (by decide) _ _ _ _) (fun _ h => h) fun _ _ h => h.rested hσ
    · exact settles_pure _ rest

/-- An AVID without live attempts gets its next magnet, or is out of options. -/
theorem settles_tryNext (limit : Nat) : ∀ {st : Option AcquisitionState}, st ≠ some .ignored →
    Settles who (Amid σ a ⟨st, ∅⟩) (t.tryNext a limit) fun _ => Rested := by
  induction limit with
  | zero => exact fun hst => settles_raise (amid_free_rested hσ hst)
  | succ limit ih =>
    intro st hst
    have rest := amid_free_rested hσ hst
    unfold tryNext
    refine settles_bind settles_get fun record => ?_
    split
    · exact settles_pure _ fun _ h => rest _ h.1
    · rename_i record
      split
      · exact settles_pure _ fun _ h => rest _ h.1
      · rename_i hdown
        -- the row read DOWNLOADING is the row as it stands, nobody else moves it
        have hst' : ∀ l, Amid σ a ⟨st, ∅⟩ l ∧ some record = l.acq a → st = some .downloading ∧ Amid σ a ⟨st, ∅⟩ l := by
          rintro l ⟨hamid, hrow⟩
          have hs : (l.standing a).state = some record.state := Ledger.state_eq.2 ⟨record, hrow.symm, rfl⟩
          rw [hamid.here, Decidable.not_not.1 hdown] at hs
          exact ⟨hs, hamid⟩
        refine fun w hw => ?_
        obtain ⟨rfl, hamid⟩ := hst' _ hw
        refine (?_ : Settles who (Amid σ a ⟨some .downloading, ∅⟩) _ fun _ => Rested) w hamid
        refine settles_bind (settles_reads (uses_ok rfl) rest) fun attempts => ?_
        split
        · exact t.settles_exhaust hσ hst
        · refine settles_bind settles_now fun at_ => settles_bind (settles_claimNextPending hσ hst at_) fun claimed => ?_
          split
          · refine settles_mono (t.settles_exhaust hσ hst) ?_ fun _ _ h => h
            rintro l (⟨-, h⟩ | ⟨_, hrow, -⟩)
            · exact h
            · cases hrow
          · rename_i row
            refine settles_mono (P := InHand σ a (some .downloading) row.attemptNo) ?_ ?_ fun _ _ h => h
            · refine settles_bind (settles_submitMagnet _ _ _ _) fun accepted => ?_
              split
              · exact settles_pure _ fun _ h => h.amid.rested hσ (rests_downloading _)
              · exact settles_bind (settles_giveBack _ _) fun _ => ih hst
            · rintro l (⟨hnone, -⟩ | ⟨_, hrow, h⟩)
              · cases hnone
              · cases hrow
                exact h

end Avid

variable {attempt : MagnetAttemptRecord}

theorem others_rest {l : Ledger} (h : Rested l) (a : Avid) : ∀ b, b ≠ a → (l.standing b).Rests := fun b _ => h b

/-- The one live attempt of an AVID is concluded: it has none left. -/
theorem amid_concluded {l l' : Ledger} {a : Avid} {n : Nat} (h : Rested l) (hn : n ∈ (l.standing a).live)
    (hl : l'.standing = Function.update l.standing a { l.standing a with live := (l.standing a).live \ {n} }) :
    Amid l.standing a ⟨(l.standing a).state, ∅⟩ l' := by
  rw [(h a).only hn, Set.sdiff_self] at hl
  exact hl

theorem rested_kept {l l' : Ledger} {a : Avid} {n : Nat} (h : Rested l) (hn : n ∈ (l.standing a).live)
    (hl : l'.standing = Function.update l.standing a { l.standing a with live := insert n (l.standing a).live }) : Rested l' := by
  rw [Set.insert_eq_of_mem hn, Function.update_eq_self] at hl
  intro b
  rw [hl]
  exact h b

theorem mem_live_of_state {l : Ledger} {a : Avid} {n : Nat} {e : AttemptState} (he : e ∈ AttemptState.live)
    (h : ∃ r, l.att (a, n) = some r ∧ r.state = e) : n ∈ (l.standing a).live := by
  obtain ⟨r, hr, rfl⟩ := h
  exact ⟨r, hr, he⟩

theorem settles_giveUp (hl : attempt.Live) {state : AttemptState} (hs : state ∉ AttemptState.live) (reason : String) :
    Settles who Rested (t.giveUp attempt state reason) fun _ => Rested := by
  have hp : attempt.state ≠ .pending := fun he => by
    rw [MagnetAttemptRecord.Live, he] at hl
    exact absurd hl (by decide)
  unfold giveUp
  refine settles_bind settles_now fun at_ w hw => ?_
  rw [wp_bind]
  refine (answering_connected who _).wp_transitionAttempt hp (fun w' hr _ hmoved => ?_) (fun w' _ hsame => ?_) fun _ => hw
  · rw [if_neg hs] at hmoved
    have hamid := amid_concluded hw (mem_live_of_state hl hr) hmoved
    have hrest : Settles who _ (t.tryNext attempt.avid t.recursionLimit) fun _ => Rested :=
      t.settles_tryNext (others_rest hw attempt.avid) t.recursionLimit (hw attempt.avid).kept
    exact settles_bind hrest (fun _ => settles_pure _ fun _ h => h) w' hamid
  · intro b
    rw [hsame]
    exact hw b

/-- The attempt has been taken for archiving. -/
def Archiving (attempt : MagnetAttemptRecord) (l : Ledger) : Prop :=
  Rested l ∧ ∃ r, l.att (attempt.avid, attempt.attemptNo) = some r ∧ r.state = .archiving

theorem settles_release (at_ : Time) : Settles who (Archiving attempt)
    (discard (transitionAttempt attempt.avid attempt.attemptNo .archiving .finished at_)) fun _ => Rested := by
  intro w ⟨hw, hr⟩
  rw [wp_discard]
  refine (answering_connected who _).wp_transitionAttempt (by decide) (fun w' _ _ hmoved => ?_)
    (fun w' hlost _ => ?_) fun _ => hw
  · rw [if_pos (by decide)] at hmoved
    exact rested_kept hw (mem_live_of_state (by decide) hr) hmoved
  · obtain ⟨r, hr, hs⟩ := hr
    exact absurd hs (hlost r hr)

theorem settles_conclude {Q : Unit → Ledger → Prop} {state : AttemptState} (hs : state ∉ AttemptState.live) (hedge : state ∈ AttemptState.archiving.edges)
    (at_ : Time) {p : M Unit} (hp : ∀ {σ : Avid → Standing} {st : Option AcquisitionState},
      (∀ b, b ≠ attempt.avid → (σ b).Rests) → st ≠ some .ignored → Settles who (Amid σ attempt.avid ⟨st, ∅⟩) p Q) :
    Settles who (Archiving attempt)
      (do discard (transitionAttempt attempt.avid attempt.attemptNo .archiving state at_); p) Q := by
  intro w ⟨hw, hr⟩
  rw [wp_bind, wp_discard]
  refine (answering_connected who _).wp_transitionAttempt (by decide) (fun w' _ _ hmoved => ?_)
    (fun w' hlost _ => ?_) fun hill => absurd hedge hill
  · rw [if_neg hs] at hmoved
    exact hp (others_rest hw attempt.avid) (hw attempt.avid).kept w' (amid_concluded hw (mem_live_of_state (by decide) hr) hmoved)
  · obtain ⟨r, hr, hs⟩ := hr
    exact absurd hs (hlost r hr)

theorem settles_settle (result : ArchiveResult) : Settles who (Archiving attempt) (t.settle attempt result) fun _ => Rested := by
  unfold settle
  refine settles_bind settles_now fun at_ => ?_
  split
  · refine settles_conclude (by decide) (by decide) at_ fun hσ hst => ?_
    exact settles_mono (settles_transition_free hσ hst (by decide) _ _ _ _) (fun _ h => h) fun _ _ h => h.rested hσ
  · exact settles_conclude (by decide) (by decide) at_ fun hσ hst => t.settles_tryNext hσ _ hst
  · refine settles_bind (settles_release at_) fun _ w hw => ?_
    rw [wp_runIf]
    refine ⟨fun _ => ?_, fun _ => hw⟩
    rw [wp_discard]
    refine (answering_connected who _).wp_transition trivial (fun w' _ hmoved b => ?_) (fun w' _ hsame b => ?_) fun _ => hw
    · rw [hmoved]
      by_cases hb : b = attempt.avid
      · subst hb
        rw [Function.update_self]
        exact ⟨(hw _).one, fun _ => .inr rfl, by simp⟩
      · rw [Function.update_of_ne hb]
        exact hw b
    · rw [hsame]
      exact hw b

theorem reads_file (attempt : MagnetAttemptRecord) (folder : Folder) (route : TrackerRoute) :
    Uses (fun op => op.reads = true) (t.file attempt folder route) :=
  t.uses_file_asks (fun _ => reads_asks) (fun _ => rfl) attempt folder route

theorem settles_take (at_ : Time) {e tgt : AttemptState} (he : e ∈ AttemptState.live) (ht : tgt ∈ AttemptState.live) :
    Settles who Rested (transitionAttempt attempt.avid attempt.attemptNo e tgt at_) fun won l =>
      Rested l ∧ (won = true → ∃ r, l.att (attempt.avid, attempt.attemptNo) = some r ∧ r.state = tgt) := by
  intro w hw
  refine (answering_connected who _).wp_transitionAttempt (fun hp => ?_) (fun w' hr hr' hmoved => ?_) (fun w' _ hsame => ?_) fun _ => hw
  · rw [hp] at he
    exact absurd he (by decide)
  · rw [if_pos ht] at hmoved
    exact ⟨rested_kept hw (mem_live_of_state he hr) hmoved, fun _ => hr'⟩
  · refine ⟨fun b => ?_, fun h => by cases h⟩
    rw [hsame]
    exact hw b

theorem settles_claimFinished (hl : attempt.Live) (at_ : Time) :
    Settles who Rested (claimFinished attempt at_) fun won l => Rested l ∧ (won = true → Archiving attempt l) := by
  have taken : Settles who Rested (transitionAttempt attempt.avid attempt.attemptNo .finished .archiving at_)
      fun won l => Rested l ∧ (won = true → Archiving attempt l) :=
    settles_mono (settles_take at_ (by decide) (by decide)) (fun _ h => h) fun _ _ h => ⟨h.1, fun hw => ⟨h.1, h.2 hw⟩⟩
  unfold claimFinished
  split
  · exact taken
  · refine settles_bind (settles_mono (settles_take at_ hl (by decide)) (fun _ h => h) fun _ _ h => h.1) fun won => ?_
    split
    · exact taken
    · exact settles_pure _ fun _ h => ⟨h, fun hw => by cases hw⟩

theorem settles_archiveFinished (hl : attempt.Live) (task : OfflineTask) (taskDir : String) :
    Settles who Rested (t.archiveFinished attempt task taskDir) fun _ => Rested := by
  have archiving : ∀ l, Archiving attempt l → Rested l := fun _ h => h.1
  unfold archiveFinished
  refine settles_bind settles_now fun at_ => settles_bind (settles_mono settles_get (fun _ h => h) fun _ _ h => h.1) fun record => ?_
  split
  · exact settles_pure _ fun _ h => h
  · split
    · exact settles_pure _ fun _ h => h
    · refine settles_bind (settles_claimFinished hl at_) fun won => ?_
      split
      · rename_i hwon
        refine settles_mono (P := Archiving attempt) ?_ (fun _ h => h.2 hwon) fun _ _ h => h
        refine settles_bind (settles_reads (reads_refreshMount _ _) archiving) fun _ => settles_bind (settles_reads (uses_ok rfl) archiving) fun located => ?_
        split
        · exact settles_bind settles_now fun _ => settles_release _
        · refine settles_bind (settles_reads (t.reads_file _ _ _) archiving) fun result => settles_bind (t.settles_settle result) fun _ => ?_
          exact settles_reads (uses_runIf (reads_removeTask _ _)) fun _ h => h
      · exact settles_pure _ fun _ h => h.1

theorem settles_consider (byHash : Listing) (joined : InfoHash × MagnetAttemptRecord) (hl : joined.2.Live) :
    Settles who Rested (t.consider byHash joined) fun _ => Rested := by
  have dropped : ∀ {h : InfoHash} {dir : String} gaveUp, Settles who Rested (runIf gaveUp (removeTask h dir)) fun _ => Rested :=
    fun _ => settles_reads (uses_runIf (reads_removeTask _ _)) fun _ h => h
  have rest : ∀ l, Rested l → Rested l := fun _ h => h
  unfold consider
  split
  · refine settles_bind (settles_reads (uses_ok rfl) rest) fun _ => ?_
    unfold advance
    split
    · exact t.settles_archiveFinished hl _ _
    · exact settles_bind (t.settles_giveUp hl (by decide) _) dropped
    · split
      · unfold refreshProgress
        refine settles_bind settles_now fun at_ => settles_bind (settles_idle ?_ (fun l l' h hr b => ?_) rest) fun moved => ?_
        · exact uses_recordProgress rfl
        · rw [h]
          exact hr b
        · split
          · exact settles_pure _ rest
          · dsimp only
            split
            · exact settles_bind (t.settles_giveUp hl (by decide) _) dropped
            · exact settles_pure _ rest
      · exact settles_pure _ rest
  · exact settles_raise rest

theorem settles_sweepOne (byHash : Listing) (at_ : Time) (hf : attempt.state ∈ AttemptState.inFlight) :
    Settles who Rested (t.sweepOne byHash at_ attempt) fun _ => Rested := by
  have hl : attempt.Live := List.mem_append_left _ hf
  have rest : ∀ l, Rested l → Rested l := fun _ h => h
  unfold sweepOne
  refine settles_bind (settles_reads (uses_ok rfl) rest) fun _ => ?_
  split
  · exact settles_pure _ rest
  · split
    · exact settles_pure _ rest
    · refine settles_bind (settles_reads (uses_ok rfl) rest) fun located => ?_
      split
      · unfold archiveOrphaned
        refine settles_bind settles_now fun at_ => ?_
        refine settles_bind (settles_mono (settles_take at_ hl (by decide)) rest fun _ _ h => h.1) fun finished => ?_
        split
        · refine settles_bind (settles_take at_ (by decide) (by decide)) fun won => ?_
          split
          · rename_i hwon
            refine settles_mono (P := Archiving attempt) ?_ (fun _ h => ⟨h.1, h.2 hwon⟩) fun _ _ h => h
            exact settles_bind (settles_reads (t.reads_file _ _ _) fun _ h => h.1) fun result => t.settles_settle result
          · exact settles_pure _ fun _ h => h.1
        · exact settles_pure _ rest
      · exact settles_discard (t.settles_giveUp hl (by decide) _)

theorem settles_forEach {β : Type} {xs : List β} {f : β → M Unit} (h : ∀ x ∈ xs, Settles who Rested (f x) fun _ => Rested) :
    Settles who Rested (Prog.forEach xs f) fun _ => Rested := by
  refine fun w hw => keeps_forEach (I := fun w => Rested w.ledger) (fun x hx => ?_) w hw
  exact h x hx

/-- A statement whose answer is known to be of live attempts. -/
theorem settles_known {s : Sql} (hs : (Op.sql s).reads = true) {C : s.Res → Prop} (hC : ∀ x, known (.sql s) (.ok x) → C x) :
    Settles who Rested (sql s) fun x l => C x ∧ Rested l := by
  intro w hw
  refine (answering_connected who _).wp_sql ?_ trivial fun x w' hg => ⟨hC x (gives_known hg), ?_⟩
  · exact (of_decide_eq_true hs).2
  · have hans : Answers 0 w.ledger (.sql s) (.ok x) w'.ledger := hg
    rw [ledger_reads hans hs]
    exact hw

theorem settles_poll : Settles who Rested t.poll fun _ => Rested := by
  have rest : ∀ l, Rested l → Rested l := fun _ h => h
  unfold poll
  split
  · exact settles_pure _ rest
  · refine settles_bind (settles_reads t.reads_listTasks rest) fun byHash => ?_
    refine settles_bind (Q := fun joined l => (∀ j ∈ joined, j.2.Live) ∧ Rested l) ?_ fun joined w hw => ?_
    · unfold attemptsByInfoHash
      split
      · exact settles_pure _ fun _ h => ⟨by simp, h⟩
      · refine settles_bind (settles_known rfl fun rows hrows => hrows) fun rows => settles_pure _ fun _ ⟨hrows, h⟩ => ⟨?_, h⟩
        intro j hj
        obtain ⟨row, hrow, hj⟩ := List.mem_filterMap.1 hj
        obtain ⟨h', -, rfl⟩ := Option.map_eq_some_iff.1 hj
        exact (hrows row hrow).1
    · obtain ⟨hlive, hw⟩ := hw
      refine settles_bind (settles_forEach fun j hj => t.settles_consider byHash j (hlive j hj)) (fun _ => ?_) w hw
      refine settles_bind ?_ fun _ => settles_reads (reads_clearArchived _) rest
      unfold sweepLost
      refine settles_bind settles_now fun at_ => settles_bind (settles_known rfl fun rows hrows => hrows) fun rows w hw => ?_
      exact settles_forEach (fun attempt ha => t.settles_sweepOne byHash at_ (hw.1 attempt ha)) w hw.2

end Tracker

end EmbyxManager
