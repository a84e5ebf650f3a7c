import EmbyxManager.Monitor.Attempts
import EmbyxManager.Monitor.Claims
import EmbyxManager.Monitor.Ingest
/-!
# What an intake pass comes back to

A pass looks at the row when it discovers the AVID, and asks two other sites for magnets
before it looks again. It claims an attempt whatever became of the row meanwhile, and goes
by the row's state only once CloudDrive has the magnet.

Where the row is not settled when the pass claims and reads, and nobody else moves it
between the read and the compare-and-set, the pass leaves it with the tracker.
-/

namespace EmbyxManager
open Atom Prog AcquisitionRepository

/-! ## A pass among others -/

/-- One intake pass over an AVID, by where the AVID comes from. -/
inductive Pass where
  | enqueue (avid : Avid) (source taskDirPath : String) (itemMagnet : Option String) (releaseDate : Option Date)
  | retry (record : AcquisitionRecord) (fallbackTaskDir : Option String)
  | feed (p : Rss) (run : RssRun) (category : RssCategory) (at_ : Time) (sighted : Avid × FeedItem)

def Pass.program (i : Intake) : Pass → M Unit
  | enqueue avid source taskDirPath itemMagnet releaseDate =>
    discard (Intake.enqueue i avid source taskDirPath itemMagnet releaseDate)
  | retry record fallbackTaskDir => discard (Intake.retry i record fallbackTaskDir)
  | feed p run category at_ sighted => do
    let (_, wanted) ← p.sight category at_ (run, []) sighted
    let kept ← Rss.skipLibraryHeld wanted
    let resolved ← p.resolveAll kept
    p.submitAll resolved

/-- A retried record comes from the action timer. -/
def Pass.due : Pass → Prop
  | retry record _ => record.state ∈ AcquisitionState.due
  | _ => True

section Amid
variable {ι : Type} [DecidableEq ι]

/-- What the others do, whatever it is. -/
def World.Others (who : ι) : World ι → World ι → Prop :=
  Relation.ReflTransGen fun w w' => ∃ j op r, j ≠ who ∧ World.Step (fun _ _ => True) j w op r w'

/-- The others before each action; the connections of `who` to the database hold. -/
def World.Amid (who : ι) : Env Op.Res Exn (World ι) := fun w op r w' =>
  ∃ w₁, World.Others who w w₁ ∧ World.Step connected who w₁ op r w'

/-- What `who` asked for and was answered, newest first. -/
def ownEvents (who : ι) (log : List (Entry ι)) : List Event := log.filterMap fun e => if e.who = who then some e.event else none

end Amid

/-! ## What happened to the magnets -/

/-- How often in a row CloudDrive has just failed to take a magnet. -/
def refusals : List Event → Nat
  | ⟨.ask (.addOfflineFiles ..), .error _⟩ :: h => refusals h + 1
  | _ => 0

/-- CloudDrive has just been handed a magnet: it took it, or said on the last try that it has it. -/
def delivered : List Event → Bool
  | ⟨.ask (.addOfflineFiles ..), .ok success⟩ :: _ => success
  | ⟨.ask (.addOfflineFiles ..), .error e⟩ :: h => took (.error e) && 2 ≤ refusals h
  | _ => false

/-- The attempt claimed last. -/
def lastClaimed : List Event → Option AttemptKey
  | [] => none
  | ⟨.sql (.claimNextPending avid _), .ok (some row)⟩ :: _ => some (avid, row.attemptNo)
  | _ :: h => lastClaimed h

/-- An operator ignored the AVID, or its video is filed. -/
def settled (l : Ledger) (avid : Avid) : Bool := (l.acq avid).any fun r => r.state = .archived || r.state = .ignored

/-- The row is the tracker's, or the attempt is concluded. -/
def tended (l : Ledger) (k : AttemptKey) : Bool :=
  (l.acq k.1).any (·.state = .downloading) || (l.att k).any (·.state ∈ AttemptState.concluded)

section Statements
variable {ι : Type} [DecidableEq ι]

/-- What a pass needs of the ledger at one of its actions, after these events of its own. -/
def calmAt (h : List Event) (l : Ledger) : Op → Bool
  | .sql (.claimNextPending avid _) => !settled l avid || l.nextPending avid = none
  | .sql (.getAcquisition avid) => !delivered h || !settled l avid
  | .sql (.casAcquisition avid expected .downloading _ _ _ _) =>
    (l.acq avid).any (·.state = expected) || (lastClaimed h).all (tended l)
  | _ => true

/-- At every action of the pass. -/
def Calm (who : ι) : List (Entry ι) → Bool
  | [] => true
  | e :: log => (e.who ≠ who || calmAt (ownEvents who log) e.before e.event.op) && Calm who log

/-- Whatever the pass handed to CloudDrive is looked after. -/
def HandedOver (who : ι) (w : World ι) : Prop :=
  ∀ h, h <:+ ownEvents who w.log → delivered h = true → ∀ k, lastClaimed h = some k → tended w.ledger k = true

/-- The actions with the ledger each left, newest first. -/
def outcomes (l : Ledger) : List (Entry ι) → List (Entry ι × Ledger)
  | [] => []
  | e :: log => (e, l) :: outcomes e.before log

/-- The pass gives a settled AVID no live attempt. -/
def LeavesSettled (who : ι) (w : World ι) : Prop :=
  ∀ e after, (e, after) ∈ outcomes w.ledger w.log → e.who = who → ∀ avid, settled e.before avid = true → ∀ n r',
    after.att (avid, n) = some r' → r'.Live → ∃ r, e.before.att (avid, n) = some r ∧ r.Live

end Statements

/-! ## One action -/

section Amid
variable {ι : Type} [DecidableEq ι] {who : ι} {w w' w₁ : World ι} {op : Op} {r : Except Exn op.Res}

theorem ownEvents_cons (e : Entry ι) (log : List (Entry ι)) :
    ownEvents who (e :: log) = if e.who = who then e.event :: ownEvents who log else ownEvents who log := by
  unfold ownEvents
  rw [List.filterMap_cons]
  split <;> simp_all

theorem others_kept (h : World.Others who w w₁) :
    ownEvents who w₁.log = ownEvents who w.log ∧ ∀ k, (w.ledger.att k).isSome → (w₁.ledger.att k).isSome := by
  induction h with
  | refl => exact ⟨rfl, fun _ h => h⟩
  | tail _ hstep ih =>
    obtain ⟨j, op, r, hj, t, l', -, -, ha, rfl⟩ := hstep
    refine ⟨?_, fun k hk => ?_⟩
    · rw [ownEvents_cons, if_neg hj]
      exact ih.1
    · obtain ⟨row, hrow⟩ := Option.isSome_iff_exists.1 (ih.2 k hk)
      rcases answers_ledger ha with rfl | ⟨s, a, -, hg⟩
      · exact Option.isSome_iff_exists.2 ⟨row, hrow⟩
      · obtain ⟨row', hrow', -⟩ := Sql.att_effect hg hrow
        exact Option.isSome_iff_exists.2 ⟨row', hrow'⟩

/-- An action of the pass: what the others left, and what it made of that. -/
theorem amid_own (ht : World.Amid who w op r w') :
    ∃ (w₁ : World ι) (t : Time), ownEvents who w₁.log = ownEvents who w.log ∧ (∀ k, (w.ledger.att k).isSome → (w₁.ledger.att k).isSome) ∧
      w'.log = ⟨who, t, w₁.ledger, op, r⟩ :: w₁.log ∧ ownEvents who w'.log = ⟨op, r⟩ :: ownEvents who w.log ∧
      Answers t w₁.ledger op r w'.ledger ∧ connected op r := by
  obtain ⟨w₁, ho, t, l', -, hc, ha, rfl⟩ := ht
  obtain ⟨hown, hatt⟩ := others_kept ho
  refine ⟨w₁, t, hown, hatt, rfl, ?_, ha, hc⟩
  rw [ownEvents_cons, if_pos rfl, hown]

theorem amid_legal {e : Exn} (ht : World.Amid who w op (.error e) w') : ¬ e.Illegal := by
  obtain ⟨w₁, t, -, -, -, -, ha, -⟩ := amid_own ht
  exact known_error (answers_known ha)

omit [DecidableEq ι] in
/-- Statements that write no attempt are answered. -/
theorem amid_answered {s : Sql} {e : Exn} (hs : s.writesAttempts = false) : ¬ World.Amid who w (.sql s) (.error e) w' := by
  rintro ⟨w₁, -, hstep⟩
  exact (fromLedger_connected who).fails hs hstep

end Amid

/-! ## Before a magnet is handed over -/

/-- The actions of an intake. -/
def Op.intakes : Op → Bool
  | .sql (.claimAttempt ..) | .sql (.recordProgress ..) => false
  | .sql (.casAttempt _ _ expected target _ _) => expected = .submitted && target = .error
  | _ => true

def Op.submits : Op → Bool
  | .ask (.addOfflineFiles ..) => true
  | _ => false

section Safe
variable {ι : Type} [DecidableEq ι] {who : ι} {w w' : World ι} {α β : Type}

/-- CloudDrive has been handed nothing. -/
def Undelivered (who : ι) (w : World ι) : Prop := ∀ h, h <:+ ownEvents who w.log → delivered h = false

/-- The program hands nothing over and makes no illegal move. -/
abbrev Safe (who : ι) (p : M α) : Prop :=
  p.Keeps (World.Amid who) (fun _ op => op.intakes = true) (Undelivered who) fun e w => Undelivered who w ∧ ¬ e.Illegal

theorem delivered_of_submits {op : Op} {r : Except Exn op.Res} {h : List Event} (ho : op.submits = false) :
    delivered (⟨op, r⟩ :: h) = false := by
  cases op with
  | ask q =>
    cases q with
    | addOfflineFiles => cases ho
    | _ => rfl
  | _ => rfl

theorem undelivered_cons {op : Op} {r : Except Exn op.Res} (hu : Undelivered who w)
    (ho : ownEvents who w'.log = ⟨op, r⟩ :: ownEvents who w.log) (hd : delivered (⟨op, r⟩ :: ownEvents who w.log) = false) :
    Undelivered who w' := by
  intro h hh
  rw [ho] at hh
  rcases List.suffix_cons_iff.1 hh with rfl | hh
  · exact hd
  · exact hu h hh

theorem undelivered_step {op : Op} {r : Except Exn op.Res} (hu : Undelivered who w) (ho : op.submits = false)
    (ht : World.Amid who w op r w') : Undelivered who w' := by
  obtain ⟨w₁, t, -, -, -, hown, -, -⟩ := amid_own ht
  exact undelivered_cons hu hown (delivered_of_submits ho)

theorem safe_ok {op : Op} (hi : op.intakes = true) (ho : op.submits = false) : Safe who (call op : M op.Res) :=
  keeps_call (fun _ _ => hi) (fun _ _ _ hu ht => undelivered_step hu ho ht)
    fun _ _ _ hu ht => ⟨undelivered_step hu ho ht, amid_legal ht⟩

theorem safe_attempt {p : M α} (hp : Safe who p) : Safe who p.attempt := keeps_attempt hp fun _ _ h => h.1

theorem safe_ite {c : Prop} [Decidable c] {p q : M α} (hp : c → Safe who p) (hq : ¬ c → Safe who q) :
    Safe who (if c then p else q) := fun w hu => wp_ite (fun h => hp h w hu) fun h => hq h w hu

theorem safe_transition {avid : Avid} {expected target : AcquisitionState} (he : target ∈ expected.edges) {at_ : Time}
    {note : Option String} {next : Option Time} {paths : Option (List String)} :
    Safe who (transition avid expected target at_ note next paths) := by
  unfold transition
  rw [if_pos he]
  exact safe_ok rfl rfl

theorem safe_forSome {x : Option α} {p : α → M Unit} (hp : ∀ a, Safe who (p a)) : Safe who (forSome x p) := by
  cases x with
  | none => exact keeps_pure ()
  | some a => exact hp a

theorem safe_runIf {b : Bool} {p : M Unit} (hp : Safe who p) : Safe who (runIf b p) := by
  cases b with
  | false => exact keeps_pure ()
  | true => exact hp

theorem safe_discover (avid : Avid) (at_ : Time) (s : SightingArgs) : Safe who (discover avid at_ s) := by
  unfold discover
  refine keeps_bind (safe_ok rfl rfl) fun inserted => safe_ite (fun _ => keeps_pure _) fun _ => ?_
  refine keeps_bind (safe_ok rfl rfl) fun existing => ?_
  cases existing with
  | none => exact keeps_pure _
  | some existing =>
    refine safe_ite (fun _ => keeps_bind ?_ fun _ => keeps_pure _) fun _ => keeps_pure _
    unfold rediscover
    refine keeps_bind (safe_forSome fun date => safe_runIf (keeps_discard (safe_ok rfl rfl))) fun _ => ?_
    refine keeps_bind (safe_forSome fun dir => safe_runIf (safe_ok rfl rfl)) fun _ => ?_
    exact safe_forSome fun next => safe_ok rfl rfl

theorem safe_resolveOrNone (i : Intake) (avid : Avid) (magnet : Option String) : Safe who (Intake.resolveOrNone i avid magnet) := by
  unfold Intake.resolveOrNone Intake.resolve
  refine keeps_bind (safe_attempt (keeps_bind (safe_ok rfl rfl) fun sukebei => ?_)) fun r => ?_
  · refine keeps_bind (safe_attempt (safe_ok rfl rfl)) fun r => ?_
    cases r <;> exact keeps_pure _
  · cases r <;> exact keeps_pure _

theorem safe_repark (i : Intake) {record : AcquisitionRecord} (hr : record.state ∈ AcquisitionState.due) (note : String) :
    Safe who (Intake.repark i record note) := by
  have edge : AcquisitionState.resolveFailed ∈ record.state.edges := by
    revert hr
    cases record.state <;> decide
  unfold Intake.repark ensureReleaseDate
  refine keeps_bind (safe_ite (fun _ => keeps_pure _) fun _ => keeps_bind (safe_ok rfl rfl) fun found => ?_) fun date => ?_
  · cases found with
    | none => exact keeps_pure _
    | some date => exact keeps_bind (keeps_discard (safe_ok rfl rfl)) fun _ => keeps_pure _
  · exact keeps_bind (safe_ok rfl rfl) fun at_ => keeps_discard (safe_transition edge)

theorem safe_parkUnresolved (i : Intake) (avid : Avid) : Safe who (Intake.parkUnresolved i avid) := by
  unfold Intake.parkUnresolved
  refine keeps_bind (safe_ok rfl rfl) fun record => ?_
  cases record with
  | none => exact keeps_pure _
  | some record =>
    refine safe_ite (fun hp => safe_repark i ?_ _) fun _ => keeps_pure _
    revert hp
    cases record.state <;> decide

theorem safe_skipHeld (wanted : Wanted) : Safe who (Rss.skipHeld wanted) := by
  unfold Rss.skipHeld
  refine keeps_bind (safe_ok rfl rfl) fun _ => keeps_bind (safe_attempt (safe_ok rfl rfl)) fun r => ?_
  rcases r with e | _ | ⟨path, paths⟩
  · exact keeps_pure _
  · exact keeps_pure _
  · refine keeps_bind (safe_ok rfl rfl) fun record => ?_
    cases record with
    | none => exact keeps_pure _
    | some record =>
      refine safe_ite (fun hr => keeps_bind (safe_ok rfl rfl) fun at_ => ?_) fun _ => keeps_pure _
      refine keeps_bind (keeps_discard (safe_transition ?_)) fun _ => keeps_pure _
      revert hr
      cases record.state <;> decide

theorem safe_filingFor (p : Rss) (run : RssRun) (avid : Avid) (own : Filing) : Safe who (p.filingFor run avid own) := by
  unfold Rss.filingFor
  refine safe_ite (fun _ => keeps_pure _) fun _ => keeps_bind (safe_ok rfl rfl) fun record => ?_
  refine safe_ite (fun _ => keeps_pure _) fun _ => keeps_bind ?_ fun known => ?_
  · unfold Rss.castOf
    split
    · exact keeps_pure _
    · exact keeps_bind (safe_attempt (safe_ok rfl rfl)) fun _ => keeps_pure _
  · rcases known with ⟨run, _ | cast⟩ <;> exact keeps_pure _

theorem safe_filingDir (avid : Avid) (filing : Filing) : Safe who (Rss.filingDir avid filing) := by
  unfold Rss.filingDir
  refine safe_ite (fun _ => keeps_pure _) fun _ => keeps_bind (safe_ok rfl rfl) fun record => ?_
  split <;> exact keeps_pure _

theorem safe_addAttempts (avid : Avid) (candidates : List MagnetCandidate) (at_ : Time) :
    Safe who (addAttempts avid candidates at_) :=
  safe_ite (fun _ => keeps_pure _) fun _ => safe_ok rfl rfl

theorem safe_refused (avid : Avid) (no : Nat) (at_ : Time) (error : Option String) :
    Safe who (discard (transitionAttempt avid no .submitted .error at_ error)) := by
  unfold transitionAttempt
  rw [if_pos (by decide)]
  exact keeps_discard (safe_ok rfl rfl)

end Safe

/-! ## Handing a magnet over -/

section Submission
variable {ι : Type} [DecidableEq ι] {who : ι} {w w' : World ι} {avid : Avid} {k : AttemptKey}

/-- The pass ends here, or goes on with nothing handed over. -/
def Rests (who : ι) (w : World ι) : Prop := Calm who w.log = true → HandedOver who w

/-- What an exception of the pass tells. -/
def Respectful (who : ι) (e : Exn) (w : World ι) : Prop := Calm who w.log = true → ¬ e.Illegal ∧ HandedOver who w

theorem Undelivered.handedOver (hu : Undelivered who w) : HandedOver who w := by
  intro h hh hd
  rw [hu h hh] at hd
  cases hd

/-- The attempt is claimed, and nothing of it is handed over yet. -/
structure Claiming (who : ι) (k : AttemptKey) (w : World ι) : Prop where
  undelivered : Undelivered who w
  claimed : lastClaimed (ownEvents who w.log) = some k
  there : (w.ledger.att k).isSome

/-- CloudDrive has just been handed the attempt's magnet. -/
structure Delivered (who : ι) (k : AttemptKey) (w : World ι) : Prop where
  now : delivered (ownEvents who w.log) = true
  before : ∀ h, h <:+ (ownEvents who w.log).tail → delivered h = false
  claimed : lastClaimed (ownEvents who w.log) = some k
  there : (w.ledger.att k).isSome

theorem Safe.wp {α : Type} {p : M α} {Q : α → World ι → Prop} (hp : Safe who p) (hu : Undelivered who w)
    (hQ : ∀ a w', Undelivered who w' → Q a w') :
    p.wp (World.Amid who) (fun _ op => op.intakes = true) Q (Respectful who) w :=
  wp_mono (hp w hu) hQ fun _ _ h _ => ⟨h.2, h.1.handedOver⟩

theorem wp_claimLoop_amid (avid : Avid) (at_ : Time) (n : Nat) (hu : Undelivered who w) :
    (claimLoop avid at_ n).wp (World.Amid who) (fun _ op => op.intakes = true)
      (fun row w' => Undelivered who w' ∧ ∀ attempt, row = some attempt →
        Claiming who (avid, attempt.attemptNo) w' ∧ refusals (ownEvents who w'.log) = 0)
      (Respectful who) w := by
  induction n generalizing w with
  | zero => exact ⟨hu, fun _ h => by cases h⟩
  | succ n ih =>
    unfold claimLoop
    rw [wp_bind, wp_attempt, wp_call]
    refine ⟨rfl, fun row w' ht => ?_, fun e w' ht => ?_⟩
    · have hu' := undelivered_step hu rfl ht
      refine ⟨hu', fun attempt hrow => ?_⟩
      subst hrow
      obtain ⟨w₁, t, -, -, -, hown, hg, -⟩ := amid_own ht
      have hfound : (w'.ledger.att (avid, attempt.attemptNo)).isSome := by
        rcases Ledger.claimNextPending_spec hg with ⟨h, -⟩ | ⟨m, row, -, hr, -, h, -, hatt⟩
        · cases h
        · cases h
          have hk : row.attemptNo = m := congrArg Prod.snd (Ledger.att_key hr)
          rw [hatt]
          subst hk
          simp [MagnetAttemptRecord.submittedBy]
      refine ⟨⟨hu', ?_, hfound⟩, ?_⟩
      · rw [hown]
        rfl
      · rw [hown]
        rfl
    · have hu' := undelivered_step hu rfl ht
      cases e with
      | uniqueViolation => exact ih hu'
      | _ => exact fun _ => ⟨amid_legal ht, hu'.handedOver⟩

/-- One more try: it is handed over, or it is not. -/
theorem wp_try {link taskDir : String} {Q : Bool → World ι → Prop} {X : Exn → World ι → Prop} (hc : Claiming who k w)
    (hok : ∀ b w', (b = true → Delivered who k w') → (b = false → Claiming who k w') → Q b w')
    (herr : ∀ e w', refusals (ownEvents who w'.log) = refusals (ownEvents who w.log) + 1 → ¬ e.Illegal →
      (took (.error e) = true → 2 ≤ refusals (ownEvents who w.log) → Delivered who k w') →
      (took (.error e) = false ∨ refusals (ownEvents who w.log) < 2 → Claiming who k w') → X e w') :
    (ask (.addOfflineFiles [link] taskDir)).wp (World.Amid who) (fun _ op => op.intakes = true) Q X w := by
  -- after the call the claim still stands, whoever else wrote in between
  have told : ∀ {r w'}, World.Amid who w (.ask (.addOfflineFiles [link] taskDir)) r w' →
      ownEvents who w'.log = ⟨.ask (.addOfflineFiles [link] taskDir), r⟩ :: ownEvents who w.log ∧
      (delivered (ownEvents who w'.log) = true → Delivered who k w') ∧
      (delivered (ownEvents who w'.log) = false → Claiming who k w') := by
    intro r w' ht
    obtain ⟨w₁, t, -, hatt, -, hown, ha, -⟩ := amid_own ht
    have hthere : (w'.ledger.att k).isSome := by
      rcases answers_ledger ha with h | ⟨s, a, h, -⟩
      · rw [h]
        exact hatt k hc.there
      · cases h
    have hclaimed : lastClaimed (ownEvents who w'.log) = some k := by
      rw [hown]
      exact hc.claimed
    refine ⟨hown, fun hd => ⟨hd, fun h hh => ?_, hclaimed, hthere⟩, fun hd => ⟨?_, hclaimed, hthere⟩⟩
    · rw [hown] at hh
      exact hc.undelivered h hh
    · rw [hown] at hd
      exact undelivered_cons hc.undelivered hown hd
  rw [wp_call]
  refine ⟨rfl, fun b w' ht => ?_, fun e w' ht => ?_⟩
  · obtain ⟨hown, hyes, hno⟩ := told ht
    rw [hown] at hyes hno
    exact hok b w' hyes hno
  · obtain ⟨hown, hyes, hno⟩ := told ht
    rw [hown] at hyes hno
    refine herr e w' (by rw [hown]; rfl) (amid_legal ht) (fun htook htwice => hyes ?_) fun hnot => hno ?_
    · simp [delivered, htook, htwice]
    · simp only [delivered, Bool.and_eq_false_iff, decide_eq_false_iff_not, Nat.not_le]
      exact hnot

/-- The tries of one magnet; only the last failure counts. -/
theorem wp_addOffline_amid (link taskDir : String) (n : Nat) (hc : Claiming who k w)
    (hn : refusals (ownEvents who w.log) + n = 2) :
    (Intake.addOffline link taskDir n).wp (World.Amid who) (fun _ op => op.intakes = true)
      (fun b w' => (b = true → Delivered who k w') ∧ (b = false → Claiming who k w'))
      (fun e w' => (took (.error e) = true → Delivered who k w') ∧ (took (.error e) = false → Claiming who k w')) w := by
  induction n generalizing w with
  | zero =>
    refine wp_try hc (fun b w' hyes hno => ⟨hyes, hno⟩) fun e w' _ _ hyes hno => ⟨fun h => hyes h ?_, fun h => hno (.inl h)⟩
    omega
  | succ n ih =>
    unfold Intake.addOffline
    rw [wp_bind, wp_attempt]
    refine wp_try hc (fun b w' hyes hno => ⟨hyes, hno⟩) fun e w' href _ hyes hno => ?_
    have hagain : Claiming who k w' := hno (.inr (by omega))
    refine wp_ite (fun _ => ih hagain (by omega)) fun hnot => ⟨fun h => ?_, fun _ => hagain⟩
    exfalso
    revert hnot h
    cases e <;> simp [Intake.retried, took]

theorem wp_addMagnet_amid (link taskDir : String) (hc : Claiming who k w) (hn : refusals (ownEvents who w.log) = 0) :
    (Intake.addMagnet link taskDir).wp (World.Amid who) (fun _ op => op.intakes = true)
      (fun out w' => (out ≠ .failed → Delivered who k w') ∧ (out = .failed → Claiming who k w')) (Respectful who) w := by
  unfold Intake.addMagnet
  rw [wp_bind, wp_attempt]
  refine wp_mono (wp_addOffline_amid link taskDir 2 hc (by rw [hn])) (fun b w' h => ?_) fun e w' h => ?_
  · cases b with
    | true => exact ⟨fun _ => h.1 rfl, fun h => by cases h⟩
    | false => exact ⟨fun hf => absurd rfl hf, fun _ => h.2 rfl⟩
  · cases e with
    | rpcError details =>
      cases hd : duplicateTask details with
      | true =>
        simp only [hd, if_true]
        exact ⟨fun _ => h.1 hd, fun h => by cases h⟩
      | false =>
        simp only [hd, Bool.false_eq_true, if_false]
        exact ⟨fun hf => absurd rfl hf, fun _ => h.2 hd⟩
    | _ => exact ⟨fun hf => absurd rfl hf, fun _ => h.2 rfl⟩

/-! ## Looking at the row again -/

/-- After a hand-over, only that one is to be looked after. -/
theorem Delivered.rests (hd : Delivered who k w) (evs : List Event) (ho : ownEvents who w'.log = evs ++ ownEvents who w.log)
    (hnew : ∀ h, h <:+ evs ++ ownEvents who w.log → delivered h = true → h <:+ ownEvents who w.log)
    (ht : tended w'.ledger k = true) : HandedOver who w' := by
  intro h hh hdel k' hk'
  rw [ho] at hh
  have hsuf := hnew h hh hdel
  cases hl : ownEvents who w.log with
  | nil =>
    rw [hl] at hsuf
    rw [List.suffix_nil.1 hsuf] at hdel
    cases hdel
  | cons e h₀ =>
    rw [hl] at hsuf
    rcases List.suffix_cons_iff.1 hsuf with rfl | hsuf
    · rw [← hl, hd.claimed] at hk'
      cases hk'
      exact ht
    · rw [hd.before h (by rw [hl]; exact hsuf)] at hdel
      cases hdel

theorem calm_head {e : Entry ι} {log : List (Entry ι)} (hw : e.who = who) (h : Calm who (e :: log) = true) :
    calmAt (ownEvents who log) e.before e.event.op = true := by
  simp only [Calm, hw, ne_eq, not_true_eq_false, decide_false, Bool.false_or, Bool.and_eq_true] at h
  exact h.1

theorem settled_of_edges {l : Ledger} {row : AcquisitionRecord} (hrow : l.acq avid = some row)
    (hne : row.state ≠ .downloading) (he : .downloading ∉ row.state.edges) : settled l avid = true := by
  unfold settled
  rw [hrow, Option.any_some]
  revert hne he
  cases row.state <;> decide

theorem tended_cas {l l' : Ledger} {expected : AcquisitionState} {at_ : Time} {note : Option String} {next : Option Time}
    {paths : Option (List String)} {hit : Bool}
    (hg : (Sql.casAcquisition k.1 expected .downloading at_ note next paths).Gives l hit l')
    (h : (l.acq k.1).any (·.state = expected) = true ∨ tended l k = true) : tended l' k = true := by
  have hatt := Sql.att_frame hg rfl k
  simp only [Sql.Gives, Sql.run, Except.ok.injEq] at hg
  have hacq := Ledger.acq_casAcquisition l k.1 expected .downloading at_ note next paths k.1
  rw [show _ = l' from congrArg Prod.snd hg] at hacq
  unfold tended at h ⊢
  rw [hacq, hatt]
  cases hrow : l.acq k.1 with
  | none =>
    rw [hrow] at h
    simpa using h
  | some row =>
    rw [hrow] at h
    by_cases hs : row.state = expected
    · simp [hs]
    · simpa [hs] using h

/-- The last look at the row: it is the tracker's, or is handed to it, or someone moved it. -/
theorem wp_markDownloading_amid (hd : Delivered who k w) (at_ : Time) :
    (Intake.markDownloading k.1 at_).wp (World.Amid who) (fun _ op => op.intakes = true) (fun _ => Rests who)
      (Respectful who) w := by
  unfold Intake.markDownloading
  rw [wp_bind, wp_call]
  refine ⟨rfl, fun record w' ht => ?_, fun e w' ht => (amid_answered rfl ht).elim⟩
  obtain ⟨w₁, t, hown₁, hatt, hlog, hown, hg, -⟩ := amid_own ht
  simp only [Answers, Sql.Gives, Sql.run, Except.ok.injEq, Prod.mk.injEq] at hg
  obtain ⟨hrow, hl⟩ := hg
  have hfresh : ∀ h, h <:+ [⟨.sql (.getAcquisition k.1), .ok record⟩] ++ ownEvents who w.log → delivered h = true →
      h <:+ ownEvents who w.log := by
    intro h hh hdel
    rcases List.suffix_cons_iff.1 hh with rfl | hh
    · cases hdel
    · exact hh
  -- a magnet was claimed, so its acquisition cannot have gone
  cases record with
  | none =>
    obtain ⟨row, hr⟩ := Option.isSome_iff_exists.1 (hatt k hd.there)
    have howned := w₁.ledger.owned row (Ledger.mem_of_att hr)
    rw [show row.avid = k.1 from congrArg Prod.fst (Ledger.att_key hr)] at howned
    rw [Ledger.acq] at hrow
    rw [hrow] at howned
    cases howned
  | some record =>
    refine wp_ite (fun hs _ => hd.rests [_] hown hfresh ?_) fun hs => ?_
    · rw [← hl]
      simp [tended, hrow, hs]
    unfold transition
    rw [wp_discard]
    refine wp_ite (fun _ => ?_) fun he hcalm => ?_
    · rw [wp_call]
      refine ⟨rfl, fun hit w'' ht' => ?_, fun e w'' ht' => (amid_answered rfl ht').elim⟩
      intro hcalm
      obtain ⟨w₂, t', hown₂, -, hlog', hown', hg', -⟩ := amid_own ht'
      rw [hlog'] at hcalm
      have hhead := calm_head rfl hcalm
      rw [hown₂, hown] at hhead
      have hclaimed : lastClaimed (⟨.sql (.getAcquisition k.1), .ok (some record)⟩ :: ownEvents who w.log) = some k := hd.claimed
      simp only [calmAt, hclaimed, Option.all_some, Bool.or_eq_true] at hhead
      rw [hown] at hown'
      refine hd.rests [_, _] hown' (fun h hh hdel => ?_) (tended_cas hg' hhead)
      rcases List.suffix_cons_iff.1 hh with rfl | hh
      · cases hdel
      · exact hfresh h hh hdel
    · exfalso
      rw [hlog] at hcalm
      have hhead := calm_head rfl hcalm
      simp only [calmAt, hown₁, hd.now, Bool.not_true, Bool.false_or, Bool.not_eq_true'] at hhead
      rw [settled_of_edges hrow hs he] at hhead
      cases hhead

/-- The pass goes through its magnets until one is handed over. -/
theorem wp_submitNext_amid (avid : Avid) (taskDir : String) (limit : Nat) (hu : Undelivered who w) :
    (Intake.submitNext avid taskDir limit).wp (World.Amid who) (fun _ op => op.intakes = true)
      (fun submitted w' => (submitted = true → Rests who w') ∧ (submitted = false → Undelivered who w'))
      (Respectful who) w := by
  induction limit generalizing w with
  | zero => exact fun _ => ⟨id, hu.handedOver⟩
  | succ limit ih =>
    unfold Intake.submitNext
    rw [wp_bind]
    refine Safe.wp (safe_ok rfl rfl) hu fun at_ w₁ hu₁ => ?_
    rw [wp_bind]
    refine wp_mono (wp_claimLoop_amid avid at_ _ hu₁) ?_ fun _ _ h => h
    rintro claimed w₂ ⟨hu₂, hclaimed⟩
    cases claimed with
    | none => exact ⟨Bool.noConfusion, fun _ => hu₂⟩
    | some attempt =>
      obtain ⟨hc, hn⟩ := hclaimed attempt rfl
      dsimp only
      rw [wp_bind]
      refine wp_mono (wp_addMagnet_amid _ _ hc hn) ?_ fun _ _ h => h
      rintro out w₃ ⟨hyes, hno⟩
      have marked : Delivered who (avid, attempt.attemptNo) w₃ →
          (Intake.markDownloading avid at_ >>= fun _ => pure true).wp (World.Amid who) (fun _ op => op.intakes = true)
            (fun submitted w' => (submitted = true → Rests who w') ∧ (submitted = false → Undelivered who w'))
            (Respectful who) w₃ := by
        intro hd
        rw [wp_bind]
        exact wp_mono (wp_markDownloading_amid hd at_) (fun _ w₄ hr => ⟨fun _ => hr, fun h => by cases h⟩) fun _ _ h => h
      cases out with
      | failed =>
        dsimp only
        rw [wp_bind]
        exact Safe.wp (safe_refused _ _ _ _) (hno rfl).undelivered fun _ w₄ hu₄ => ih hu₄
      | duplicate => exact marked (hyes (by decide))
      | success => exact marked (hyes (by decide))

theorem wp_recordAndSubmit_amid (i : Intake) (avid : Avid) (candidates : List MagnetCandidate) (taskDir : String)
    (hu : Undelivered who w) :
    (Intake.recordAndSubmit i avid candidates taskDir).wp (World.Amid who) (fun _ op => op.intakes = true)
      (fun submitted w' => (submitted = true → Rests who w') ∧ (submitted = false → Undelivered who w'))
      (Respectful who) w := by
  unfold Intake.recordAndSubmit
  rw [wp_bind]
  refine Safe.wp (safe_ok rfl rfl) hu fun at_ w₁ hu₁ => ?_
  rw [wp_bind]
  exact Safe.wp (keeps_discard (safe_addAttempts _ _ _)) hu₁ fun _ w₂ hu₂ => wp_submitNext_amid _ _ _ hu₂

theorem Undelivered.rests (hu : Undelivered who w) : Rests who w := fun _ => hu.handedOver

/-! ## The passes -/

theorem wp_enqueue_amid (i : Intake) (avid : Avid) (source dir : String) (magnet : Option String) (date : Option Date)
    (hu : Undelivered who w) :
    (Intake.enqueue i avid source dir magnet date).wp (World.Amid who) (fun _ op => op.intakes = true) (fun _ => Rests who)
      (Respectful who) w := by
  unfold Intake.enqueue
  rw [wp_bind]
  refine Safe.wp (safe_ok rfl rfl) hu fun at_ w₁ hu₁ => ?_
  rw [wp_bind]
  refine Safe.wp (safe_discover _ _ _) hu₁ fun found w₂ hu₂ => wp_ite (fun _ => ?_) fun _ => hu₂.rests
  rw [wp_bind]
  refine Safe.wp (safe_resolveOrNone _ _ _) hu₂ fun candidates w₃ hu₃ => wp_ite (fun _ => ?_) fun _ => ?_
  · rw [wp_bind]
    exact Safe.wp (safe_parkUnresolved _ _) hu₃ fun _ w₄ hu₄ => hu₄.rests
  · rw [wp_bind]
    refine wp_mono (wp_recordAndSubmit_amid i avid candidates dir hu₃) (fun submitted w₄ ⟨hyes, hno⟩ => ?_) fun _ _ h => h
    cases submitted with
    | true => exact hyes rfl
    | false => exact (hno rfl).rests

theorem wp_retry_amid (i : Intake) {record : AcquisitionRecord} (hr : record.state ∈ AcquisitionState.due)
    (fallback : Option String) (hu : Undelivered who w) :
    (Intake.retry i record fallback).wp (World.Amid who) (fun _ op => op.intakes = true) (fun _ => Rests who)
      (Respectful who) w := by
  unfold Intake.retry
  have parked : ∀ (note : String) (outcome : IntakeOutcome) w', Undelivered who w' →
      (Intake.repark i record note >>= fun _ => pure outcome).wp (World.Amid who) (fun _ op => op.intakes = true)
        (fun _ => Rests who) (Respectful who) w' := by
    intro note outcome w' hu'
    rw [wp_bind]
    exact Safe.wp (safe_repark i hr note) hu' fun _ w'' hu'' => hu''.rests
  split
  · exact parked _ _ w hu
  · rw [wp_bind]
    refine Safe.wp (safe_resolveOrNone _ _ _) hu fun candidates w₁ hu₁ => wp_ite (fun _ => parked _ _ w₁ hu₁) fun _ => ?_
    rw [wp_bind]
    refine wp_mono (wp_recordAndSubmit_amid i _ candidates _ hu₁) (fun submitted w₂ ⟨hyes, hno⟩ => ?_) fun _ _ h => h
    cases submitted with
    | true => exact hyes rfl
    | false => exact parked _ _ w₂ (hno rfl)

/-- A sighting puts its AVID on the list, or nothing. -/
theorem wp_sight_amid (p : Rss) (run : RssRun) (category : RssCategory) (at_ : Time) (sighted : Avid × FeedItem)
    (hu : Undelivered who w) :
    (p.sight category at_ (run, []) sighted).wp (World.Amid who) (fun _ op => op.intakes = true)
      (fun acc w' => acc.2.length ≤ 1 ∧ Undelivered who w') (Respectful who) w := by
  obtain ⟨avid, item⟩ := sighted
  unfold Rss.sight
  dsimp only
  rw [wp_bind]
  refine Safe.wp (safe_filingFor p _ _ _) hu fun filed w₁ hu₁ => ?_
  obtain ⟨run, filing, cast⟩ := filed
  dsimp only
  rw [wp_bind]
  refine Safe.wp (safe_discover _ _ _) hu₁ fun found w₂ hu₂ => wp_ite (fun _ => ?_) fun _ => ⟨Nat.zero_le _, hu₂⟩
  rw [wp_bind]
  exact Safe.wp (safe_filingDir _ _) hu₂ fun dir w₃ hu₃ => ⟨le_refl 1, hu₃⟩

theorem wp_skipLibraryHeld_amid (wanted : List Wanted) (hu : Undelivered who w) :
    (Rss.skipLibraryHeld wanted).wp (World.Amid who) (fun _ op => op.intakes = true)
      (fun kept w' => kept.length ≤ wanted.length ∧ Undelivered who w') (Respectful who) w := by
  unfold Rss.skipLibraryHeld
  refine wp_foldEach (fun left kept w => kept.length + left.length ≤ wanted.length ∧ Undelivered who w) ?_ ?_ ⟨by simp, hu⟩
  · rintro x xs kept w ⟨hlen, hu⟩
    rw [List.length_cons] at hlen
    rw [wp_bind]
    refine Safe.wp (safe_skipHeld x) hu fun skipped w' hu' => wp_ite (fun _ => ⟨by omega, hu'⟩) fun _ => ⟨?_, hu'⟩
    rw [List.length_append, List.length_singleton]
    omega
  · rintro kept w ⟨hlen, hu⟩
    exact ⟨by simpa using hlen, hu⟩

theorem wp_resolveAll_amid (p : Rss) (wanted : List Wanted) (hu : Undelivered who w) :
    (p.resolveAll wanted).wp (World.Amid who) (fun _ op => op.intakes = true)
      (fun resolved w' => resolved.length ≤ wanted.length ∧ Undelivered who w') (Respectful who) w := by
  unfold Rss.resolveAll
  rw [wp_bind, wp_call]
  refine ⟨rfl, fun order w₁ ht => ?_, fun e w₁ ht _ => ⟨amid_legal ht, (undelivered_step hu rfl ht).handedOver⟩⟩
  have hu₁ := undelivered_step hu rfl ht
  obtain ⟨w₀, t, -, -, -, -, ⟨⟨order', heq, hperm⟩, -⟩, -⟩ := amid_own ht
  obtain rfl := Except.ok.inj heq
  have hlen : (order.filterMap fun avid => wanted.find? (·.avid = avid)).length ≤ wanted.length := by
    refine (List.length_filterMap_le _ _).trans ?_
    rw [hperm.length_eq, List.length_map]
  dsimp only
  rw [wp_bind]
  refine wp_mono (Q := fun resolved w' => resolved.length ≤ wanted.length ∧ Undelivered who w') ?_
    (fun resolved w₂ ⟨hres, hu₂⟩ => ?_) fun _ _ h => h
  · refine wp_foldEach (fun left resolved w => resolved.length + left.length ≤ wanted.length ∧ Undelivered who w) ?_ ?_
      ⟨by simpa using hlen, hu₁⟩
    · rintro x xs resolved w ⟨hlen, hu⟩
      rw [List.length_cons] at hlen
      rw [wp_bind]
      refine Safe.wp (safe_resolveOrNone _ _ _) hu fun candidates w' hu' => ⟨?_, hu'⟩
      split
      · omega
      · rw [List.length_append, List.length_singleton]
        omega
    · rintro resolved w ⟨hlen, hu⟩
      exact ⟨by simpa using hlen, hu⟩
  · rw [wp_bind]
    refine Safe.wp (keeps_forEach fun x _ => safe_parkUnresolved _ _) hu₂ fun _ w₃ hu₃ => ⟨hres, hu₃⟩

theorem wp_submitAll_amid (p : Rss) {resolved : List (Wanted × List MagnetCandidate)} (hlen : resolved.length ≤ 1)
    (hu : Undelivered who w) :
    (p.submitAll resolved).wp (World.Amid who) (fun _ op => op.intakes = true) (fun _ => Rests who) (Respectful who) w := by
  unfold Rss.submitAll
  match resolved, hlen with
  | [], _ => exact hu.rests
  | [(wanted, candidates)], _ =>
    rw [wp_forEach_cons, wp_bind]
    refine Safe.wp (safe_ok rfl rfl) hu fun _ w₁ hu₁ => ?_
    rw [wp_discard]
    refine wp_mono (wp_recordAndSubmit_amid p.intake _ candidates _ hu₁) (fun submitted w₂ ⟨hyes, hno⟩ => ?_) fun _ _ h => h
    cases submitted with
    | true => exact hyes rfl
    | false => exact (hno rfl).rests

theorem Pass.wp_amid (i : Intake) (pass : Pass) (hdue : pass.due) (hu : Undelivered who w) :
    (pass.program i).wp (World.Amid who) (fun _ op => op.intakes = true) (fun _ => Rests who) (Respectful who) w := by
  cases pass with
  | enqueue avid source dir magnet date => exact (wp_discard _).2 (wp_enqueue_amid i avid source dir magnet date hu)
  | retry record fallback => exact (wp_discard _).2 (wp_retry_amid i hdue fallback hu)
  | feed p run category at_ sighted =>
    unfold Pass.program
    rw [wp_bind]
    refine wp_mono (wp_sight_amid p run category at_ sighted hu) (fun acc w₁ ⟨hone, hu₁⟩ => ?_) fun _ _ h => h
    dsimp only
    rw [wp_bind]
    refine wp_mono (wp_skipLibraryHeld_amid acc.2 hu₁) (fun kept w₂ ⟨hkept, hu₂⟩ => ?_) fun _ _ h => h
    rw [wp_bind]
    refine wp_mono (wp_resolveAll_amid p kept hu₂) (fun resolved w₃ ⟨hres, hu₃⟩ => ?_) fun _ _ h => h
    exact wp_submitAll_amid p (hres.trans (hkept.trans hone)) hu₃

end Submission

/-! ## Settled AVIDs -/

section Settled
variable {ι : Type} [DecidableEq ι] {who : ι} {w w' : World ι}

/-- A claim takes a pending attempt whose hash is free. -/
theorem live_of_intakes {s : Sql} {l l' : Ledger} {a : s.Res} {avid : Avid} {n : Nat} {r' : MagnetAttemptRecord}
    (hg : s.Gives l a l') (hs : (Op.sql s).intakes = true) (hr' : l'.att (avid, n) = some r') (hl : r'.Live) :
    (∃ r, l.att (avid, n) = some r ∧ r.Live) ∨ ∃ now, s = .claimNextPending avid now ∧ l.nextPending avid ≠ none := by
  cases hr : l.att (avid, n) with
  | none =>
    have hp := Sql.att_new hg hr hr'
    rw [MagnetAttemptRecord.Live, hp] at hl
    exact absurd hl (by decide)
  | some r =>
    obtain ⟨r'', hr'', heff⟩ := Sql.att_effect hg hr
    cases hr'.symm.trans hr''
    cases heff with
    | same => exact .inl ⟨_, rfl, hl⟩
    | claimed now hs' hp =>
      rcases hs' with rfl | rfl
      · refine .inr ⟨now, rfl, fun hnone => ?_⟩
        change l.claimNextPending avid now = _ at hg
        unfold Ledger.claimNextPending at hg
        rw [hnone] at hg
        cases hg
        have hsame : r = r.submittedBy now := Option.some.inj (hr.symm.trans hr')
        rw [hsame] at hp
        cases hp
      · cases hs
    | moved he hst =>
      subst he
      simp only [Op.intakes, Bool.and_eq_true, decide_eq_true_eq] at hs
      obtain ⟨-, rfl⟩ := hs
      simp [MagnetAttemptRecord.Live, AttemptState.live] at hl
    | progressed he _ =>
      subst he
      cases hs

/-- What the log says of each action of the pass. -/
def Recorded (who : ι) (w : World ι) : Prop :=
  ∀ e after, (e, after) ∈ outcomes w.ledger w.log → e.who = who →
    e.event.op.intakes = true ∧ Answers e.time e.before e.event.op e.event.ans after

theorem recorded_new (h : ownEvents who w.log = []) : Recorded who w := by
  intro e after he hwho
  have mem : ∀ {l : Ledger} {log : List (Entry ι)}, (e, after) ∈ outcomes l log → e ∈ log := by
    intro l log he
    induction log generalizing l with
    | nil => cases he
    | cons e' log ih =>
      rcases List.mem_cons.1 he with heq | he
      · cases heq
        exact List.mem_cons_self
      · exact List.mem_cons_of_mem _ (ih he)
  have hev : e.event ∈ ownEvents who w.log := List.mem_filterMap.2 ⟨e, mem he, if_pos hwho⟩
  rw [h] at hev
  cases hev

omit [DecidableEq ι] in
theorem recorded_others {w₁ : World ι} (ho : World.Others who w w₁) (hr : Recorded who w) : Recorded who w₁ := by
  induction ho with
  | refl => exact hr
  | tail _ hstep ih =>
    obtain ⟨j, op, r, hj, t, l', -, -, ha, rfl⟩ := hstep
    intro e after he hwho
    rcases List.mem_cons.1 he with heq | he
    · cases heq
      exact absurd hwho hj
    · exact ih e after he hwho

omit [DecidableEq ι] in
theorem recorded_amid {op : Op} {r : Except Exn op.Res} (hr : Recorded who w) (hop : op.intakes = true)
    (ht : World.Amid who w op r w') : Recorded who w' := by
  obtain ⟨w₁, ho, t, l', -, -, ha, rfl⟩ := ht
  intro e after he hwho
  rcases List.mem_cons.1 he with heq | he
  · cases heq
    exact ⟨hop, ha⟩
  · exact recorded_others ho hr e after he hwho

theorem calm_claims {l : Ledger} {log : List (Entry ι)} {e : Entry ι} {after : Ledger} (hc : Calm who log = true)
    (he : (e, after) ∈ outcomes l log) (hwho : e.who = who) : ∃ h, calmAt h e.before e.event.op = true := by
  induction log generalizing l with
  | nil => cases he
  | cons e' log ih =>
    rcases List.mem_cons.1 he with heq | he
    · cases heq
      exact ⟨_, calm_head hwho hc⟩
    · exact ih ((Bool.and_eq_true _ _).mp hc).2 he

theorem leavesSettled_of_calm (hc : Calm who w.log = true) (hr : Recorded who w) : LeavesSettled who w := by
  intro e after he hwho avid hset n r' hr' hl
  obtain ⟨hop, ha⟩ := hr e after he hwho
  rcases answers_ledger ha with heq | ⟨s, a, hs, hg⟩
  · rw [heq] at hr'
    exact ⟨r', hr', hl⟩
  rw [hs] at hop
  rcases live_of_intakes hg hop hr' hl with hlive | ⟨now, rfl, hfree⟩
  · exact hlive
  · obtain ⟨h, hcalm⟩ := calm_claims hc he hwho
    rw [hs] at hcalm
    simp only [calmAt, hset, Bool.not_true, Bool.false_or, decide_eq_true_eq] at hcalm
    exact absurd hcalm hfree

end Settled

/-- Whatever the others do between its actions: where the row is not settled when the pass claims a magnet that is
free, nor when it reads the row after a hand-over, and nobody moves it between that read and the compare-and-set
except to where the attempt is looked after, the pass makes no illegal move, leaves what it handed over looked after,
and gives a settled AVID no live attempt. -/
theorem submissions_respected {ι : Type} [DecidableEq ι] (i : Intake) (pass : Pass) (hdue : pass.due) (who : ι)
    (w w' : World ι) (out : Except Exn Unit) (hnew : ownEvents who w.log = [])
    (hrun : (pass.program i).Runs (World.Amid who) w out w') (hcalm : Calm who w'.log = true) :
    (∀ e, out = .error e → ¬ e.Illegal) ∧ HandedOver who w' ∧ LeavesSettled who w' := by
  have hu : Undelivered who w := by
    intro h hh
    rw [hnew] at hh
    rw [List.suffix_nil.1 hh]
    rfl
  obtain ⟨hok, herr⟩ := wp_runs (wp_inv (I := Recorded who) (fun _ _ _ _ hr hop ht => recorded_amid hr hop ht)
    (pass.wp_amid i hdue hu) (recorded_new hnew)) hrun
  cases out with
  | ok u =>
    obtain ⟨hrests, hrec⟩ := hok u rfl
    exact ⟨fun e he => (nomatch he), hrests hcalm, leavesSettled_of_calm hcalm hrec⟩
  | error e =>
    obtain ⟨hresp, hrec⟩ := herr e rfl
    obtain ⟨hlegal, hhand⟩ := hresp hcalm
    refine ⟨fun e' he => ?_, hhand, leavesSettled_of_calm hcalm hrec⟩
    cases he
    exact hlegal

/-! ## Ignored while its magnets were looked for -/

namespace SubmissionExample

def outside : World.Outside
  | .sukebei _ => .ok (some "magnet:AA")
  | .javbus _ => .ok []
  | .addOfflineFiles .. => .ok true
  | _ => .error ⟨.failure "unreachable", trivial⟩

def pass : Pass := .enqueue "ABC-123" "manual" "/inbox" none none

/-- The operator ignores the AVID, or does nothing. -/
def meddled (ignores : Bool) (w : World Bool) : World Bool :=
  if ignores then (World.play false (1, outside) w (discard (Dashboard.ignoreAcquisition "ABC-123"))).2 else w

/-- An action of the pass, before which the operator may act. -/
def turn (ignores : Op → Bool) (w : World Bool) (op : Op) : Except Exn op.Res × World Bool :=
  World.turn true (1, outside) (meddled (ignores op) w) op

theorem others_of_runs {α : Type} {w w' : World Bool} {p : M α} {out : Except Exn α}
    (h : p.Runs (World.Step (fun _ _ => True) false) w out w') : World.Others true w w' := by
  induction h with
  | ret a w => exact .refl
  | raise e w => exact .refl
  | act ht _ ih => exact Relation.ReflTransGen.head ⟨false, _, _, by decide, ht⟩ ih

theorem turn_amid (ignores : Op → Bool) (w : World Bool) (op : Op) :
    World.Amid true w op (turn ignores w op).1 (turn ignores w op).2 := by
  refine ⟨meddled (ignores op) w, ?_, World.turn_step (turn_connected _ _ _ _)⟩
  unfold meddled
  split
  · exact others_of_runs (World.play_runs false _ w _)
  · exact .refl

/-- The whole pass from an empty ledger. -/
def passed (ignores : Op → Bool) : Except Exn Unit × World Bool :=
  (pass.program plainIntake).exec (turn ignores) ⟨.empty, 0, []⟩

theorem passed_runs (ignores : Op → Bool) :
    (pass.program plainIntake).Runs (World.Amid true) ⟨.empty, 0, []⟩ (passed ignores).1 (passed ignores).2 :=
  exec_runs (turn_amid ignores) _ _

/-- Just before the candidates are recorded. -/
def whileResolving : Op → Bool
  | .sql (.addAttempts ..) => true
  | _ => false

/-- An action of the pass gave the settled AVID a live first attempt. -/
def revives (avid : Avid) (w : World Bool) : Bool :=
  (outcomes w.ledger w.log).any fun e =>
    e.1.who && settled e.1.before avid && (e.2.att (avid, 1)).any (fun r => decide r.Live) &&
      !(e.1.before.att (avid, 1)).any fun r => decide r.Live

theorem not_leavesSettled {avid : Avid} {w : World Bool} (h : revives avid w = true) : ¬ LeavesSettled true w := by
  intro hl
  obtain ⟨⟨e, after⟩, he, h⟩ := List.any_eq_true.1 h
  simp only [Bool.and_eq_true, Bool.not_eq_true', Option.any_eq_true, decide_eq_true_eq] at h
  obtain ⟨⟨⟨hwho, hset⟩, r', hr', hl'⟩, hdead⟩ := h
  obtain ⟨r, hr, hlive⟩ := hl e after he hwho avid hset 1 r' hr' hl'
  rw [hr, Option.any_some, decide_eq_false_iff_not] at hdead
  exact hdead hlive

end SubmissionExample

open SubmissionExample in
theorem submissions_respected_alone :
    delivered (ownEvents true (passed fun _ => false).2.log).tail.tail = true ∧ HandedOver true (passed fun _ => false).2 ∧
      LeavesSettled true (passed fun _ => false).2 := by
  refine ⟨by decide, ?_⟩
  exact (submissions_respected plainIntake pass trivial true _ _ _ rfl (passed_runs _) (by decide)).2

open SubmissionExample in
/-- Ignored before its candidates are recorded: the magnet is handed over all the same, and the pass breaks off. -/
theorem submitted_ignored : ∃ w' e, (pass.program plainIntake).Runs (World.Amid true) ⟨.empty, 0, []⟩ (.error e) w' ∧
    e.Illegal ∧ ¬ HandedOver true w' ∧ ¬ LeavesSettled true w' := by
  have hraised : raised (passed whileResolving).1 = some (.illegalAcquisition .ignored .downloading) := by decide
  have hrun := passed_runs whileResolving
  cases ho : (passed whileResolving).1 with
  | ok u =>
    rw [ho] at hraised
    cases hraised
  | error e =>
    rw [ho] at hraised hrun
    cases hraised
    refine ⟨_, _, hrun, trivial, fun hh => ?_, not_leavesSettled (by decide : revives "ABC-123" _ = true)⟩
    have htended := hh (ownEvents true (passed whileResolving).2.log).tail (List.tail_suffix _) (by decide)
      ("ABC-123", 1) (by decide)
    have hnot : tended (passed whileResolving).2.ledger ("ABC-123", 1) = false := by decide
    rw [htended] at hnot
    cases hnot

end EmbyxManager
