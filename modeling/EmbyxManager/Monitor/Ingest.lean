import EmbyxManager.Monitor.Alone
import EmbyxManager.Monitor.Footprint
/-!
# What a poll of a feed makes of one AVID

A poll takes its AVIDs through discovery, the library check, the resolvers and
CloudDrive, one stage after another. Seen from one AVID, what a stage does for
the others is nothing: its row stays, and so does what the outside has told
about it. `Stands` is that pair, and `Ends` lists what can become of it.
-/

namespace EmbyxManager
open Atom Prog AcquisitionRepository

/-! ## What the outside tells about an AVID -/

/-- The AVID whose pending magnet was claimed last. -/
def claimant : List Event → Option Avid
  | [] => none
  | ⟨.sql (.claimNextPending avid _), _⟩ :: _ => some avid
  | _ :: h => claimant h

/-- CloudDrive has the magnet: accepted, or a task of its already. -/
def took : Except Exn Bool → Bool
  | .ok success => success
  | .error (.rpcError details) => duplicateTask details
  | .error _ => false

/-- What a run was told about one AVID. -/
structure Course where
  /-- Everything the library showed of it. -/
  held : List String := []
  /-- None until Sukebei answered. -/
  sukebei : Option (Option String) := none
  javbus : List JavBusMagnet := []
  /-- CloudDrive took the magnet it was given last. -/
  taken : Bool := false

/-- The magnets worth trying that the resolvers and the feed item offered. -/
def Course.offered (c : Course) (rd : Readers) (itemMagnet : Option String) : List MagnetCandidate :=
  match c.sukebei with
  | none => []
  | some sukebei => Intake.ranked rd sukebei itemMagnet c.javbus

/-- One more event, after a claim of `mine`. -/
def Course.after (c : Course) (avid : Avid) (mine : Option Avid) : Event → Course
  | ⟨.ask (.libraryHoldings a _), .ok paths⟩ => if a = avid then { c with held := paths ++ c.held } else c
  | ⟨.ask (.sukebei a), r⟩ => if a = avid then { c with sukebei := r.toOption } else c
  | ⟨.ask (.javbus a), r⟩ => if a = avid then { c with javbus := r.toOption.getD [] } else c
  | ⟨.ask (.addOfflineFiles ..), r⟩ => if mine = some avid then { c with taken := took r } else c
  | _ => c

def course (avid : Avid) : List Event → Course
  | [] => {}
  | e :: h => (course avid h).after avid (claimant h) e

/-! ## What leaves an AVID alone -/

/-- Neither about the AVID, nor about a magnet that may be its own. -/
def Elsewhere (avid : Avid) : Op → Prop
  | .sql s => s.row ≠ some avid
  | .ask (.libraryHoldings a _) | .ask (.sukebei a) | .ask (.javbus a) => a ≠ avid
  | .ask (.addOfflineFiles ..) => False
  | _ => True

/-- Where an AVID stands: its row, and what was told about it. -/
structure Stands (avid : Avid) (row : Option AcquisitionRecord) (c : Course) (w : World Unit) : Prop where
  row : w.ledger.acq avid = row
  course : course avid (w.history ()) = c

theorem course_elsewhere {avid : Avid} {op : Op} (hop : Elsewhere avid op) (r : Except Exn op.Res) (h : List Event) :
    course avid (⟨op, r⟩ :: h) = course avid h := by
  cases op with
  | ask q =>
    cases q with
    | libraryHoldings a dir =>
      cases r with
      | ok paths => exact if_neg hop
      | error e => rfl
    | sukebei a | javbus a => exact if_neg hop
    | addOfflineFiles => exact hop.elim
    | _ => rfl
  | _ => rfl

section Stands
variable {A : Policy} {avid : Avid} {row : Option AcquisitionRecord} {c : Course} {w w' : World Unit}

theorem history_step {op : Op} {r : Except Exn op.Res} (h : World.Step A () w op r w') :
    w'.history () = ⟨op, r⟩ :: w.history () := by
  obtain ⟨t, l', -, -, -, rfl⟩ := h
  rw [World.history_cons, if_pos rfl]
  rfl

theorem ledger_step {op : Op} {r : Except Exn op.Res} (h : World.Step A () w op r w') :
    w'.ledger = w.ledger ∨ ∃ s a, op = .sql s ∧ s.Gives w.ledger a w'.ledger := by
  obtain ⟨t, l', -, -, ha, rfl⟩ := h
  exact answers_ledger ha

theorem stands_elsewhere {op : Op} {r : Except Exn op.Res} (hop : Elsewhere avid op) (hs : Stands avid row c w)
    (h : World.Step A () w op r w') : Stands avid row c w' where
  row := by
    rcases ledger_step h with hl | ⟨s, a, rfl, hg⟩
    · rw [hl]; exact hs.row
    · exact (Sql.acq_frame hg hop).trans hs.row
  course := by
    rw [history_step h, course_elsewhere hop]
    exact hs.course

variable {α β : Type}

/-- A program that is about something else leaves the AVID where it stands. -/
theorem wp_elsewhere {p : M α} (hp : p.Uses (Elsewhere avid)) (hs : Stands avid row c w) :
    p.wp (World.Step A ()) (fun _ _ => True) (fun _ => Stands avid row c) (fun _ _ => True) w := by
  refine wp_mono (keeps_of_uses hp (fun _ _ _ _ => trivial) ?_ w hs) (fun _ _ h => h) fun _ _ _ => trivial
  exact fun w op r w' hop hs ht => stands_elsewhere hop hs ht

/-- A question, with what its answer adds to the course. -/
theorem wp_ask {q : Query} (hs : Stands avid row c w) {Q : q.Res → World Unit → Prop} {X : Exn → World Unit → Prop}
    (hok : ∀ a w', Stands avid row (c.after avid (claimant (w.history ())) ⟨.ask q, .ok a⟩) w' →
      claimant (w'.history ()) = claimant (w.history ()) → Q a w')
    (herr : ∀ e w', Stands avid row (c.after avid (claimant (w.history ())) ⟨.ask q, .error e⟩) w' →
      claimant (w'.history ()) = claimant (w.history ()) → X e w') :
    (ask q).wp (World.Step A ()) (fun _ _ => True) Q X w := by
  have told : ∀ {r w'}, World.Step A () w (.ask q) r w' →
      Stands avid row (c.after avid (claimant (w.history ())) ⟨.ask q, r⟩) w' ∧
        claimant (w'.history ()) = claimant (w.history ()) := by
    intro r w' ht
    have hl : w'.ledger = w.ledger := by
      rcases ledger_step ht with hl | ⟨s, a, hs, -⟩
      · exact hl
      · cases hs
    refine ⟨⟨by rw [hl, hs.row], ?_⟩, ?_⟩
    · rw [history_step ht, ← hs.course]
      rfl
    · rw [history_step ht]
      rfl
  rw [wp_call]
  exact ⟨trivial, fun a w' ht => hok a w' (told ht).1 (told ht).2, fun e w' ht => herr e w' (told ht).1 (told ht).2⟩

/-- What another AVID's program does, where the row it reads is its own. -/
theorem wp_get_elsewhere {a : Avid} {f : Option AcquisitionRecord → M β} {Q : β → World Unit → Prop}
    (hs : Stands avid row c w)
    (hf : ∀ r w', (∀ record, r = some record → record.avid = a) → Stands avid row c w' →
      (f r).wp (World.Step A ()) (fun _ _ => True) Q (fun _ _ => True) w') :
    (get a >>= f).wp (World.Step A ()) (fun _ _ => True) Q (fun _ _ => True) w := by
  rw [wp_bind, wp_call]
  refine ⟨trivial, fun r w' ht => ?_, fun _ _ _ => trivial⟩
  refine hf r w' (fun record hr => ?_) (stands_elsewhere (by simp [Elsewhere, Sql.row]) hs ht)
  have hg := (fromLedger_step A ()).gives ht
  simp only [Sql.Gives, Sql.run, Except.ok.injEq, Prod.mk.injEq] at hg
  exact Ledger.acq_avid (hg.1.trans hr)

end Stands

/-! ## What the stages use -/

/-- A row is read, or the catalog. -/
def Reads : Op → Prop
  | .sql (.getAcquisition _) | .ask (.cast _) => True
  | _ => False

/-- The row of one AVID is kept, with the clock and the catalog looked at. -/
def Books (a : Avid) : Op → Prop
  | .sql s => s.writesAttempts = false ∧ (s.row = none ∨ s.row = some a)
  | .ask (.cast _) | .ask (.releaseDate _) | .now | .checkCancelled _ => True
  | _ => False

/-- Besides, the library and the resolvers are asked about it. -/
def Concerns (a : Avid) : Op → Prop
  | .ask (.libraryHoldings b _) | .ask (.sukebei b) | .ask (.javbus b) => b = a
  | op => Books a op

theorem Books.concerns {a : Avid} {op : Op} (h : Books a op) : Concerns a op := by
  cases op with
  | ask q =>
    cases q with
    | libraryHoldings | sukebei | javbus => exact h.elim
    | _ => exact h
  | _ => exact h

theorem Concerns.elsewhere {a avid : Avid} {op : Op} (h : Concerns a op) (ha : a ≠ avid) : Elsewhere avid op := by
  cases op with
  | sql s =>
    rcases h.2 with hs | hs
    · exact fun he => by rw [hs] at he; cases he
    · exact fun he => ha (Option.some.inj (hs.symm.trans he))
  | ask q =>
    cases q with
    | libraryHoldings b | sukebei b | javbus b => exact fun he => ha (h.symm.trans he)
    | addOfflineFiles => exact h.elim
    | _ => trivial
  | _ => trivial

theorem Reads.elsewhere {op : Op} (h : Reads op) (avid : Avid) : Elsewhere avid op := by
  cases op with
  | sql s =>
    cases s with
    | getAcquisition b => exact fun he => by cases he
    | _ => exact h.elim
  | ask q =>
    cases q with
    | cast b => trivial
    | _ => exact h.elim
  | _ => exact h.elim

theorem course_books {a avid : Avid} {op : Op} (hop : Books a op) (r : Except Exn op.Res) (h : List Event) :
    course avid (⟨op, r⟩ :: h) = course avid h := by
  cases op with
  | ask q =>
    cases q with
    | cast | releaseDate => rfl
    | _ => exact hop.elim
  | _ => rfl

section Uses
variable {a : Avid}

theorem books_discover (at_ : Time) (s : SightingArgs) : Uses (Books a) (discover a at_ s) := by
  unfold discover rediscover
  refine uses_bind (uses_ok ⟨rfl, .inr rfl⟩) fun inserted => ?_
  split
  · trivial
  · refine uses_bind (uses_ok ⟨rfl, .inl rfl⟩) fun existing => ?_
    split
    · trivial
    · split
      · refine uses_bind (uses_bind (uses_forSome fun date => uses_runIf ?_) fun _ => ?_) fun _ => trivial
        · exact uses_discard (uses_ok ⟨rfl, .inr rfl⟩)
        · refine uses_bind (uses_forSome fun dir => uses_runIf (uses_ok ⟨rfl, .inr rfl⟩)) fun _ => ?_
          exact uses_forSome fun next => uses_ok ⟨rfl, .inr rfl⟩
      · trivial

theorem asks_resolveOrNone {C : Op → Prop} (hs : C (.ask (.sukebei a))) (hj : C (.ask (.javbus a))) (i : Intake)
    (magnet : Option String) : Uses C (Intake.resolveOrNone i a magnet) := by
  unfold Intake.resolveOrNone Intake.resolve
  refine uses_bind (uses_attempt ?_) fun r => ?_
  · refine uses_bind (uses_ok hs) fun sukebei => uses_bind (uses_attempt (uses_ok hj)) fun r => ?_
    cases r <;> trivial
  · cases r <;> trivial

theorem books_repark (i : Intake) (record : AcquisitionRecord) (note : String) :
    Uses (Books record.avid) (Intake.repark i record note) := by
  unfold Intake.repark ensureReleaseDate
  refine uses_bind ?_ fun date => uses_bind (uses_ok trivial) fun at_ => uses_discard (uses_transition ⟨rfl, .inr rfl⟩)
  split
  · trivial
  · refine uses_bind (uses_ok trivial) fun found => ?_
    split
    · exact uses_bind (uses_discard (uses_ok ⟨rfl, .inr rfl⟩)) fun _ => trivial
    · trivial

theorem concerns_skipHeld (wanted : Wanted) : Uses (Concerns wanted.avid) (Rss.skipHeld wanted) := by
  unfold Rss.skipHeld
  refine uses_bind (uses_ok trivial) fun _ => uses_bind (uses_attempt (uses_ok rfl)) fun r => ?_
  cases r with
  | error e => trivial
  | ok held =>
    cases held with
    | nil => trivial
    | cons path paths =>
      refine uses_bind (uses_ok ⟨rfl, .inl rfl⟩) fun record => ?_
      split
      · trivial
      · split
        · refine uses_bind (uses_ok trivial) fun at_ => ?_
          exact uses_bind (uses_discard (uses_transition ⟨rfl, .inr rfl⟩)) fun _ => trivial
        · trivial

theorem reads_filingFor (p : Rss) (run : RssRun) (own : Filing) : Uses Reads (p.filingFor run a own) := by
  unfold Rss.filingFor
  split
  · trivial
  · refine uses_bind (uses_ok trivial) fun record => ?_
    split
    · trivial
    · refine uses_bind ?_ fun known => ?_
      · unfold Rss.castOf
        split
        · trivial
        · exact uses_bind (uses_attempt (uses_ok trivial)) fun _ => trivial
      · rcases known with ⟨run, _ | cast⟩ <;> trivial

theorem reads_filingDir (filing : Filing) : Uses Reads (Rss.filingDir a filing) := by
  unfold Rss.filingDir
  split
  · trivial
  · refine uses_bind (uses_ok trivial) fun record => ?_
    split <;> trivial

end Uses

/-! ## What is done about other AVIDs -/

section Others
variable {A : Policy} {avid a : Avid} {row : Option AcquisitionRecord} {c : Course} {w : World Unit}

theorem row_ne (ha : a ≠ avid) : some a ≠ some avid := fun h => ha (Option.some.inj h)

theorem elsewhere_discover (ha : a ≠ avid) (at_ : Time) (s : SightingArgs) : Uses (Elsewhere avid) (discover a at_ s) :=
  uses_mono (books_discover at_ s) fun _ h => h.concerns.elsewhere ha

theorem elsewhere_resolveOrNone (ha : a ≠ avid) (i : Intake) (magnet : Option String) :
    Uses (Elsewhere avid) (Intake.resolveOrNone i a magnet) :=
  asks_resolveOrNone ha ha i magnet

theorem elsewhere_repark {record : AcquisitionRecord} (ha : record.avid ≠ avid) (i : Intake) (note : String) :
    Uses (Elsewhere avid) (Intake.repark i record note) :=
  uses_mono (books_repark i record note) fun _ h => h.concerns.elsewhere ha

theorem wp_park_other (ha : a ≠ avid) (i : Intake) (hs : Stands avid row c w) :
    (Intake.parkUnresolved i a).wp (World.Step A ()) (fun _ _ => True) (fun _ => Stands avid row c) (fun _ _ => True) w := by
  unfold Intake.parkUnresolved
  refine wp_get_elsewhere hs fun r w' hr hs => ?_
  cases r with
  | none => exact hs
  | some record =>
    dsimp only
    split
    · exact wp_elsewhere (elsewhere_repark (hr record rfl ▸ ha) i _) hs
    · exact hs

theorem elsewhere_skipHeld {wanted : Wanted} (ha : wanted.avid ≠ avid) : Uses (Elsewhere avid) (Rss.skipHeld wanted) :=
  uses_mono (concerns_skipHeld wanted) fun _ h => h.elsewhere ha

theorem elsewhere_filingFor (p : Rss) (run : RssRun) (own : Filing) : Uses (Elsewhere avid) (p.filingFor run a own) :=
  uses_mono (reads_filingFor p run own) fun _ h => h.elsewhere avid

theorem elsewhere_filingDir (filing : Filing) : Uses (Elsewhere avid) (Rss.filingDir a filing) :=
  uses_mono (reads_filingDir filing) fun _ h => h.elsewhere avid

end Others

/-! ## What is done about the AVID -/

section Own
variable {A : Policy} {avid a : Avid} {row : Option AcquisitionRecord} {r : AcquisitionRecord} {c : Course} {w : World Unit}

theorem wp_get_own (hs : Stands avid row c w) {Q : Option AcquisitionRecord → World Unit → Prop}
    (hQ : ∀ w', Stands avid row c w' → Q row w') :
    (get avid).wp (World.Step A ()) (fun _ _ => True) Q (fun _ _ => True) w := by
  refine wp_mono (wp_and (wp_elsewhere (A := A) (uses_ok (by simp [Elsewhere, Sql.row])) hs)
    ((fromLedger_step A ()).wp_get (Q := fun o _ => o = w.ledger.acq avid) fun _ _ => rfl)) ?_ fun _ _ _ => trivial
  rintro o w' ⟨hs', rfl⟩
  rw [hs.row]
  exact hQ w' hs'

/-- A legal transition of the row as it stands is made. -/
theorem wp_transition_own (hs : Stands avid (some r) c w) {target : AcquisitionState} (he : target ∈ r.state.edges)
    {at_ : Time} {note : Option String} {next : Option Time} {paths : Option (List String)}
    {Q : Unit → World Unit → Prop}
    (hQ : ∀ r' w', Stands avid (some r') c w' → r'.state = target → r'.nextActionAt = next → Q () w') :
    (discard (transition avid r.state target at_ note next paths)).wp (World.Step A ()) (fun _ _ => True) Q
      (fun _ _ => True) w := by
  unfold transition
  rw [if_pos he, wp_discard, wp_call]
  refine ⟨trivial, fun hit w' ht => ?_, fun _ _ _ => trivial⟩
  have hg := (fromLedger_step A ()).gives ht
  simp only [Sql.Gives, Sql.run, Except.ok.injEq] at hg
  have hrow : w'.ledger.acq avid = some { r with
      state := target, note := note, nextActionAt := next, updatedAt := at_
      archivedPaths := paths.getD r.archivedPaths
      replacePaths := if target = .archived then [] else r.replacePaths
      replaceAfterAttempt := if target = .archived then none else r.replaceAfterAttempt } := by
    rw [← show _ = w'.ledger from congrArg Prod.snd hg, Ledger.acq_casAcquisition, hs.row]
    simp
  have hcourse : course avid (w'.history ()) = c := by
    rw [history_step ht, ← hs.course]
    rfl
  exact hQ _ w' ⟨hrow, hcourse⟩ rfl rfl

/-! ### Discovery -/

/-- The row is there to be worked on, and carries the timer it had. -/
def Waiting (row₀ : Option AcquisitionRecord) (r : AcquisitionRecord) : Prop :=
  r.state ∈ AcquisitionState.recheckable ∧ r.nextActionAt = row₀.bind (·.nextActionAt)

theorem accepted_recheckable {at_ : Time} {wake : Bool} (h : accepted r at_ wake = true) :
    r.state ∈ AcquisitionState.recheckable := by
  unfold accepted at h
  split at h
  · rename_i hd
    rw [hd]
    decide
  · split at h
    · rename_i hr
      revert hr
      cases r.state <;> decide
    · cases h

/-- What is turned down for good has a timer, or is not to be worked on. -/
theorem refused_timer {at_ : Time} {wake : Bool} (h : accepted r at_ wake = false)
    (hr : r.state ∈ AcquisitionState.recheckable) : r.nextActionAt.isSome := by
  unfold accepted at h
  split at h
  · cases h
  · rename_i hd
    rw [if_pos (by revert hr hd; cases r.state <;> decide)] at h
    cases hn : r.nextActionAt with
    | some t => rfl
    | none => simp [hn] at h

theorem waiting_new (avid : Avid) {s : SightingArgs} (hnext : s.nextActionAt = none) (at_ : Time) :
    Waiting none (Ledger.discoveredRow avid s.source s.taskDirPath s.nextActionAt s.releaseDate at_) :=
  ⟨by simp [Ledger.discoveredRow, AcquisitionState.recheckable], hnext⟩

theorem waiting_resighted {at_ : Time} {s : SightingArgs} (hnext : s.nextActionAt = none)
    (h : accepted r at_ s.wake = true) : Waiting (some r) (r.resighted s) :=
  ⟨accepted_recheckable (r := r) h, by simp [AcquisitionRecord.resighted, hnext]⟩

theorem wp_discover_own (hs : Stands avid row c w) {at_ : Time} {s : SightingArgs} (hnext : s.nextActionAt = none) :
    (discover avid at_ s).wp (World.Step A ()) (fun _ _ => True)
      (fun ok w' =>
        (ok = true ∧ ∃ r, Waiting row r ∧ Stands avid (some r) c w') ∨
          (ok = false ∧ ∃ r, row = some r ∧ (r.state ∈ AcquisitionState.recheckable → r.nextActionAt.isSome) ∧
            Stands avid row c w')) (fun _ _ => True) w := by
  have silent : (discover avid at_ s).Keeps (World.Step A ()) (fun _ _ => True)
      (fun w' => course avid (w'.history ()) = c) (fun _ _ => True) := by
    refine keeps_mono (keeps_of_uses (books_discover at_ s) (fun _ _ _ _ => trivial) ?_) fun _ _ _ => trivial
    intro w op r w' hop hc ht
    rw [history_step ht, ← hc]
    exact course_books hop r _
  have told := (fromLedger_step A ()).wp_discover (w := w) (s := s)
    (Q := fun ok w' => (ok = true ∧ ∃ r, Waiting row r ∧ w'.ledger.acq avid = some r) ∨
      (ok = false ∧ ∃ r, row = some r ∧ (r.state ∈ AcquisitionState.recheckable → r.nextActionAt.isSome) ∧
        w'.ledger.acq avid = row))
    (fun hnone w' hrow _ => .inl ⟨rfl, _, hs.row.symm.trans hnone ▸ waiting_new avid hnext at_, hrow⟩)
    (fun r₀ h₀ hacc w' hrow _ => .inl ⟨rfl, _, hs.row.symm.trans h₀ ▸ waiting_resighted hnext hacc, hrow⟩)
    (fun r₀ h₀ hacc w' hrow _ => .inr ⟨rfl, r₀, hs.row.symm.trans h₀, refused_timer hacc, by
      rw [hrow, ← hs.row, h₀]⟩)
  refine wp_mono (wp_and told (silent w hs.course)) ?_ fun _ _ _ => trivial
  rintro ok w' ⟨⟨rfl, r, hw, hrow⟩ | ⟨rfl, r, hr, ht, hrow⟩, hc⟩
  · exact .inl ⟨rfl, r, hw, hrow, hc⟩
  · exact .inr ⟨rfl, r, hr, ht, hrow, hc⟩

/-! ### The library and the resolvers -/

/-- Held, and the row is settled; or not, and nothing has changed. -/
theorem wp_skipHeld_own {wanted : Wanted} (hs : Stands wanted.avid (some r) {} w)
    (hr : r.state ∈ AcquisitionState.recheckable) :
    (Rss.skipHeld wanted).wp (World.Step A ()) (fun _ _ => True)
      (fun skipped w' =>
        (skipped = true ∧ ∃ r' c, r'.state = .archived ∧ c.held ≠ [] ∧ Stands wanted.avid (some r') c w') ∨
          (skipped = false ∧ Stands wanted.avid (some r) {} w')) (fun _ _ => True) w := by
  unfold Rss.skipHeld
  rw [wp_bind]
  refine wp_mono (wp_elsewhere (uses_ok trivial) hs) (fun _ w₁ hs => ?_) fun _ _ h => h
  rw [wp_bind, wp_attempt]
  refine wp_ask hs (fun held w₂ hs _ => ?_) fun e w₂ hs _ => .inr ⟨rfl, hs⟩
  simp only [Course.after, if_true, List.append_nil] at hs
  cases held with
  | nil => exact .inr ⟨rfl, hs⟩
  | cons path paths =>
    dsimp only
    rw [wp_bind]
    refine wp_get_own hs fun w₃ hs => ?_
    dsimp only
    rw [if_pos hr, wp_bind]
    refine wp_mono (wp_elsewhere (uses_ok trivial) hs) (fun at_ w₄ hs => ?_) fun _ _ h => h
    rw [wp_bind]
    refine wp_transition_own hs (by revert hr; cases r.state <;> decide) fun r' w₅ hs hstate _ => ?_
    exact .inl ⟨rfl, r', _, hstate, by simp, hs⟩

theorem wp_resolveOrNone_own (hs : Stands avid row {} w) (i : Intake) (magnet : Option String) :
    (Intake.resolveOrNone i avid magnet).wp (World.Step A ()) (fun _ _ => True)
      (fun candidates w' => ∃ c, c.held = [] ∧ c.taken = false ∧ c.offered i.readers magnet = candidates ∧
        Stands avid row c w') (fun _ _ => True) w := by
  unfold Intake.resolveOrNone Intake.resolve
  rw [wp_bind, wp_attempt, wp_bind]
  refine wp_ask hs (fun sukebei w₁ hs _ => ?_) fun e w₁ hs _ => ⟨_, by simp [Course.after], by simp [Course.after], ?_, hs⟩
  · rw [wp_bind, wp_attempt]
    refine wp_ask hs (fun magnets w₂ hs _ => ?_) fun e w₂ hs _ => ?_
    · exact ⟨_, by simp [Course.after], by simp [Course.after], by simp [Course.after, Course.offered, Except.toOption], hs⟩
    · exact ⟨_, by simp [Course.after], by simp [Course.after], by simp [Course.after, Course.offered, Except.toOption], hs⟩
  · simp [Course.after, Course.offered, Except.toOption]

/-! ### Parking -/

theorem wp_ensureReleaseDate_own (hs : Stands r.avid (some r) c w) (lookup : Bool) :
    (ensureReleaseDate lookup r).wp (World.Step A ()) (fun _ _ => True)
      (fun _ w' => ∃ r', r'.state = r.state ∧ Stands r.avid (some r') c w') (fun _ _ => True) w := by
  unfold ensureReleaseDate
  split
  · exact ⟨r, rfl, hs⟩
  · rw [wp_bind]
    refine wp_mono (wp_elsewhere (uses_ok trivial) hs) (fun found w₁ hs => ?_) fun _ _ h => h
    cases found with
    | none => exact ⟨r, rfl, hs⟩
    | some date =>
      dsimp only
      rw [wp_bind, wp_discard, wp_call]
      refine ⟨trivial, fun hit w₂ ht => ?_, fun _ _ _ => trivial⟩
      have hg := (fromLedger_step A ()).gives ht
      simp only [Sql.Gives, Sql.run, Except.ok.injEq] at hg
      have hrow : w₂.ledger.acq r.avid =
          some (if (!true || r.releaseDate.isNone) = true then { r with releaseDate := some date } else r) := by
        rw [← show _ = w₂.ledger from congrArg Prod.snd hg, Ledger.acq_setReleaseDate, hs.row]
        simp
      refine ⟨_, ?_, hrow, ?_⟩
      · split <;> rfl
      · rw [history_step ht, ← hs.course]
        rfl

theorem wp_park_own (i : Intake) (hs : Stands avid (some r) c w) (hr : r.state ∈ AcquisitionState.recheckable) :
    (Intake.parkUnresolved i avid).wp (World.Step A ()) (fun _ _ => True)
      (fun _ w' => ∃ r', r'.state = .resolveFailed ∧ r'.nextActionAt.isSome ∧ Stands avid (some r') c w')
      (fun _ _ => True) w := by
  obtain rfl : r.avid = avid := Ledger.acq_avid hs.row
  unfold Intake.parkUnresolved Intake.repark
  rw [wp_bind]
  refine wp_get_own hs fun w₁ hs => ?_
  dsimp only
  rw [if_pos (by exact hr), wp_bind]
  refine wp_mono (wp_ensureReleaseDate_own hs _) (fun date w₂ ⟨r', hstate, hs⟩ => ?_) fun _ _ h => h
  rw [wp_bind]
  refine wp_mono (wp_elsewhere (uses_ok trivial) hs) (fun at_ w₃ hs => ?_) fun _ _ h => h
  rw [← hstate] at hr ⊢
  refine wp_transition_own hs (by revert hr; cases r'.state <;> decide) fun r₁ w₄ hs h₁ h₂ => ?_
  exact ⟨r₁, h₁, by rw [h₂]; rfl, hs⟩

/-! ### Submission -/

/-- CloudDrive's word on a magnet, when it is this AVID's. -/
def Course.given (c : Course) (mine : Prop) [Decidable mine] (taken : Bool) : Course :=
  if mine then { c with taken } else c

@[simp] theorem Course.given_given (c : Course) (mine : Prop) [Decidable mine] (b b' : Bool) :
    (c.given mine b).given mine b' = c.given mine b' := by
  unfold given
  split <;> rfl

theorem wp_claimLoop (hs : Stands avid row c w) (at_ : Time) (n : Nat)
    (hn : n ≠ 0 ∨ claimant (w.history ()) = some a) :
    (claimLoop a at_ n).wp (World.Step A ()) (fun _ _ => True)
      (fun _ w' => Stands avid row c w' ∧ claimant (w'.history ()) = some a) (fun _ _ => True) w := by
  induction n generalizing w with
  | zero => exact ⟨hs, hn.resolve_left (by simp)⟩
  | succ n ih =>
    unfold claimLoop
    rw [wp_bind, wp_attempt, wp_call]
    have claimed : ∀ {r w'}, World.Step A () w (.sql (.claimNextPending a at_)) r w' →
        Stands avid row c w' ∧ claimant (w'.history ()) = some a := by
      intro r w' ht
      refine ⟨stands_elsewhere (by simp [Elsewhere, Sql.row]) hs ht, ?_⟩
      rw [history_step ht]
      rfl
    refine ⟨trivial, fun _ w' ht => claimed ht, fun e w' ht => ?_⟩
    cases e with
    | uniqueViolation => exact ih (claimed ht).1 (.inr (claimed ht).2)
    | _ => trivial

/-- However often it is asked, what CloudDrive answers last counts. -/
theorem wp_addOffline (link taskDir : String) (n : Nat) (hs : Stands avid row c w)
    (ha : claimant (w.history ()) = some a) :
    (Intake.addOffline link taskDir n).wp (World.Step A ()) (fun _ _ => True)
      (fun b => Stands avid row (c.given (a = avid) b))
      (fun e => Stands avid row (c.given (a = avid) (took (.error e)))) w := by
  have after : ∀ (c : Course) r, c.after avid (some a) ⟨.ask (.addOfflineFiles [link] taskDir), r⟩ =
      c.given (a = avid) (took r) := by
    intro c r
    simp only [Course.after, Course.given, Option.some.injEq]
  induction n generalizing c w with
  | zero =>
    refine wp_ask hs (fun b w' hs _ => ?_) fun e w' hs _ => ?_
    · rw [ha, after] at hs; exact hs
    · rw [ha, after] at hs; exact hs
  | succ n ih =>
    unfold Intake.addOffline
    rw [wp_bind, wp_attempt]
    refine wp_ask hs (fun b w' hs _ => ?_) fun e w' hs hc => ?_
    · rw [ha, after] at hs; exact hs
    · rw [ha, after] at hs
      dsimp only
      split
      · refine wp_mono (ih hs (hc.trans ha)) (fun b w' h => ?_) fun e w' h => ?_
        · rw [Course.given_given] at h; exact h
        · rw [Course.given_given] at h; exact h
      · exact hs

theorem wp_addMagnet (link taskDir : String) (hs : Stands avid row c w) (ha : claimant (w.history ()) = some a) :
    (Intake.addMagnet link taskDir).wp (World.Step A ()) (fun _ _ => True)
      (fun out => Stands avid row (c.given (a = avid) (out ≠ .failed))) (fun _ _ => True) w := by
  unfold Intake.addMagnet
  rw [wp_bind, wp_attempt]
  refine wp_mono (wp_addOffline link taskDir 2 hs ha) (fun b w' hs => ?_) fun e w' hs => ?_
  · cases b <;> exact hs
  · cases e with
    | rpcError details =>
      simp only [took] at hs
      dsimp only
      split
      · rename_i hd
        rw [hd] at hs
        exact hs
      · rename_i hd
        rw [Bool.eq_false_iff.2 hd] at hs
        exact hs
    | _ => exact hs

/-- Another AVID's magnets. -/
theorem wp_submitNext_other (ha : a ≠ avid) (hs : Stands avid row c w) (taskDir : String) (limit : Nat) :
    (Intake.submitNext a taskDir limit).wp (World.Step A ()) (fun _ _ => True) (fun _ => Stands avid row c)
      (fun _ _ => True) w := by
  induction limit generalizing w with
  | zero => trivial
  | succ limit ih =>
    unfold Intake.submitNext
    rw [wp_bind]
    refine wp_mono (wp_elsewhere (uses_ok trivial) hs) (fun at_ w₁ hs => ?_) fun _ _ h => h
    rw [wp_bind]
    refine wp_mono (wp_claimLoop hs at_ _ (.inl (by decide))) (fun claimed w₂ ⟨hs, hc⟩ => ?_) fun _ _ h => h
    cases claimed with
    | none => exact hs
    | some attempt =>
      dsimp only
      rw [wp_bind]
      refine wp_mono (wp_addMagnet _ _ hs hc) (fun out w₃ hs => ?_) fun _ _ h => h
      rw [Course.given, if_neg ha] at hs
      -- taken or a duplicate, it is the other row that is marked
      have marked : (Intake.markDownloading a at_ >>= fun _ => pure true).wp (World.Step A ()) (fun _ _ => True)
          (fun _ => Stands avid row c) (fun _ _ => True) w₃ := by
        refine wp_elsewhere (uses_bind ?_ fun _ => trivial) hs
        unfold Intake.markDownloading
        refine uses_bind (uses_ok (by simp [Elsewhere, Sql.row])) fun record => ?_
        split
        · trivial
        · split
          · trivial
          · exact uses_discard (uses_transition (row_ne ha))
      cases out with
      | failed =>
        dsimp only
        rw [wp_bind]
        refine wp_mono (wp_elsewhere (uses_discard (uses_transitionAttempt (by simp [Elsewhere, Sql.row]))) hs)
          (fun _ w₄ hs => ih hs) fun _ _ h => h
      | duplicate => exact marked
      | success => exact marked

/-- Its own magnets: one is taken and the row belongs to the tracker, or none is and the row is as it was. -/
theorem wp_submitNext_own (hs : Stands avid (some r) (c.given True false) w)
    (hr : r.state ∈ AcquisitionState.recheckable) (taskDir : String) (limit : Nat) :
    (Intake.submitNext avid taskDir limit).wp (World.Step A ()) (fun _ _ => True)
      (fun submitted w' =>
        (submitted = true ∧ ∃ r', r'.state = .downloading ∧ Stands avid (some r') (c.given True true) w') ∨
          (submitted = false ∧ Stands avid (some r) (c.given True false) w'))
      (fun _ _ => True) w := by
  induction limit generalizing w with
  | zero => trivial
  | succ limit ih =>
    unfold Intake.submitNext
    rw [wp_bind]
    refine wp_mono (wp_elsewhere (uses_ok trivial) hs) (fun at_ w₁ hs => ?_) fun _ _ h => h
    rw [wp_bind]
    refine wp_mono (wp_claimLoop hs at_ _ (.inl (by decide))) (fun claimed w₂ ⟨hs, hc⟩ => ?_) fun _ _ h => h
    cases claimed with
    | none => exact .inr ⟨rfl, hs⟩
    | some attempt =>
      dsimp only
      rw [wp_bind]
      refine wp_mono (wp_addMagnet _ _ hs hc) (fun out w₃ hs => ?_) fun _ _ h => h
      -- a magnet was taken: the row, still as it was read, goes to the tracker
      have marked : Stands avid (some r) (c.given True true) w₃ →
          (Intake.markDownloading avid at_ >>= fun _ => pure true).wp (World.Step A ()) (fun _ _ => True)
            (fun submitted w' =>
              (submitted = true ∧ ∃ r', r'.state = .downloading ∧ Stands avid (some r') (c.given True true) w') ∨
                (submitted = false ∧ Stands avid (some r) (c.given True false) w'))
            (fun _ _ => True) w₃ := by
        intro hs
        unfold Intake.markDownloading
        rw [wp_bind, wp_bind]
        refine wp_get_own hs fun w₄ hs => ?_
        dsimp only
        rw [if_neg (by rintro he; rw [he] at hr; revert hr; decide)]
        refine wp_transition_own hs (by revert hr; cases r.state <;> decide) fun r' w₅ hs hstate _ => ?_
        exact .inl ⟨rfl, r', hstate, hs⟩
      cases out with
      | failed =>
        dsimp only
        rw [wp_bind]
        refine wp_mono (wp_elsewhere (uses_discard (uses_transitionAttempt (by simp [Elsewhere, Sql.row]))) ?_)
          (fun _ w₄ hs => ih hs) fun _ _ h => h
        simpa [Course.given] using hs
      | duplicate => exact marked (by simpa [Course.given] using hs)
      | success => exact marked (by simpa [Course.given] using hs)

theorem elsewhere_addAttempts (candidates : List MagnetCandidate) (at_ : Time) :
    Uses (Elsewhere avid) (addAttempts a candidates at_) := by
  unfold addAttempts
  split
  · trivial
  · exact uses_ok (by simp [Elsewhere, Sql.row])

end Own

/-! ## The stages -/

/-- What can become of an AVID of the feed whose row was `row₀` and whose item brought `magnet`. -/
inductive Ends (rd : Readers) (magnet : Option String) (row₀ : Option AcquisitionRecord) :
    Option AcquisitionRecord → Course → Prop
  /-- Discovery leaves it to whoever has it. -/
  | refused {r} : row₀ = some r → (r.state ∈ AcquisitionState.recheckable → r.nextActionAt.isSome) →
      Ends rd magnet row₀ (some r) {}
  /-- The library has it. -/
  | held {r c} : r.state = .archived → c.held ≠ [] → Ends rd magnet row₀ (some r) c
  /-- Nobody offers a magnet. -/
  | parked {r c} : r.state = .resolveFailed → r.nextActionAt.isSome → c.held = [] → c.offered rd magnet = [] →
      Ends rd magnet row₀ (some r) c
  | submitted {r c} : r.state = .downloading → c.held = [] → c.taken = true → Ends rd magnet row₀ (some r) c
  /-- Magnets were offered and none went in: the row is as discovery left it. -/
  | untaken {r c} : Waiting row₀ r → c.held = [] → c.offered rd magnet ≠ [] → c.taken = false →
      Ends rd magnet row₀ (some r) c

/-- A property of where the AVID stands. -/
def Tracks (avid : Avid) (F : Option AcquisitionRecord → Course → Prop) (w : World Unit) : Prop :=
  F (w.ledger.acq avid) (course avid (w.history ()))

section Stages
variable {A : Policy} {avid : Avid} {row : Option AcquisitionRecord} {r : AcquisitionRecord} {c : Course}
  {w w' : World Unit} {p : Rss}

theorem stands_here (avid : Avid) (w : World Unit) : Stands avid (w.ledger.acq avid) (course avid (w.history ())) w :=
  ⟨rfl, rfl⟩

theorem Tracks.keep {F : Option AcquisitionRecord → Course → Prop} (h : Tracks avid F w)
    (hs : Stands avid (w.ledger.acq avid) (course avid (w.history ())) w') : Tracks avid F w' := by
  unfold Tracks
  rw [hs.row, hs.course]
  exact h

theorem Stands.tracks {F : Option AcquisitionRecord → Course → Prop} (hs : Stands avid row c w) (h : F row c) :
    Tracks avid F w := by
  unfold Tracks
  rw [hs.row, hs.course]
  exact h

theorem filter_snoc_ne {β : Type} {key : β → Avid} {x : β} (h : key x ≠ avid) (xs : List β) :
    (xs ++ [x]).filter (key · = avid) = xs.filter (key · = avid) := by
  simp [List.filter_append, h]

theorem filter_snoc_eq {β : Type} {key : β → Avid} {x : β} (h : key x = avid) {xs : List β}
    (hxs : xs.filter (key · = avid) = []) : (xs ++ [x]).filter (key · = avid) = [x] := by
  simp [List.filter_append, hxs, h]

/-! ### Discovery -/

theorem wp_sight_other (category : RssCategory) (at_ : Time) {sighted : Avid × FeedItem} (ha : sighted.1 ≠ avid)
    {F : List Wanted → Option AcquisitionRecord → Course → Prop} {acc : RssRun × List Wanted}
    (h : Tracks avid (F (acc.2.filter (·.avid = avid))) w) :
    (p.sight category at_ acc sighted).wp (World.Step A ()) (fun _ _ => True)
      (fun acc' w' => Tracks avid (F (acc'.2.filter (·.avid = avid))) w') (fun _ _ => True) w := by
  obtain ⟨a, item⟩ := sighted
  unfold Rss.sight
  dsimp only
  rw [wp_bind]
  refine wp_mono (wp_elsewhere (elsewhere_filingFor p _ _) (stands_here avid w)) (fun filed w₁ hs => ?_) fun _ _ h => h
  obtain ⟨run, filing, cast⟩ := filed
  dsimp only
  rw [wp_bind]
  refine wp_mono (wp_elsewhere (elsewhere_discover ha _ _) hs) (fun ok w₂ hs => ?_) fun _ _ h => h
  split
  · rw [wp_bind]
    refine wp_mono (wp_elsewhere (elsewhere_filingDir filing) hs) (fun dir w₃ hs => ?_) fun _ _ h => h
    have same (magnet : Option String) :
        (acc.2 ++ [(⟨a, magnet, dir⟩ : Wanted)]).filter (·.avid = avid) = acc.2.filter (·.avid = avid) :=
      filter_snoc_ne (by exact ha) _
    rw [wp_pure, same]
    exact h.keep hs
  · exact h.keep hs

/-- Until its round, an AVID of the feed is not touched. -/
def Untouched (row₀ : Option AcquisitionRecord) (wanted : List Wanted) (row : Option AcquisitionRecord) (c : Course) :
    Prop := wanted = [] ∧ row = row₀ ∧ c = {}

/-- It ended, or is on the list as discovery left it. -/
def Listed (rd : Readers) (avid : Avid) (magnet : Option String) (row₀ : Option AcquisitionRecord) (wanted : List Wanted)
    (row : Option AcquisitionRecord) (c : Course) : Prop :=
  (wanted = [] ∧ Ends rd magnet row₀ row c) ∨
    ∃ dir r, wanted = [⟨avid, magnet, dir⟩] ∧ row = some r ∧ Waiting row₀ r ∧ c = {}

theorem wp_sight_own (category : RssCategory) (at_ : Time) (item : FeedItem) {row₀ : Option AcquisitionRecord}
    {acc : RssRun × List Wanted} (h : Tracks avid (Untouched row₀ (acc.2.filter (·.avid = avid))) w) :
    (p.sight category at_ acc (avid, item)).wp (World.Step A ()) (fun _ _ => True)
      (fun acc' w' => Tracks avid (Listed p.intake.readers avid (p.intake.readers.magnetFromHtml item.content avid) row₀
        (acc'.2.filter (·.avid = avid))) w') (fun _ _ => True) w := by
  obtain ⟨hnot, hrow, hc⟩ := h
  have hs : Stands avid row₀ {} w := ⟨hrow, hc⟩
  unfold Rss.sight
  dsimp only
  rw [wp_bind]
  refine wp_mono (wp_elsewhere (elsewhere_filingFor p _ _) hs) (fun filed w₁ hs => ?_) fun _ _ h => h
  obtain ⟨run, filing, cast⟩ := filed
  dsimp only
  rw [wp_bind]
  refine wp_mono (wp_discover_own hs rfl) ?_ fun _ _ h => h
  rintro ok w₂ (⟨rfl, r, hwait, hs⟩ | ⟨rfl, r, rfl, htimer, hs⟩)
  · rw [if_pos rfl, wp_bind]
    refine wp_mono (wp_elsewhere (elsewhere_filingDir filing) hs) (fun dir w₃ hs => ?_) fun _ _ h => h
    exact hs.tracks (.inr ⟨dir, r, filter_snoc_eq (by rfl) hnot, rfl, hwait, rfl⟩)
  · rw [if_neg (by decide)]
    exact hs.tracks (.inl ⟨hnot, .refused rfl htimer⟩)

/-! ### The library check -/

theorem wp_skip_other {wanted : Wanted} (ha : wanted.avid ≠ avid)
    {F : List Wanted → Option AcquisitionRecord → Course → Prop} {kept : List Wanted}
    (h : Tracks avid (F (kept.filter (·.avid = avid))) w) :
    (do if ← Rss.skipHeld wanted then pure kept else pure (kept ++ [wanted]) : M (List Wanted)).wp (World.Step A ())
      (fun _ _ => True) (fun kept w' => Tracks avid (F (kept.filter (·.avid = avid))) w') (fun _ _ => True) w := by
  rw [wp_bind]
  refine wp_mono (wp_elsewhere (elsewhere_skipHeld ha) (stands_here avid w)) (fun skipped w₁ hs => ?_) fun _ _ h => h
  split
  · exact h.keep hs
  · rw [wp_pure, filter_snoc_ne ha]
    exact h.keep hs

variable {rd : Readers} {magnet : Option String} {row₀ : Option AcquisitionRecord}

theorem wp_skipLibraryHeld {wanted : List Wanted}
    (h : Tracks avid (Listed rd avid magnet row₀ (wanted.filter (·.avid = avid))) w) :
    (Rss.skipLibraryHeld wanted).wp (World.Step A ()) (fun _ _ => True)
      (fun kept w' => Tracks avid (Listed rd avid magnet row₀ (kept.filter (·.avid = avid))) w') (fun _ _ => True) w := by
  unfold Rss.skipLibraryHeld
  rcases h with ⟨hnone, hends⟩ | ⟨dir, r, hone, hrow, hwait, hc⟩
  · exact wp_foldEach_none (fun _ _ _ ha h => wp_skip_other ha h) hnone (.inl ⟨rfl, hends⟩)
  · refine wp_foldEach_one (P := fun kept => Tracks avid fun row c => (kept.filter (·.avid = avid) = [] ∧ row = some r ∧ c = {}))
      (fun _ _ _ ha h => wp_skip_other (F := fun l row c => l = [] ∧ row = some r ∧ c = {}) ha h) ?_
      (fun _ _ _ ha h => wp_skip_other ha h) hone ⟨rfl, hrow, hc⟩
    rintro kept w ⟨hnot, hrow, hc⟩
    rw [wp_bind]
    refine wp_mono (wp_skipHeld_own ⟨hrow, hc⟩ hwait.1) ?_ fun _ _ h => h
    rintro skipped w' (⟨rfl, r', c', hstate, hheld, hs⟩ | ⟨rfl, hs⟩)
    · exact hs.tracks (.inl ⟨hnot, .held hstate hheld⟩)
    · rw [if_neg (by decide)]
      exact hs.tracks (.inr ⟨dir, r, filter_snoc_eq (by rfl) hnot, rfl, hwait, rfl⟩)

/-! ### The resolvers -/

/-- Whatever order a gather finishes in, an AVID that is on the list once comes up once. -/
theorem filter_finishing {order : List Avid} {wanted : List Wanted} (ho : order.Perm (wanted.map (·.avid)))
    (hw : (wanted.filter (·.avid = avid)).length ≤ 1) :
    (order.filterMap fun a => wanted.find? (·.avid = a)).filter (·.avid = avid) = wanted.filter (·.avid = avid) := by
  have hcount : order.count avid = (wanted.filter (·.avid = avid)).length := by
    rw [ho.count_eq, List.count, List.countP_map, List.countP_eq_length_filter]
    congr 1
  have hown : order.filter (· = avid) = List.replicate (wanted.filter (·.avid = avid)).length avid := by
    rw [← hcount, ← List.filter_eq]
  have hcomm : (order.filterMap fun a => wanted.find? (·.avid = a)).filter (·.avid = avid) =
      (order.filter (· = avid)).filterMap fun a => wanted.find? (·.avid = a) := by
    rw [List.filter_filterMap, List.filterMap_filter]
    congr 1
    funext a
    cases hfind : wanted.find? (·.avid = a) with
    | none => simp
    | some w =>
      have ha : w.avid = a := by simpa using List.find?_some hfind
      subst ha
      by_cases h : w.avid = avid <;> simp [h]
  have hfind : wanted.find? (·.avid = avid) = (wanted.filter (·.avid = avid)).head? := (List.head?_filter ..).symm
  rw [hcomm, hown]
  rcases hl : wanted.filter (·.avid = avid) with _ | ⟨w, _ | ⟨w', ws⟩⟩
  · rw [hl]; rfl
  · rw [hl] at hfind ⊢
    simp only [List.length_singleton, List.replicate_one, List.filterMap_cons, hfind, List.head?_cons, List.filterMap_nil]
  · rw [hl] at hw
    simp at hw

/-- The ones to park: those on the list that were not resolved. -/
theorem filter_parked (wanted : List Wanted) (resolved : List (Wanted × List MagnetCandidate)) :
    (wanted.filter fun w => w.avid ∉ resolved.map (·.1.avid)).filter (·.avid = avid) =
      if resolved.filter (·.1.avid = avid) = [] then wanted.filter (·.avid = avid) else [] := by
  have hmem : resolved.filter (·.1.avid = avid) = [] ↔ avid ∉ resolved.map (·.1.avid) := by
    simp [List.filter_eq_nil_iff]
  rw [List.filter_filter]
  split
  · rename_i h
    refine List.filter_congr fun w _ => ?_
    by_cases hw : w.avid = avid
    · subst hw
      simp only [hmem.1 h, decide_true, not_false_eq_true, Bool.and_self]
    · simp [hw]
  · rename_i h
    refine List.filter_eq_nil_iff.2 fun w _ hw => ?_
    simp only [Bool.and_eq_true, decide_eq_true_eq] at hw
    exact h (hmem.2 (hw.1 ▸ hw.2))

/-- The resolvers have answered: it is on the list with its magnets, or there are none. -/
def Gathered (rd : Readers) (avid : Avid) (magnet : Option String) (dir : String) (r : AcquisitionRecord)
    (resolved : List (Wanted × List MagnetCandidate)) (row : Option AcquisitionRecord) (c : Course) : Prop :=
  ∃ candidates, resolved = (if candidates = [] then [] else [(⟨avid, magnet, dir⟩, candidates)]) ∧
    row = some r ∧ c.held = [] ∧ c.taken = false ∧ c.offered rd magnet = candidates

/-- It ended, or its magnets are there to be tried. -/
def Resolved (rd : Readers) (avid : Avid) (magnet : Option String) (row₀ : Option AcquisitionRecord)
    (resolved : List (Wanted × List MagnetCandidate)) (row : Option AcquisitionRecord) (c : Course) : Prop :=
  (resolved = [] ∧ Ends rd magnet row₀ row c) ∨
    ∃ dir r candidates, resolved = [(⟨avid, magnet, dir⟩, candidates)] ∧ row = some r ∧ Waiting row₀ r ∧
      c.held = [] ∧ c.taken = false ∧ c.offered rd magnet ≠ []

theorem wp_resolve_other (i : Intake) {wanted : Wanted} (ha : wanted.avid ≠ avid)
    {F : List (Wanted × List MagnetCandidate) → Option AcquisitionRecord → Course → Prop}
    {resolved : List (Wanted × List MagnetCandidate)} (h : Tracks avid (F (resolved.filter (·.1.avid = avid))) w) :
    (do
      let candidates ← Intake.resolveOrNone i wanted.avid wanted.itemMagnet
      pure (if candidates = [] then resolved else resolved ++ [(wanted, candidates)]) :
        M (List (Wanted × List MagnetCandidate))).wp (World.Step A ()) (fun _ _ => True)
      (fun resolved w' => Tracks avid (F (resolved.filter (·.1.avid = avid))) w') (fun _ _ => True) w := by
  rw [wp_bind]
  refine wp_mono (wp_elsewhere (elsewhere_resolveOrNone ha i _) (stands_here avid w)) (fun candidates w₁ hs => ?_)
    fun _ _ h => h
  rw [wp_pure]
  split
  · exact h.keep hs
  · have same : (resolved ++ [(wanted, candidates)]).filter (·.1.avid = avid) = resolved.filter (·.1.avid = avid) :=
      filter_snoc_ne (by exact ha) _
    rw [same]
    exact h.keep hs

theorem wp_park_tracks (i : Intake) {wanted : Wanted} (ha : wanted.avid ≠ avid)
    {F : Option AcquisitionRecord → Course → Prop} (h : Tracks avid F w) :
    (Intake.parkUnresolved i wanted.avid).wp (World.Step A ()) (fun _ _ => True) (fun _ => Tracks avid F)
      (fun _ _ => True) w :=
  wp_mono (wp_park_other ha i (stands_here avid w)) (fun _ _ hs => h.keep hs) fun _ _ h => h

theorem wp_resolveAll {wanted : List Wanted}
    (h : Tracks avid (Listed p.intake.readers avid magnet row₀ (wanted.filter (·.avid = avid))) w) :
    (p.resolveAll wanted).wp (World.Step A ()) (fun _ _ => True)
      (fun resolved w' =>
        Tracks avid (Resolved p.intake.readers avid magnet row₀ (resolved.filter (·.1.avid = avid))) w')
      (fun _ _ => True) w := by
  unfold Rss.resolveAll
  rw [wp_bind, wp_call]
  refine ⟨trivial, fun order w₁ ht => ?_, fun _ _ _ => trivial⟩
  have hgather : Elsewhere avid (.gathered (wanted.map (·.avid))) := trivial
  have hs : Stands avid (w.ledger.acq avid) (course avid (w.history ())) w₁ :=
    stands_elsewhere hgather (stands_here avid w) ht
  -- the lookups may end in any order, but each AVID ends once
  have hperm : order.Perm (wanted.map (·.avid)) := by
    obtain ⟨t, l', -, -, ⟨⟨_, he, hp⟩, -⟩, -⟩ := ht
    cases he
    exact hp
  have h := h.keep hs
  dsimp only
  rw [wp_bind]
  rcases h with ⟨hnone, hends⟩ | ⟨dir, r, hone, hrow, hwait, hc⟩
  · -- the AVID is not among the wanted: nothing here is about it
    have hfin := filter_finishing hperm (show (wanted.filter (·.avid = avid)).length ≤ 1 by simp [hnone])
    rw [hnone] at hfin
    refine wp_mono (wp_foldEach_none (P := fun resolved => Tracks avid fun row c =>
        resolved.filter (·.1.avid = avid) = [] ∧ Ends p.intake.readers magnet row₀ row c)
      (fun _ _ _ ha h => wp_resolve_other p.intake
        (F := fun l row c => l = [] ∧ Ends p.intake.readers magnet row₀ row c) ha h) hfin ⟨rfl, hends⟩)
      (fun resolved w₂ ⟨hres, hends⟩ => ?_) fun _ _ h => h
    rw [wp_bind]
    refine wp_mono (wp_foldEach_none (P := fun _ => Tracks avid (Ends p.intake.readers magnet row₀))
      (fun _ _ _ ha h => wp_park_tracks p.intake ha h) ?_ hends) (fun _ w₃ hends => .inl ⟨hres, hends⟩) fun _ _ h => h
    rw [filter_parked, hnone, ite_self]
  · -- it is wanted once: its own lookup decides between parking and submitting
    have hfin := filter_finishing hperm (show (wanted.filter (·.avid = avid)).length ≤ 1 by simp [hone])
    rw [hone] at hfin
    refine wp_mono (wp_foldEach_one
      (P := fun resolved => Tracks avid fun row c => resolved.filter (·.1.avid = avid) = [] ∧ row = some r ∧ c = {})
      (Q := fun resolved => Tracks avid (Gathered p.intake.readers avid magnet dir r (resolved.filter (·.1.avid = avid))))
      (fun _ _ _ ha h => wp_resolve_other p.intake (F := fun l row c => l = [] ∧ row = some r ∧ c = {}) ha h) ?_
      (fun _ _ _ ha h => wp_resolve_other p.intake ha h)
      hfin ⟨rfl, hrow, hc⟩) (fun resolved w₂ hres => ?_) fun _ _ h => h
    · rintro resolved w ⟨hnot, hrow, hc⟩
      rw [wp_bind]
      refine wp_mono (wp_resolveOrNone_own ⟨hrow, hc⟩ p.intake magnet) ?_ fun _ _ h => h
      rintro candidates w' ⟨c, hheld, htaken, hoffered, hs⟩
      refine hs.tracks ⟨candidates, ?_, rfl, hheld, htaken, hoffered⟩
      split
      · exact hnot
      · exact filter_snoc_eq (by rfl) hnot
    · obtain ⟨candidates, hres, hrow, hheld, htaken, hoffered⟩ := hres
      rw [wp_bind]
      by_cases hcand : candidates = []
      · rw [if_pos hcand] at hres
        refine wp_mono (wp_foldEach_one
          (P := fun _ => Tracks avid fun row c =>
            row = some r ∧ c.held = [] ∧ c.offered p.intake.readers magnet = [])
          (Q := fun _ => Tracks avid (Ends p.intake.readers magnet row₀))
          (fun _ _ _ ha h => wp_park_tracks p.intake ha h) ?_ (fun _ _ _ ha h => wp_park_tracks p.intake ha h)
          ((filter_parked wanted resolved).trans ((if_pos hres).trans hone)) ⟨hrow, hheld, hoffered.trans hcand⟩)
          (fun _ w₃ hends => .inl ⟨hres, hends⟩) fun _ _ h => h
        rintro _ w ⟨hrow, hheld, hoffered⟩
        refine wp_mono (wp_park_own p.intake ⟨hrow, rfl⟩ hwait.1) ?_ fun _ _ h => h
        rintro _ w' ⟨r', hstate, htimer, hs⟩
        exact hs.tracks (.parked hstate htimer hheld hoffered)
      · rw [if_neg hcand] at hres
        refine wp_mono (wp_foldEach_none
          (P := fun _ => Tracks avid fun row c =>
            row = some r ∧ c.held = [] ∧ c.taken = false ∧ c.offered p.intake.readers magnet ≠ [])
          (fun _ _ _ ha h => wp_park_tracks p.intake ha h) ?_ ⟨hrow, hheld, htaken, hoffered ▸ hcand⟩)
          (fun _ w₃ ⟨hrow, h⟩ => .inr ⟨dir, r, candidates, hres, hrow, hwait, h⟩) fun _ _ h => h
        exact (filter_parked wanted resolved).trans (if_neg (by simp [hres]))

/-! ### Submission -/

theorem wp_record_other (i : Intake) {x : Wanted × List MagnetCandidate} (ha : x.1.avid ≠ avid)
    {F : Option AcquisitionRecord → Course → Prop} (h : Tracks avid F w) :
    (do
      checkCancelled (.submitNext x.1.avid)
      discard (Intake.recordAndSubmit i x.1.avid x.2 x.1.dir) : M Unit).wp (World.Step A ()) (fun _ _ => True)
      (fun _ => Tracks avid F) (fun _ _ => True) w := by
  unfold Intake.recordAndSubmit
  rw [wp_bind]
  refine wp_mono (wp_elsewhere (uses_ok trivial) (stands_here avid w)) (fun _ w₁ hs => ?_) fun _ _ h => h
  rw [wp_discard, wp_bind]
  refine wp_mono (wp_elsewhere (uses_ok trivial) hs) (fun at_ w₂ hs => ?_) fun _ _ h => h
  rw [wp_bind]
  refine wp_mono (wp_elsewhere (uses_discard (elsewhere_addAttempts _ _)) hs) (fun _ w₃ hs => ?_) fun _ _ h => h
  exact wp_mono (wp_submitNext_other ha hs _ _) (fun _ _ hs => h.keep hs) fun _ _ h => h

theorem wp_record_own (i : Intake) {x : Wanted × List MagnetCandidate} (hx : x.1.avid = avid) (hwait : Waiting row₀ r)
    (hs : Stands avid (some r) c w) (hheld : c.held = []) (htaken : c.taken = false) (hoffered : c.offered rd magnet ≠ []) :
    (do
      checkCancelled (.submitNext x.1.avid)
      discard (Intake.recordAndSubmit i x.1.avid x.2 x.1.dir) : M Unit).wp (World.Step A ()) (fun _ _ => True)
      (fun _ => Tracks avid (Ends rd magnet row₀)) (fun _ _ => True) w := by
  subst hx
  unfold Intake.recordAndSubmit
  rw [wp_bind]
  refine wp_mono (wp_elsewhere (uses_ok trivial) hs) (fun _ w₁ hs => ?_) fun _ _ h => h
  rw [wp_discard, wp_bind]
  refine wp_mono (wp_elsewhere (uses_ok trivial) hs) (fun at_ w₂ hs => ?_) fun _ _ h => h
  rw [wp_bind]
  refine wp_mono (wp_elsewhere (uses_discard (elsewhere_addAttempts _ _)) hs) (fun _ w₃ hs => ?_) fun _ _ h => h
  have hc : c.given True false = c := by
    rw [Course.given, if_pos trivial, ← htaken]
  refine wp_mono (wp_submitNext_own (c := c) (hc.symm ▸ hs) hwait.1 _ _) ?_ fun _ _ h => h
  rintro submitted w₄ (⟨-, r', hstate, hs⟩ | ⟨-, hs⟩)
  · exact hs.tracks (.submitted hstate (by simp [Course.given, hheld]) (by simp [Course.given]))
  · rw [hc] at hs
    exact hs.tracks (.untaken hwait hheld hoffered htaken)

theorem wp_submitAll {resolved : List (Wanted × List MagnetCandidate)}
    (h : Tracks avid (Resolved rd avid magnet row₀ (resolved.filter (·.1.avid = avid))) w) :
    (p.submitAll resolved).wp (World.Step A ()) (fun _ _ => True) (fun _ => Tracks avid (Ends rd magnet row₀))
      (fun _ _ => True) w := by
  rcases h with ⟨hnone, hends⟩ | ⟨dir, r, candidates, hone, hrow, hwait, hheld, htaken, hoffered⟩
  · exact wp_foldEach_none (P := fun _ => Tracks avid (Ends rd magnet row₀))
      (fun _ _ _ ha h => wp_record_other p.intake ha h) hnone hends
  · refine wp_foldEach_one
      (P := fun _ => Tracks avid fun row c =>
        row = some r ∧ c.held = [] ∧ c.taken = false ∧ c.offered rd magnet ≠ [])
      (Q := fun _ => Tracks avid (Ends rd magnet row₀)) (fun _ _ _ ha h => wp_record_other p.intake ha h) ?_
      (fun _ _ _ ha h => wp_record_other p.intake ha h) hone ⟨hrow, hheld, htaken, hoffered⟩
    rintro _ w ⟨hrow, hheld, htaken, hoffered⟩
    exact wp_record_own p.intake rfl hwait ⟨hrow, rfl⟩ hheld htaken hoffered

/-! ### The poll -/

/-- A feed names each AVID once. -/
theorem sightedAvids_nodup (rd : Readers) (items : List FeedItem) : ((Rss.sightedAvids rd items).map (·.1)).Nodup := by
  unfold Rss.sightedAvids
  suffices h : ∀ acc : List (Avid × FeedItem), (acc.map (·.1)).Nodup →
      ((items.foldl (Rss.addItem rd) acc).map (·.1)).Nodup from h [] List.nodup_nil
  induction items with
  | nil => exact fun _ h => h
  | cons item items ih =>
    intro acc h
    refine ih _ ?_
    unfold Rss.addItem
    dsimp only
    split
    · exact h
    · rename_i hnew
      simp only [not_or] at hnew
      simp only [List.map_append, List.map_cons, List.map_nil]
      exact List.nodup_append.2 ⟨h, List.nodup_singleton _, by
        rintro a ha b hb rfl
        exact hnew.2 (List.mem_singleton.1 hb ▸ ha)⟩

theorem wp_ingest {run : RssRun} (category : RssCategory) {items : List FeedItem} {item : FeedItem}
    (hi : (avid, item) ∈ Rss.sightedAvids p.intake.readers items) (hs : Stands avid row₀ {} w) :
    (p.ingest run category items).wp (World.Step A ()) (fun _ _ => True)
      (fun _ => Tracks avid (Ends p.intake.readers (p.intake.readers.magnetFromHtml item.content avid) row₀))
      (fun _ _ => True) w := by
  unfold Rss.ingest
  rw [wp_bind]
  refine wp_mono (wp_elsewhere (uses_ok trivial) hs) (fun at_ w₁ hs => ?_) fun _ _ h => h
  rw [wp_bind]
  refine wp_mono (wp_foldEach_one
    (P := fun acc => Tracks avid (Untouched row₀ (acc.2.filter (·.avid = avid))))
    (Q := fun acc => Tracks avid (Listed p.intake.readers avid (p.intake.readers.magnetFromHtml item.content avid) row₀
      (acc.2.filter (·.avid = avid))))
    (fun _ _ _ ha h => wp_sight_other category at_ ha h) (fun acc w h => wp_sight_own category at_ item h)
    (fun _ _ _ ha h => wp_sight_other category at_ ha h) (filter_of_nodup (sightedAvids_nodup _ _) hi rfl)
    ⟨rfl, hs.row, hs.course⟩) (fun acc w₂ hlisted => ?_) fun _ _ h => h
  -- an early return has nothing wanted left, so the row stands as the sightings left it
  have ended : ∀ {xs : List Wanted} {w : World Unit}, xs = [] →
      Tracks avid (Listed p.intake.readers avid (p.intake.readers.magnetFromHtml item.content avid) row₀
        (xs.filter (·.avid = avid))) w →
      Tracks avid (Ends p.intake.readers (p.intake.readers.magnetFromHtml item.content avid) row₀) w := by
    rintro xs w rfl (⟨-, hends⟩ | ⟨dir, r, hone, -⟩)
    · exact hends
    · cases hone
  obtain ⟨run, wanted⟩ := acc
  dsimp only at hlisted ⊢
  split
  · exact ended ‹_› hlisted
  · rw [wp_bind]
    refine wp_mono (wp_elsewhere (uses_ok trivial) (stands_here avid w₂)) (fun _ w₃ hs => ?_) fun _ _ h => h
    have hlisted := hlisted.keep hs
    rw [wp_bind]
    refine wp_mono (wp_skipLibraryHeld hlisted) (fun kept w₄ hlisted => ?_) fun _ _ h => h
    split
    · exact ended ‹_› hlisted
    · rw [wp_bind]
      refine wp_mono (wp_elsewhere (uses_ok trivial) (stands_here avid w₄)) (fun _ w₅ hs => ?_) fun _ _ h => h
      have hlisted := hlisted.keep hs
      rw [wp_bind]
      refine wp_mono (wp_resolveAll hlisted) (fun resolved w₆ hresolved => ?_) fun _ _ h => h
      rw [wp_bind]
      refine wp_mono (wp_elsewhere (uses_ok trivial) (stands_here avid w₆)) (fun _ w₇ hs => ?_) fun _ _ h => h
      rw [wp_bind]
      exact wp_mono (wp_submitAll (hresolved.keep hs)) (fun _ w₈ hends => hends) fun _ _ h => h

/-- The feed names the AVID in an item the cursor does not know, this one first. -/
def Sighted (p : Rss) (s : SubscriptionRecord) (items : List FeedItem) (avid : Avid) (item : FeedItem) : Prop :=
  s.seedPending = false ∧ (avid, item) ∈ Rss.sightedAvids p.intake.readers (Rss.freshItems s items)

/-- A poll that stored its cursor has brought every AVID it sighted to one of its ends. -/
theorem wp_pollItems {run : RssRun} (category : RssCategory) {s : SubscriptionRecord} {items : List FeedItem}
    {item : FeedItem} (hi : Sighted p s items avid item) (hs : Stands avid row₀ {} w) :
    (p.pollItems run category s items).wp (World.Step A ()) (fun _ _ => True)
      (fun _ => Tracks avid (Ends p.intake.readers (p.intake.readers.magnetFromHtml item.content avid) row₀))
      (fun _ _ => True) w := by
  obtain ⟨hseed, hi⟩ := hi
  unfold Rss.pollItems Rss.ingestFresh
  rw [if_neg (by rw [hseed]; decide), if_neg (by intro he; rw [he] at hi; cases hi), wp_bind]
  refine wp_mono (wp_ingest category hi hs) (fun run w₁ hends => ?_) fun _ _ h => h
  rw [wp_bind]
  refine wp_mono (wp_elsewhere (uses_ok trivial) (stands_here avid w₁)) (fun at_ w₂ hs => ?_) fun _ _ h => h
  rw [wp_bind]
  exact wp_mono (wp_elsewhere (uses_ok trivial) hs) (fun _ w₃ hs => hends.keep hs) fun _ _ h => h

end Stages

end EmbyxManager
