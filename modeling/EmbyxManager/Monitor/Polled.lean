import EmbyxManager.Monitor.Ingest
import EmbyxManager.Monitor.Rearmed
/-!
# What a poll does about one AVID

A poll alone with the ledger, against an outside that answers the same question
the same way. What its stages do about an AVID can then be computed from the
row, the answers, and the magnet of the item the AVID was read from.
-/

namespace EmbyxManager
open Atom Prog AcquisitionRepository

/-- Nothing is cancelled, no connection to the database fails, and library, catalog and
resolvers answer `out`. CloudDrive may answer anything, and the date finder does not raise. -/
def answering (out : World.Outside) : Policy
  | .sql _, .error (.failure _) => False
  | .checkCancelled _, .error _ => False
  | .ask (.addOfflineFiles ..), _ => True
  | .ask (.releaseDate _), .ok _ => True
  | .ask (.releaseDate _), .error _ => False
  | .ask q, r => r = (out q).mapError (·.val)
  | _, _ => True

/-! ## What is done about an AVID -/

/-- Accepted AVIDs are those the library is asked about; recorded is what `add_attempts` is given. -/
structure Doing where
  accepted : Bool := false
  recorded : List MagnetCandidate := []
  deriving DecidableEq

def Doing.after (d : Doing) (avid : Avid) : Event → Doing
  | ⟨.ask (.libraryHoldings a _), _⟩ => if a = avid then { d with accepted := true } else d
  | ⟨.sql (.addAttempts a candidates _), _⟩ => if a = avid then { d with recorded := d.recorded ++ candidates } else d
  | _ => d

def doing (avid : Avid) : List Event → Doing
  | [] => {}
  | e :: h => (doing avid h).after avid e

/-! ## What is to be done -/

namespace Rss

/-- What the catalog says of the AVID, in this run. -/
def castAnswer (run : RssRun) (out : World.Outside) (avid : Avid) : Option CreditedWork :=
  (run.credits.lookup avid).getD (out (.cast avid)).toOption.join

/-- Where a sighting of the AVID files, given its row. -/
def filed (p : Rss) (run : RssRun) (out : World.Outside) (avid : Avid) (own : Filing) (row : Option AcquisitionRecord) :
    Filing × Option CreditedWork :=
  if own.yieldsTo = [] ∨ !p.castLookup then (own, none)
  else if row.any fun record => record.source ∈ own.yieldsTo ∨ record.state ∉ AcquisitionState.recheckable then (own, none)
  else
    match castAnswer run out avid with
    | none => (own, none)
    | some cast => ((creditedOwner p run own cast).getD own, some cast)

/-- The sighting as discovery is given it. -/
def sighting (filed : Filing × Option CreditedWork) (wake : Bool) : SightingArgs :=
  { source := filed.1.source, taskDirPath := filed.1.taskDir, releaseDate := filed.2.bind (·.releaseDate), wake
    yieldsTo := filed.1.yieldsTo }

/-- The row an accepted sighting makes or leaves. -/
def sightedRow (avid : Avid) (at_ : Time) (s : SightingArgs) : Option AcquisitionRecord → AcquisitionRecord
  | none => Ledger.discoveredRow avid s.source s.taskDirPath s.nextActionAt s.releaseDate at_
  | some row => row.resighted s

/-- The directory a sighting is filed in, given its row. -/
def dirOf (filing : Filing) (row : AcquisitionRecord) : String :=
  if filing.yieldsTo = [] then filing.taskDir
  else
    match row.taskDirPath with
    | none => filing.taskDir
    | some dir => if dir = "" then filing.taskDir else dir

/-- The library shows the AVID. -/
def shown (out : World.Outside) (avid : Avid) (dir : String) : Bool :=
  match out (.libraryHoldings avid (some dir)) with
  | .error _ | .ok [] => false
  | .ok _ => true

/-- The candidates found for the AVID. -/
def found (rd : Readers) (out : World.Outside) (avid : Avid) (magnet : Option String) : List MagnetCandidate :=
  match out (.sukebei avid) with
  | .error _ => []
  | .ok sukebei => Intake.ranked rd sukebei magnet ((out (.javbus avid)).toOption.getD [])

/-- Discovery accepts an AVID with this row. -/
def accepts (row : Option AcquisitionRecord) (at_ : Time) (wake : Bool) : Bool :=
  row.all fun r => accepted r at_ wake

/-- The directory an accepted AVID with this row is filed in. -/
def targetDir (p : Rss) (run : RssRun) (category : RssCategory) (out : World.Outside) (at_ : Time) (avid : Avid)
    (row : Option AcquisitionRecord) : String :=
  let filed := p.filed run out avid (ownFiling p category) row
  dirOf filed.1 (sightedRow avid at_ (sighting filed false) row)

/-- The library shows the AVID there. -/
def settled (p : Rss) (run : RssRun) (category : RssCategory) (out : World.Outside) (at_ : Time) (avid : Avid)
    (row : Option AcquisitionRecord) : Bool :=
  shown out avid (targetDir p run category out at_ avid row)

end Rss

/-! ## What leaves an AVID alone -/

/-- The AVID's rows, and what has been done about it, are the same in both. -/
structure Unmoved (avid : Avid) (w w' : World Unit) : Prop where
  same : Ledger.SameOf avid w.ledger w'.ledger
  doing : doing avid (w'.history ()) = doing avid (w.history ())

theorem Unmoved.refl (avid : Avid) (w : World Unit) : Unmoved avid w w := ⟨.refl _ _, rfl⟩

theorem Unmoved.trans {avid : Avid} {w w' w'' : World Unit} (h : Unmoved avid w w') (h' : Unmoved avid w' w'') :
    Unmoved avid w w'' := ⟨h.same.trans h'.same, h'.doing.trans h.doing⟩

/-- The library is not asked, and no candidate recorded. -/
def Silent (avid : Avid) : Op → Prop
  | .ask (.libraryHoldings a _) | .sql (.addAttempts a ..) => a ≠ avid
  | _ => True

/-- Nor is a row of the AVID written. -/
def Away (avid : Avid) : Op → Prop
  | .sql s => Silent avid (.sql s) ∧ s.row ≠ some avid ∧ s.attemptsOf ≠ some avid
  | op => Silent avid op

theorem Away.silent {avid : Avid} {op : Op} (h : Away avid op) : Silent avid op := by
  cases op with
  | sql s => exact h.1
  | _ => exact h

theorem Books.silent {a avid : Avid} {op : Op} (h : Books a op) : Silent avid op := by
  cases op with
  | sql s =>
    cases s with
    | addAttempts => exact absurd h.1 (by simp [Sql.writesAttempts])
    | _ => trivial
  | ask q =>
    cases q with
    | libraryHoldings => exact h.elim
    | _ => trivial
  | _ => trivial

theorem Concerns.away {a avid : Avid} {op : Op} (h : Concerns a op) (ha : a ≠ avid) : Away avid op := by
  cases op with
  | sql s =>
    refine ⟨Books.silent (a := a) h, fun he => ?_, fun he => ?_⟩
    · rcases h.2 with hs | hs
      · rw [hs] at he; cases he
      · exact ha (Option.some.inj (hs.symm.trans he))
    · rw [Sql.attemptsOf_eq_none h.1] at he
      cases he
  | ask q =>
    cases q with
    | libraryHoldings b => exact fun he => ha (h.symm.trans he)
    | _ => trivial
  | _ => trivial

theorem away_get (a avid : Avid) : Away avid (.sql (.getAcquisition a)) :=
  ⟨trivial, by simp [Sql.row], by simp [Sql.attemptsOf]⟩

theorem Reads.away {op : Op} (h : Reads op) (avid : Avid) : Away avid op := by
  cases op with
  | sql s =>
    cases s with
    | getAcquisition b => exact away_get b avid
    | _ => exact h.elim
  | ask q =>
    cases q with
    | cast b => trivial
    | _ => exact h.elim
  | _ => exact h.elim

section Frames
variable {A : Policy} {avid : Avid} {w w' : World Unit} {α : Type}

theorem doing_silent {op : Op} (hop : Silent avid op) (r : Except Exn op.Res) (h : List Event) :
    doing avid (⟨op, r⟩ :: h) = doing avid h := by
  cases op with
  | sql s =>
    cases s with
    | addAttempts a => exact if_neg hop
    | _ => rfl
  | ask q =>
    cases q with
    | libraryHoldings a => exact if_neg hop
    | _ => rfl
  | _ => rfl

theorem silent_step {op : Op} {r : Except Exn op.Res} (hop : Silent avid op) (h : World.Step A () w op r w') :
    doing avid (w'.history ()) = doing avid (w.history ()) := by
  rw [history_step h, doing_silent hop]

theorem unmoved_step {op : Op} {r : Except Exn op.Res} (hop : Away avid op) (h : World.Step A () w op r w') :
    Unmoved avid w w' := by
  refine ⟨?_, silent_step hop.silent h⟩
  rcases ledger_step h with hl | ⟨s, x, rfl, hg⟩
  · rw [hl]
    exact .refl _ _
  · exact ⟨Sql.acq_frame hg hop.2.1, Sql.att_other hg hop.2.2⟩

theorem wp_away (avid : Avid) {p : M α} (hp : p.Uses (Away avid)) :
    p.wp (World.Step A ()) (fun _ _ => True) (fun _ => Unmoved avid w) (fun _ _ => True) w := by
  refine wp_mono (keeps_of_uses hp (fun _ _ _ _ => trivial) ?_ w (.refl avid w)) (fun _ _ h => h) fun _ _ _ => trivial
  exact fun w₁ op r w₂ hop h ht => h.trans (unmoved_step hop ht)

end Frames

/-! ## The stages, exactly -/

section Exact
variable {out : World.Outside} {avid a : Avid} {at_ : Time} {run : RssRun} {own : Filing} {w : World Unit} {p : Rss} {α : Type}

theorem told {q : Query} {r : Except Exn q.Res} {w' : World Unit} (h : World.Step (answering out) () w (.ask q) r w') :
    answering out (.ask q) r := by
  obtain ⟨t, l', -, hr, -⟩ := h
  exact hr

/-- A question that is answered from outside, whatever is made of its failing. -/
theorem wp_asked {q : Query} (hq : ∀ r, answering out (.ask q) r → r = (out q).mapError (·.val))
    {f : Except Exn q.Res → M α} {Q : α → World Unit → Prop} {X : Exn → World Unit → Prop}
    (h : ∀ w', World.Step (answering out) () w (.ask q) ((out q).mapError (·.val)) w' →
      (f ((out q).mapError (·.val))).wp (World.Step (answering out) ()) (fun _ _ => True) Q X w') :
    ((ask q).attempt >>= f).wp (World.Step (answering out) ()) (fun _ _ => True) Q X w := by
  rw [wp_bind, wp_attempt, wp_call]
  refine ⟨trivial, fun x w' ht => ?_, fun e w' ht => ?_⟩
  · have hr := hq _ (told ht)
    rw [hr] at ht ⊢
    exact h w' ht
  · have hr := hq _ (told ht)
    rw [hr] at ht ⊢
    exact h w' ht

/-- What the rounds of the others leave of a run, for an AVID. -/
structure SameRun (avid : Avid) (run run' : RssRun) : Prop where
  talents : run'.talentCategories = run.talentCategories
  credits : run'.credits.lookup avid = run.credits.lookup avid

theorem SameRun.refl (avid : Avid) (run : RssRun) : SameRun avid run run := ⟨rfl, rfl⟩

theorem SameRun.filed {run' : RssRun} (h : SameRun avid run run') (row : Option AcquisitionRecord) :
    p.filed run' out avid own row = p.filed run out avid own row := by
  unfold Rss.filed Rss.castAnswer Rss.creditedOwner
  rw [h.talents, h.credits]

theorem wp_resolveOrNone (i : Intake) (magnet : Option String) :
    (Intake.resolveOrNone i a magnet).wp (World.Step (answering out) ()) (fun _ _ => True)
      (fun candidates _ => candidates = Rss.found i.readers out a magnet) (fun _ _ => False) w := by
  unfold Intake.resolveOrNone Intake.resolve Rss.found
  rw [wp_bind, wp_attempt, wp_bind, wp_call]
  refine ⟨trivial, fun sukebei w₁ ht => ?_, fun e w₁ ht => ?_⟩
  · have hr : .ok sukebei = (out (.sukebei a)).mapError (·.val) := told ht
    cases hout : out (.sukebei a) with
    | error e => rw [hout] at hr; cases hr
    | ok found =>
      rw [hout] at hr
      cases hr
      refine wp_asked (fun r (h : answering out (.ask (.javbus a)) r) => h) fun w₂ _ => ?_
      cases out (.javbus a) <;> rfl
  · have hr : .error e = (out (.sukebei a)).mapError (·.val) := told ht
    cases hout : out (.sukebei a) with
    | error e => rfl
    | ok found => rw [hout] at hr; cases hr

end Exact

/-! ## One AVID through the stages -/

/-- On its way to submission: a row to be worked on, with the attempts the poll found. -/
structure Standby (avid : Avid) (l : Ledger) (w : World Unit) : Prop where
  row : ∃ r, w.ledger.acq avid = some r ∧ r.state ∈ AcquisitionState.recheckable
  att : ∀ n, w.ledger.att (avid, n) = l.att (avid, n)

/-- On a stage's list exactly if `c`, and there as `x`; this much is done about it. -/
structure Waits {β : Type} (avid : Avid) (l : Ledger) (c : Bool) (x : β) (d : Doing) (xs : List β) (w : World Unit) : Prop where
  list : xs = if c then [x] else []
  standby : c = true → Standby avid l w
  doing : doing avid (w.history ()) = d

section Stages
variable {out : World.Outside} {avid : Avid} {at_ : Time} {run : RssRun} {w w' : World Unit} {p : Rss} {l : Ledger}
  {category : RssCategory} {β : Type} {c : Bool} {x : β} {d : Doing} {xs : List β}

theorem Standby.keep (h : Standby avid l w) (hu : Unmoved avid w w') : Standby avid l w' where
  row := by
    obtain ⟨r, hr, hstate⟩ := h.row
    exact ⟨r, hu.same.acq.trans hr, hstate⟩
  att n := (hu.same.att n).trans (h.att n)

theorem Waits.keep (h : Waits avid l c x d xs w) (hu : Unmoved avid w w') : Waits avid l c x d xs w' :=
  ⟨h.list, fun hc => (h.standby hc).keep hu, hu.doing.trans h.doing⟩

/-! ### Discovery -/

/-- Before its round, an AVID of the feed is as the poll found it. -/
structure Fresh (avid : Avid) (l : Ledger) (run : RssRun) (acc : RssRun × List Wanted) (w : World Unit) : Prop where
  list : acc.2.filter (·.avid = avid) = []
  run : SameRun avid run acc.1
  same : Ledger.SameOf avid l w.ledger
  doing : doing avid (w.history ()) = {}

variable {magnet : Option String} {dir : String}

/-- Of the ledger, only what belongs to this AVID is written, and no candidate is recorded. -/
def Tries (b : Avid) : Op → Prop
  | .sql (.addAttempts ..) => False
  | .sql s => (s.row = none ∨ s.row = some b) ∧ (s.attemptsOf = none ∨ s.attemptsOf = some b)
  | .ask (.libraryHoldings ..) => False
  | _ => True

theorem Tries.silent {b : Avid} {op : Op} (h : Tries b op) : Silent avid op := by
  cases op with
  | sql s =>
    cases s with
    | addAttempts => exact h.elim
    | _ => trivial
  | ask q =>
    cases q with
    | libraryHoldings => exact h.elim
    | _ => trivial
  | _ => trivial

theorem Tries.away {b : Avid} {op : Op} (h : Tries b op) (hb : b ≠ avid) : Away avid op := by
  have own : ∀ {o : Option Avid}, o = none ∨ o = some b → o ≠ some avid := by
    rintro o (rfl | rfl) he
    · cases he
    · exact hb (Option.some.inj he)
  cases op with
  | sql s =>
    refine ⟨h.silent, ?_⟩
    cases s with
    | addAttempts => exact h.elim
    | _ => exact ⟨own h.1, own h.2⟩
  | ask q =>
    cases q with
    | libraryHoldings => exact h.elim
    | _ => trivial
  | _ => trivial

end Stages

/-! ## A poll ends normally -/

/-- The program never ends in an exception. -/
abbrev Returns {α : Type} (out : World.Outside) (p : M α) : Prop :=
  p.Keeps (World.Step (answering out) ()) (fun _ _ => True) (fun _ => True) fun _ _ => False

section Returns
variable {out : World.Outside} {α : Type} {p : Rss} {a : Avid} {at_ : Time}

theorem returns_check (point : Point) : Returns out (checkCancelled point) := by
  refine keeps_call (fun _ _ => trivial) (fun _ _ _ _ _ => trivial) ?_
  rintro w e w' - ⟨t, l', -, h, -⟩
  exact h

end Returns

end EmbyxManager
