import EmbyxManager.Monitor.FeedConclusions
import EmbyxManager.Monitor.Polled
/-!
# The order of a feed

A poll reads an AVID from any number of items, and takes the magnet of the
first one. Whom it accepts and what it records does not hang on the order of the
items, then, exactly when the items of each AVID agree on what they bring.
-/

namespace EmbyxManager
open Atom Prog AcquisitionRepository

namespace Rss

/-! ## One poll -/

/-- The first item an AVID is read from. -/
def firstItem (rd : Readers) (items : List FeedItem) (avid : Avid) : Option FeedItem :=
  if avid = "" then none else items.find? fun item => avidOf rd item = avid

def firstMagnet (rd : Readers) (items : List FeedItem) (avid : Avid) : Option String :=
  (firstItem rd items avid).bind fun item => rd.magnetFromHtml item.content avid

/-- Discovery accepts the AVID from these items. -/
def acceptedFrom (p : Rss) (at_ : Time) (l : Ledger) (items : List FeedItem) (avid : Avid) : Bool :=
  (firstItem p.intake.readers items avid).isSome &&
    accepts (l.acq avid) at_ (firstMagnet p.intake.readers items avid).isSome

/-- What a poll of these items does about an AVID. -/
def polled (p : Rss) (run : RssRun) (category : RssCategory) (out : World.Outside) (at_ : Time) (l : Ledger)
    (items : List FeedItem) (avid : Avid) : Doing where
  accepted := acceptedFrom p at_ l items avid
  recorded :=
    if acceptedFrom p at_ l items avid && !settled p run category out at_ avid (l.acq avid) then
      found p.intake.readers out avid (firstMagnet p.intake.readers items avid)
    else []

/-- The magnets one submission may try are fewer than its recursion goes deep, for every item. -/
def Within (p : Rss) (out : World.Outside) (l : Ledger) (items : List FeedItem) : Prop :=
  ∀ item ∈ items, ∀ candidates,
    found p.intake.readers out (avidOf p.intake.readers item)
      (p.intake.readers.magnetFromHtml item.content (avidOf p.intake.readers item)) = candidates → candidates ≠ [] →
    Intake.mayTry l (avidOf p.intake.readers item) candidates < p.intake.recursionLimit

end Rss

section Poll
variable {out : World.Outside} {at_ : Time} {run : RssRun} {w : World Unit} {p : Rss} {l : Ledger} {category : RssCategory}
  {items : List FeedItem}

/-- The stages' lists of every AVID, as they stand. -/
abbrev AllWait {β : Type} (l : Ledger) (key : β → Avid) (c : Avid → Bool) (x : Avid → β) (d : Avid → Doing) (xs : List β)
    (w : World Unit) : Prop :=
  ∀ a, Waits a l (c a) (x a) (d a) (xs.filter (key · = a)) w

/-- What is shown for each AVID, and that the program ends normally. -/
theorem wp_each {α : Type} {q : M α} {Q : Avid → α → World Unit → Prop} (hq : Returns out q)
    (h : ∀ a, q.wp (World.Step (answering out) ()) (fun _ _ => True) (Q a) (fun _ _ => True) w) :
    q.wp (World.Step (answering out) ()) (fun _ _ => True) (fun x w' => ∀ a, Q a x w') (fun _ _ => False) w :=
  wp_mono (wp_forall (Y := fun _ _ _ => True) (hq w trivial) h) (fun _ _ h => h.2) fun _ _ h => h

theorem AllWait.check {β : Type} {key : β → Avid} {c : Avid → Bool} {x : Avid → β} {d : Avid → Doing} {xs : List β}
    (h : AllWait l key c x d xs w) (point : Point) : (checkCancelled point).wp (World.Step (answering out) ()) (fun _ _ => True)
      (fun _ => AllWait l key c x d xs) (fun _ _ => False) w :=
  wp_each (returns_check point) fun a => wp_mono (wp_away a (uses_ok trivial)) (fun _ _ hu => (h a).keep hu) fun _ _ h => h

end Poll

/-! ## The order of the items -/

namespace Rss

/-- Parked, with a timer that is not due. -/
def Cooling (at_ : Time) (row : AcquisitionRecord) : Prop :=
  row.state ∈ AcquisitionState.retryable ∧ ∃ next, row.nextActionAt = some next ∧ at_ < next

/-- A row still cooling down was accepted. -/
def Woken (l : Ledger) (at_ : Time) (avid : Avid) (h : List Event) : Prop :=
  ∃ row, l.acq avid = some row ∧ Cooling at_ row ∧ (doing avid h).accepted = true

/-- The same AVIDs woken and accepted, and the same candidates recorded for each. -/
structure Alike (l : Ledger) (at_ : Time) (h h' : List Event) : Prop where
  woken : ∀ avid, Woken l at_ avid h ↔ Woken l at_ avid h'
  accepted : ∀ avid, (doing avid h).accepted = (doing avid h').accepted
  recorded : ∀ avid candidate, candidate ∈ (doing avid h).recorded ↔ candidate ∈ (doing avid h').recorded

/-- The magnet as a candidate of its own, none when it is not usable. -/
def usable (rd : Readers) (magnet : Option String) : List MagnetCandidate := Intake.collect rd "rss_item" [] magnet

/-- A usable magnet of any item wakes its AVID, and its hash is among the candidates of an accepted AVID the library
does not hold, when the resolvers answer. -/
def Heard (rd : Readers) (out : World.Outside) (l : Ledger) (at_ : Time) (items : List FeedItem) (h : List Event) : Prop :=
  ∀ item ∈ items, avidOf rd item ≠ "" → ∀ candidate ∈ usable rd (rd.magnetFromHtml item.content (avidOf rd item)),
    (∀ row, l.acq (avidOf rd item) = some row → Cooling at_ row → Woken l at_ (avidOf rd item) h) ∧
    ((doing (avidOf rd item) h).accepted = true → (∀ dir, out (.libraryHoldings (avidOf rd item) dir) = .ok []) →
      (∃ sukebei, out (.sukebei (avidOf rd item)) = .ok sukebei) →
      ∃ c ∈ (doing (avidOf rd item) h).recorded, c.infoHash = candidate.infoHash)

end Rss

section Order
variable {p : Rss} {run : RssRun} {category : RssCategory} {out : World.Outside} {l : Ledger} {items items' : List FeedItem}
  {at_ : Time} {h : List Event} {rd : Readers}

/-! ### Polls -/

end Order

/-! ## Two items for one AVID -/

end EmbyxManager
