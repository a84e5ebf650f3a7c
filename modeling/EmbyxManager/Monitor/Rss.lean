import EmbyxManager.Monitor.Intake
/-!
# Subscription polling

`RssPipeline.run`: feed items to AVIDs, each AVID recorded under the category
that may file it, those the library holds settled, the rest resolved and
submitted through the shared intake. A subscription whose poll raises keeps its
cursor.

What the pipeline remembers during a run (who is subscribed where, what the
catalog said) is passed along; a poll that raises forgets the catalog's answers
and nothing else depends on them.
-/

namespace EmbyxManager
open Atom AcquisitionRepository

structure RssCategory where
  label : String
  taskDirPath : String
  deriving DecidableEq

/-- `rss_source`. -/
def rssSource (label : String) : String := "rss:" ++ label

/-- What an RSS pipeline is built with. -/
structure Rss where
  /-- In the order of their precedence. -/
  categories : List RssCategory
  intake : Intake
  /-- There is a catalog to ask for credits, and for talents by name. -/
  castLookup : Bool
  talentLookup : Bool
  /-- `str.casefold`. -/
  casefold : String → String

/-- What a run remembers. -/
structure RssRun where
  /-- Category label per subscribed talent. -/
  talentCategories : List (Nat × String)
  /-- What the catalog answered for an AVID. -/
  credits : List (Avid × Option CreditedWork)

/-- The category a sighting files under. -/
structure Filing where
  source : String
  taskDir : String
  yieldsTo : List String
  deriving DecidableEq

/-- One accepted sighting on its way to submission. -/
structure Wanted where
  avid : Avid
  itemMagnet : Option String
  dir : String
  deriving DecidableEq

namespace Rss

/-! ## The feed -/

/-- `feed_url`. -/
def feedUrl (s : SubscriptionRecord) : String :=
  match s.kind with
  | .avbaseTalent => "https://www.avbase.net/talents/" ++ (s.talentId.map toString).getD "None" ++ "/feed"
  | .rss => s.url.getD ""

/-- `CURSOR_LIMIT`. -/
def cursorLimit : Nat := 500

/-- Newest last, each key once, capped. -/
def trimCursor (keys : List String) : List String :=
  let unique := keys.eraseDups
  unique.drop (unique.length - cursorLimit)

/-- The talent the catalog lists the subscription's name under, if its id is another one now. -/
def movedTalent (p : Rss) (s : SubscriptionRecord) : M (Option AvbaseTalent) :=
  match s.kind, s.name.filter (· ≠ ""), p.talentLookup with
  | .avbaseTalent, some name, true => do
    match ← (ask (.talent name)).attempt with
    | .error _ | .ok none => pure none
    | .ok (some talent) =>
      if some talent.talentId = s.talentId then pure none
      else if p.casefold name ∈ talent.names then pure (some talent)
      else pure none
  | _, _, _ => pure none

/-- The talent's category moves to its new id. -/
def relink (run : RssRun) (old : Option Nat) (new : Nat) : RssRun :=
  match old.bind fun id => (run.talentCategories.lookup id).map (id, ·) with
  | none => run
  | some (id, category) =>
    let rest := run.talentCategories.filter (·.1 ≠ id)
    { run with talentCategories := if new ∈ rest.map (·.1) then rest else rest ++ [(new, category)] }

/-- Follow a talent whose feed is gone; none keeps the 404. -/
def relinkTalent (p : Rss) (run : RssRun) (s : SubscriptionRecord) : M (Option (RssRun × SubscriptionRecord)) := do
  match ← movedTalent p s with
  | none => pure none
  | some talent => do
    let at_ ← now
    let aliases := if talent.aliases = [] then s.aliases else talent.aliases
    match ← (ask (.relinkTalent s.id talent.talentId aliases at_)).attempt with
    | .error .subscriptionExists =>
      .raise (.talentMoved ("AVBase now lists " ++ s.name.getD "" ++ " as talent " ++ toString talent.talentId ++
        ", which another subscription already follows"))
    | .error e => .raise e
    | .ok none => pure none
    | .ok (some relinked) => pure (some (relink run s.talentId talent.talentId, relinked))

/-- The items of the feed, and the subscription they were read for. -/
def fetchFeed (p : Rss) (run : RssRun) (s : SubscriptionRecord) :
    M (RssRun × Except Exn (SubscriptionRecord × List FeedItem)) := do
  match ← (ask (.fetchFeed (feedUrl s))).attempt with
  | .ok items => pure (run, .ok (s, items))
  | .error (.httpStatus code) =>
    if code ≠ 404 then pure (run, .error (.httpStatus code))
    else do
      match ← (relinkTalent p run s).attempt with
      | .error e => pure (run, .error e)
      | .ok none => pure (run, .error (.httpStatus code))
      | .ok (some (run', relinked)) => do
        match ← (ask (.fetchFeed (feedUrl relinked))).attempt with
        | .ok items => pure (run', .ok (relinked, items))
        | .error e => pure (run', .error e)
  | .error e => pure (run, .error e)

/-! ## Where a sighting files -/

/-- An AVID is read from the item's title, else from its link; empty when from neither. -/
def avidOf (rd : Readers) (item : FeedItem) : Avid :=
  let fromLink :=
    let candidate := rd.avidCandidateFromLink item.link
    if candidate = "" then "" else rd.getAvid candidate
  match item.title.filter (· ≠ "") with
  | none => fromLink
  | some title => if rd.getAvid title = "" then fromLink else rd.getAvid title

/-- The ledger sources of the categories configured ahead of this one. -/
def outrankingSources (categories : List RssCategory) (category : RssCategory) : List String :=
  (categories.takeWhile fun c => c.label ≠ category.label).map fun c => rssSource c.label

def ownFiling (p : Rss) (category : RssCategory) : Filing :=
  ⟨rssSource category.label, category.taskDirPath, outrankingSources p.categories category⟩

/-- What the catalog says, asked once a run; an unreadable catalog says nothing. -/
def castOf (run : RssRun) (avid : Avid) : M (RssRun × Option CreditedWork) :=
  match run.credits.lookup avid with
  | some cast => pure (run, cast)
  | none => do
    let cast := (← (ask (.cast avid)).attempt).toOption.join
    pure ({ run with credits := run.credits ++ [(avid, cast)] }, cast)

/-- The earliest category ahead in which a credited talent is subscribed. -/
def creditedOwner (p : Rss) (run : RssRun) (own : Filing) (cast : CreditedWork) : Option Filing :=
  let subscribed := cast.talentIds.filterMap fun talent => run.talentCategories.lookup talent
  ((p.categories.take own.yieldsTo.length).find? fun owner => owner.label ∈ subscribed).map fun owner =>
    ⟨rssSource owner.label, owner.taskDirPath, own.yieldsTo.takeWhile (· ≠ rssSource owner.label)⟩

/-- Where a sighting files, and what the catalog said if it was asked. -/
def filingFor (p : Rss) (run : RssRun) (avid : Avid) (own : Filing) : M (RssRun × Filing × Option CreditedWork) :=
  if own.yieldsTo = [] ∨ !p.castLookup then pure (run, own, none)
  else do
    let settled (record : AcquisitionRecord) : Bool :=
      record.source ∈ own.yieldsTo ∨ record.state ∉ AcquisitionState.recheckable
    if (← get avid).any settled then pure (run, own, none)
    else do
      match ← castOf run avid with
      | (run, none) => pure (run, own, none)
      | (run, some cast) => pure (run, (creditedOwner p run own cast).getD own, some cast)

/-- The row's directory, when a category ahead owns the row. -/
def filingDir (avid : Avid) (filing : Filing) : M String :=
  if filing.yieldsTo = [] then pure filing.taskDir
  else do
    match (← get avid).bind (·.taskDirPath) with
    | none => pure filing.taskDir
    | some dir => pure (if dir = "" then filing.taskDir else dir)

/-! ## Ingesting the new items -/

/-- Each AVID once, with the body of the first item it was read from. -/
def addItem (rd : Readers) (avids : List (Avid × FeedItem)) (item : FeedItem) : List (Avid × FeedItem) :=
  let avid := avidOf rd item
  if avid = "" ∨ avid ∈ avids.map (·.1) then avids else avids ++ [(avid, item)]

def sightedAvids (rd : Readers) (items : List FeedItem) : List (Avid × FeedItem) := items.foldl (addItem rd) []

/-- One AVID of the feed: file it, record the sighting, and remember it when it was accepted. -/
def sight (p : Rss) (category : RssCategory) (at_ : Time) (acc : RssRun × List Wanted) (sighted : Avid × FeedItem) :
    M (RssRun × List Wanted) := do
  let (avid, item) := sighted
  let itemMagnet := p.intake.readers.magnetFromHtml item.content avid
  let (run, filing, cast) ← filingFor p acc.1 avid (ownFiling p category)
  if ← discover avid at_
      { source := filing.source, taskDirPath := filing.taskDir, releaseDate := cast.bind (·.releaseDate),
        wake := itemMagnet.isSome, yieldsTo := filing.yieldsTo } then do
    let dir ← filingDir avid filing
    pure (run, acc.2 ++ [⟨avid, itemMagnet, dir⟩])
  else pure (run, acc.2)

/-- Settle an AVID the library already holds; false when it does not, or cannot be asked. -/
def skipHeld (w : Wanted) : M Bool := do
  checkCancelled (.library w.avid)
  match ← (ask (.libraryHoldings w.avid (some w.dir))).attempt with
  | .error _ | .ok [] => pure false
  | .ok held => do
    match ← get w.avid with
    | none => pure true
    | some record =>
      if record.state ∈ AcquisitionState.recheckable then do
        let at_ ← now
        discard (transition w.avid record.state .archived at_ (some "already in library") none (some held))
        pure true
      else pure true

/-- Drop the AVIDs the library already holds. -/
def skipLibraryHeld (wanted : List Wanted) : M (List Wanted) :=
  Prog.foldEach wanted [] fun kept w => do
    if ← skipHeld w then pure kept else pure (kept ++ [w])

/-- Resolve them all at once, in the order they finish; park those without a magnet. -/
def resolveAll (p : Rss) (wanted : List Wanted) : M (List (Wanted × List MagnetCandidate)) := do
  let order ← Prog.call (Op.gathered (wanted.map (·.avid)))
  let finishing := order.filterMap fun avid => wanted.find? (·.avid = avid)
  let resolved ← Prog.foldEach finishing [] fun resolved w => do
    let candidates ← Intake.resolveOrNone p.intake w.avid w.itemMagnet
    pure (if candidates = [] then resolved else resolved ++ [(w, candidates)])
  Prog.forEach (wanted.filter fun w => w.avid ∉ resolved.map (·.1.avid)) fun w => Intake.parkUnresolved p.intake w.avid
  pure resolved

def submitAll (p : Rss) (resolved : List (Wanted × List MagnetCandidate)) : M Unit :=
  Prog.forEach resolved fun (w, candidates) => do
    checkCancelled (.submitNext w.avid)
    -- whether a magnet went in is not looked at
    discard (Intake.recordAndSubmit p.intake w.avid candidates w.dir)

def ingest (p : Rss) (run : RssRun) (category : RssCategory) (items : List FeedItem) : M RssRun := do
  let at_ ← now
  let (run, wanted) ← Prog.foldEach (sightedAvids p.intake.readers items) (run, []) (sight p category at_)
  if wanted = [] then pure run
  else do
    checkCancelled .ingest
    let kept ← skipLibraryHeld wanted
    if kept = [] then pure run
    else do
      checkCancelled .resolve
      let resolved ← resolveAll p kept
      checkCancelled .submit
      submitAll p resolved
      pure run

/-! ## One subscription, and the run -/

/-- The items the cursor does not know. -/
def freshItems (s : SubscriptionRecord) (items : List FeedItem) : List FeedItem :=
  items.filter fun item => item.key ∉ s.cursor

/-- Ingest what is new, if anything is. -/
def ingestFresh (p : Rss) (run : RssRun) (category : RssCategory) (fresh : List FeedItem) : M RssRun :=
  if fresh = [] then pure run else ingest p run category fresh

/-- The feed is in: seed the cursor from it, or ingest what is new and move the cursor on. -/
def pollItems (p : Rss) (run : RssRun) (category : RssCategory) (s : SubscriptionRecord) (items : List FeedItem) :
    M RssRun :=
  if s.seedPending then do
    let at_ ← now
    ask (.recordPoll s.id at_ (some (trimCursor (items.map (·.key)))) none)
    pure run
  else do
    let run ← ingestFresh p run category (freshItems s items)
    let at_ ← now
    ask (.recordPoll s.id at_ (some (trimCursor (s.cursor ++ (freshItems s items).map (·.key)))) none)
    pure run

/-- `_poll_subscription`. -/
def pollSubscription (p : Rss) (run : RssRun) (category : RssCategory) (s : SubscriptionRecord) :
    M (RssRun × Except Exn RssRun) := do
  let (run, fetched) ← fetchFeed p run s
  match fetched with
  | .error e => pure (run, .error e)
  | .ok (s, items) => do
    let polled ← (pollItems p run category s items).attempt
    pure (run, polled)

/-- `_describe`: the exception's type and text, capped. -/
def describe (e : Exn) : String :=
  let text := if e.str = "" then e.typeName else e.typeName ++ ": " ++ e.str
  String.ofList (text.toList.take 500)

/-- One subscription's failure is not the run's, but a cancellation is. -/
def poll (p : Rss) (category : RssCategory) (run : RssRun) (s : SubscriptionRecord) : M RssRun := do
  checkCancelled (.subscription s.id)
  let (run, polled) ← pollSubscription p run category s
  match polled with
  | .ok run => pure run
  | .error .runCancelled => .raise .runCancelled
  | .error e => do
    let at_ ← now
    ask (.recordPoll s.id at_ none (some (describe e)))
    pure run

/-- A subscription whose category is gone is reported, not guessed at. -/
def reportOrphan (s : SubscriptionRecord) : M Unit := do
  let at_ ← now
  ask (.recordPoll s.id at_ none (some ("category " ++ s.category ++ " is not configured")))

/-- The category of each subscribed talent: the first subscription counts. -/
def talentCategories (subscriptions : List SubscriptionRecord) : List (Nat × String) :=
  subscriptions.foldl
    (fun known s =>
      match s.talentId with
      | none => known
      | some talent => if talent ∈ known.map (·.1) then known else known ++ [(talent, s.category)]) []

/-- Poll every enabled subscription, category by category. -/
def run (p : Rss) : M Unit := do
  let subscriptions := (← ask .listSubscriptions).filter (·.enabled)
  discard (Prog.foldEach p.categories (⟨talentCategories subscriptions, []⟩ : RssRun) fun run category =>
    Prog.foldEach (subscriptions.filter (·.category = category.label)) run (poll p category))
  Prog.forEach (subscriptions.filter fun s => s.category ∉ p.categories.map (·.label)) reportOrphan

end Rss

end EmbyxManager
