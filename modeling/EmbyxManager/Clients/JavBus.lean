import EmbyxManager.Atom.Prog
import EmbyxManager.Core.Avid
import EmbyxManager.Core.Upper
/-!
# The pages of a JavBus star

A star's catalog is split over pages, each with links to some others. `get_total_page` jumps
to the highest page linked so far and probes behind it until a page is missing, empty or one
it has seen; `scrape` fetches all of them. On a catalog whose pages differ the two lose no
page, and whatever the site answers the search for the last page ends.
-/

namespace EmbyxManager.Clients

open Atom Atom.Prog

/-! ## Reading a page -/

/-- A reference as `urlparse` splits it. -/
structure Href where
  netloc : List Char
  path : List Char

/-- What `PyQuery` finds on a star's page: the references of its movie boxes, and all of them; none is a reference
that `urlparse` does not take. -/
structure Page where
  movieBoxes : List (Option Href)
  hrefs : List (Option Href)

/-- An answer of the site; no page is a text that `PyQuery` cannot read. -/
structure Response where
  page : Option Page

inductive JavBusExn where
  /-- `JavBusPaginationError`. -/
  | pagination (message : String)
  /-- A fetch whose last try failed, or was answered with a status of its own. -/
  | http
  /-- A text that is no document. -/
  | document
  /-- `int` of too many digits, or `urlparse` of what is no reference. -/
  | valueError
  /-- What the progress callback raises. -/
  | callback
  deriving DecidableEq

/-- The video IDs of a page. -/
abbrev VideoIds := List (List Char)

structure JavBusClient where
  /-- `urlparse(self.host).netloc`. -/
  netloc : List Char
  maxActorPages : Nat := 200
  /-- `repr` of a text. -/
  repr : String → String

/-- `path.rstrip('/').rsplit('/', 1)[-1].strip().upper()`. -/
def videoId (path : List Char) : List Char :=
  Core.strUpper (Core.strip ((path.reverse.dropWhile (· = '/')).takeWhile (· ≠ '/')).reverse)

open Regex in
/-- `page_pattern`, with the end that `fullmatch` asks for. -/
def pagePattern (actorId : String) : Regex :=
  .all [Regex.text (fun c x => x = c) ("/star/".toList ++ actorId.toList ++ ['/']),
    .group 1 (.seq (.one fun c => '1' ≤ c ∧ c ≤ '9') (.star true (.one isDecimal))), opt (.one (· = '/')),
    .aheadNot (.one fun _ => true)]

namespace JavBusClient
variable (c : JavBusClient) (actorId : String)

def urlparse : Option Href → Except JavBusExn Href
  | some href => .ok href
  | none => .error .valueError

/-- The page a reference leads to, if it leads to a page of the star. -/
def linkedPage (href : Option Href) : Except JavBusExn (Option Nat) := do
  let parsed ← urlparse href
  if parsed.netloc ≠ [] ∧ parsed.netloc ≠ c.netloc then .ok none
  else
    match ((pagePattern actorId).matchStart parsed.path).bind (·.group 1) with
    | none => .ok none
    | some digits =>
      match readInt digits with
      | none => .error .valueError
      | some page => .ok (some page)

/-- `_parse_actor_page`. -/
def parseActorPage (response : Response) : Except JavBusExn (VideoIds × List Nat) :=
  match response.page with
  | none => .error .document
  | some page => do
    let boxes ← page.movieBoxes.mapM urlparse
    let ids := (boxes.map fun href => videoId href.path).filter (· ≠ [])
    let linkedPages ← page.hrefs.mapM (c.linkedPage actorId)
    pure (ids.eraseDups, linkedPages.reduceOption)

end JavBusClient

/-! ## What the client asks for -/

inductive JavBusOp where
  /-- `_fetch_actor_page`, with its tries; no answer is a page that is not found. -/
  | fetchActorPage (page : Nat)
  | notifyProgress (completed : Nat) (total current : Option Nat)
  /-- `asyncio.as_completed`: the order in which the fetches of these pages end. -/
  | asCompleted (pages : List Nat)

abbrev JavBusOp.Res : JavBusOp → Type
  | fetchActorPage _ => Option Response
  | notifyProgress .. => Unit
  | asCompleted _ => List Nat

abbrev JavBusM := Prog JavBusOp.Res JavBusExn

def fetchActorPage (page : Nat) : JavBusM (Option Response) := Prog.call (JavBusOp.fetchActorPage page)

def notifyProgress (completed : Nat) (total current : Option Nat) : JavBusM Unit :=
  Prog.call (JavBusOp.notifyProgress completed total current)

def asCompleted (pages : List Nat) : JavBusM (List Nat) := Prog.call (JavBusOp.asCompleted pages)

namespace JavBusClient
variable (c : JavBusClient) (actorId : String)

def parsed (response : Response) : JavBusM (VideoIds × List Nat) :=
  match c.parseActorPage actorId response with
  | .ok page => pure page
  | .error e => .raise e

/-- `max(links, default=highest)`. -/
def linkedMax (links : List Nat) (highest : Nat) : Nat := links.max?.getD highest

/-! ## The last page -/

/-- The loop of `get_total_page`. -/
def findEnd (fingerprints : List VideoIds) (highest : Nat) (currentLinks : List Nat) : JavBusM Nat :=
  if _hlimit : c.maxActorPages < linkedMax currentLinks highest then
    .raise (.pagination s!"JavBus actor pagination exceeds the {c.maxActorPages}-page safety limit")
  else if _hjump : highest < linkedMax currentLinks highest then do
    match ← fetchActorPage (linkedMax currentLinks highest) with
    | none => .raise (.pagination s!"JavBus actor pagination has a gap at page {linkedMax currentLinks highest}")
    | some response => do
      let (pageIds, pageLinks) ← c.parsed actorId response
      notifyProgress 0 none (some (linkedMax currentLinks highest))
      findEnd (if pageIds ≠ [] then pageIds :: fingerprints else fingerprints) (linkedMax currentLinks highest) pageLinks
  else if _hend : c.maxActorPages ≤ highest then
    .raise (.pagination s!"JavBus actor pagination reached the {c.maxActorPages}-page safety limit without an end")
  else do
    match ← fetchActorPage (highest + 1) with
    | none => pure highest
    | some response => do
      let (pageIds, pageLinks) ← c.parsed actorId response
      notifyProgress 0 none (some (highest + 1))
      if pageIds = [] then
        if highest < linkedMax pageLinks highest then
          .raise (.pagination s!"JavBus actor pagination returned an empty gap at page {highest + 1}")
        else pure highest
      else if pageIds ∈ fingerprints then pure highest
      else findEnd (pageIds :: fingerprints) (highest + 1) pageLinks
termination_by c.maxActorPages - highest

/-- The real final page. -/
def getTotalPage : JavBusM Nat := do
  match ← fetchActorPage 1 with
  | none => .raise (.pagination s!"JavBus actor {c.repr actorId} was not found")
  | some first => do
    let (ids, linkedPages) ← c.parsed actorId first
    notifyProgress 0 none (some 1)
    if ids = [] ∧ linkedPages = [] then pure 1
    else c.findEnd actorId (if ids ≠ [] then [ids] else []) 1 linkedPages

/-! ## All pages -/

def scrapeOnePage (page : Nat) : JavBusM VideoIds := do
  match ← fetchActorPage page with
  | none => pure []
  | some response => do
    let (ids, _) ← c.parsed actorId response
    pure ids

/-- One fetch that has ended. -/
def collect (totalPage : Nat) (byPage : List (Nat × VideoIds)) (page : Nat) : JavBusM (List (Nat × VideoIds)) := do
  let pageIds ← c.scrapeOnePage actorId page
  notifyProgress (byPage.length + 1) (some totalPage) (some page)
  pure ((page, pageIds) :: byPage)

def scrape : JavBusM VideoIds := do
  notifyProgress 0 none none
  let totalPage ← c.getTotalPage actorId
  notifyProgress 0 (some totalPage) none
  let order ← asCompleted (List.range' 1 totalPage)
  let byPage ← foldEach order [] (c.collect actorId totalPage)
  let pages := (List.range' 1 totalPage).map fun page => (byPage.lookup page).getD []
  if 1 < totalPage ∧ [] ∈ pages then
    .raise (.pagination s!"JavBus actor pagination returned an empty page at {pages.idxOf [] + 1}")
  else pure pages.flatten.eraseDups

end JavBusClient

/-! ## Whatever the site answers -/

/-- What was asked for and what came back, the last first. -/
abbrev Answers := List ((op : JavBusOp) × Except JavBusExn op.Res)

/-- Any answers at all. -/
def anyAnswer (log : Answers) (op : JavBusOp) (r : Except JavBusExn op.Res) (log' : Answers) : Prop :=
  log' = ⟨op, r⟩ :: log ∧ match op, r with
    | .asCompleted pages, r => ∃ order, r = .ok order ∧ order.Perm pages
    | .fetchActorPage _, .error e => e = .http
    | .notifyProgress .., .error e => e = .callback
    | _, .ok _ => True

def isFetch : JavBusOp → Bool
  | .fetchActorPage _ => true
  | _ => false

/-- The fetches so far. -/
def fetches (log : Answers) : Nat := log.countP fun answer => isFetch answer.1

/-- The exception is the last answer, or what reading the page that was the last answer raises. -/
def PassedOn (c : JavBusClient) (actorId : String) (e : JavBusExn) (log : Answers) : Prop :=
  (∃ op log', log = ⟨op, .error e⟩ :: log') ∨
    ∃ page response log', log = ⟨.fetchActorPage page, .ok (some response)⟩ :: log' ∧ c.parseActorPage actorId response = .error e

/-- A pagination error, or something the client was answered. -/
def Raised (c : JavBusClient) (actorId : String) (e : JavBusExn) (log : Answers) : Prop :=
  (∃ message, e = .pagination message) ∨ PassedOn c actorId e log

section anyAnswer
variable {c : JavBusClient} {actorId : String} {log : Answers}

theorem wp_fetchActorPage {page : Nat} {Q : Option Response → Answers → Prop} {X : JavBusExn → Answers → Prop}
    (hok : ∀ answer, Q answer (⟨.fetchActorPage page, .ok answer⟩ :: log))
    (herror : X .http (⟨.fetchActorPage page, .error .http⟩ :: log)) :
    wp anyAnswer (fun _ _ => True) (fetchActorPage page) Q X log := by
  refine (wp_call _).2 ⟨trivial, fun answer log' h => ?_, fun e log' h => ?_⟩
  · rw [h.1]
    exact hok answer
  · obtain ⟨rfl, rfl⟩ := h
    exact herror

theorem wp_notifyProgress {completed : Nat} {total current : Option Nat} {Q : Unit → Answers → Prop}
    {X : JavBusExn → Answers → Prop} (hok : Q () (⟨.notifyProgress completed total current, .ok ()⟩ :: log))
    (herror : X .callback (⟨.notifyProgress completed total current, .error .callback⟩ :: log)) :
    wp anyAnswer (fun _ _ => True) (notifyProgress completed total current) Q X log := by
  refine (wp_call _).2 ⟨trivial, fun answer log' h => ?_, fun e log' h => ?_⟩
  · rw [h.1]
    exact hok
  · obtain ⟨rfl, rfl⟩ := h
    exact herror

theorem wp_parsed {response : Response} {Q : VideoIds × List Nat → Answers → Prop} {X : JavBusExn → Answers → Prop}
    (hok : ∀ parsed, c.parseActorPage actorId response = .ok parsed → Q parsed log)
    (herror : ∀ e, c.parseActorPage actorId response = .error e → X e log) :
    wp anyAnswer (fun _ _ => True) (c.parsed actorId response) Q X log := by
  unfold JavBusClient.parsed
  cases h : c.parseActorPage actorId response with
  | ok parsed => exact hok parsed h
  | error e => exact herror e h

theorem fetches_fetch {page : Nat} {r : Except JavBusExn (Option Response)} :
    fetches (⟨.fetchActorPage page, r⟩ :: log) = fetches log + 1 := List.countP_cons_of_pos rfl

theorem fetches_notify {completed : Nat} {total current : Option Nat} {r : Except JavBusExn Unit} :
    fetches (⟨.notifyProgress completed total current, r⟩ :: log) = fetches log := List.countP_cons_of_neg (by simp [isFetch])

/-- Every round of the loop goes to a higher page, up to the limit, with one fetch. -/
theorem wp_findEnd {bound highest : Nat} {fingerprints : List VideoIds} {links : List Nat}
    (hbound : fetches log + (c.maxActorPages - highest) ≤ bound) :
    wp anyAnswer (fun _ _ => True) (c.findEnd actorId fingerprints highest links) (fun _ log' => fetches log' ≤ bound)
      (fun e log' => fetches log' ≤ bound ∧ Raised c actorId e log') log := by
  induction hleft : c.maxActorPages - highest using Nat.strong_induction_on generalizing highest fingerprints links log with
  | _ left ih =>
    have hnow : fetches log ≤ bound := Nat.le_trans (Nat.le_add_right _ _) hbound
    rw [JavBusClient.findEnd]
    split
    · exact ⟨hnow, .inl ⟨_, rfl⟩⟩
    · rename_i hlimit
      split
      · rename_i hjump
        have hmore : fetches log + 1 ≤ bound := by omega
        refine (wp_bind _ _).2 (wp_fetchActorPage (fun answer => ?_) ⟨fetches_fetch.trans_le hmore, .inr (.inl ⟨_, _, rfl⟩)⟩)
        cases answer with
        | none => exact ⟨fetches_fetch.trans_le hmore, .inl ⟨_, rfl⟩⟩
        | some response =>
          refine (wp_bind _ _).2 (wp_parsed (fun parsed _ => ?_) fun e he =>
            ⟨fetches_fetch.trans_le hmore, .inr (.inr ⟨_, _, _, rfl, he⟩)⟩)
          have hnotify : ∀ r, fetches (⟨.notifyProgress 0 none (some (JavBusClient.linkedMax links highest)), r⟩ ::
              ⟨.fetchActorPage (JavBusClient.linkedMax links highest), .ok (some response)⟩ :: log) = fetches log + 1 :=
            fun r => fetches_notify.trans fetches_fetch
          refine (wp_bind _ _).2 (wp_notifyProgress ?_ ⟨(hnotify _).trans_le hmore, .inr (.inl ⟨_, _, rfl⟩)⟩)
          refine ih _ ?_ ?_ rfl
          · omega
          · rw [hnotify]
            omega
      · split
        · exact ⟨hnow, .inl ⟨_, rfl⟩⟩
        · rename_i hend
          have hmore : fetches log + 1 ≤ bound := by omega
          refine (wp_bind _ _).2 (wp_fetchActorPage (fun answer => ?_) ⟨fetches_fetch.trans_le hmore, .inr (.inl ⟨_, _, rfl⟩)⟩)
          cases answer with
          | none => exact fetches_fetch.trans_le hmore
          | some response =>
            refine (wp_bind _ _).2 (wp_parsed (fun parsed _ => ?_) fun e he =>
              ⟨fetches_fetch.trans_le hmore, .inr (.inr ⟨_, _, _, rfl, he⟩)⟩)
            have hnotify : ∀ r, fetches (⟨.notifyProgress 0 none (some (highest + 1)), r⟩ ::
                ⟨.fetchActorPage (highest + 1), .ok (some response)⟩ :: log) = fetches log + 1 :=
              fun r => fetches_notify.trans fetches_fetch
            refine (wp_bind _ _).2 (wp_notifyProgress ?_ ⟨(hnotify _).trans_le hmore, .inr (.inl ⟨_, _, rfl⟩)⟩)
            refine wp_ite (fun _ => wp_ite (fun _ => ⟨(hnotify _).trans_le hmore, .inl ⟨_, rfl⟩⟩)
              fun _ => (hnotify _).trans_le hmore) fun _ => wp_ite (fun _ => (hnotify _).trans_le hmore) fun _ => ?_
            refine ih _ ?_ ?_ rfl
            · omega
            · rw [hnotify]
              omega

/-- The search for the last page ends within as many fetches as there may be pages. -/
theorem wp_getTotalPage : wp anyAnswer (fun _ _ => True) (c.getTotalPage actorId)
    (fun _ log => fetches log ≤ 1 + (c.maxActorPages - 1))
    (fun e log => fetches log ≤ 1 + (c.maxActorPages - 1) ∧ Raised c actorId e log) [] := by
  have hone : ∀ {r}, fetches [⟨.fetchActorPage 1, r⟩] ≤ 1 + (c.maxActorPages - 1) := fetches_fetch.trans_le (Nat.le_add_right _ _)
  unfold JavBusClient.getTotalPage
  refine (wp_bind _ _).2 (wp_fetchActorPage (fun answer => ?_) ⟨hone, .inr (.inl ⟨_, _, rfl⟩)⟩)
  cases answer with
  | none => exact ⟨hone, .inl ⟨_, rfl⟩⟩
  | some first =>
    refine (wp_bind _ _).2 (wp_parsed (fun parsed _ => ?_) fun e he => ⟨hone, .inr (.inr ⟨_, _, _, rfl, he⟩)⟩)
    have hnotify : ∀ r, fetches (⟨.notifyProgress 0 none (some 1), r⟩ :: ⟨.fetchActorPage 1, .ok (some first)⟩ :: []) = 1 :=
      fun r => fetches_notify.trans fetches_fetch
    refine (wp_bind _ _).2 (wp_notifyProgress ?_ ⟨(hnotify _).trans_le (Nat.le_add_right _ _), .inr (.inl ⟨_, _, rfl⟩)⟩)
    refine wp_ite (fun _ => (hnotify _).trans_le (Nat.le_add_right _ _)) fun _ => wp_findEnd ?_
    rw [hnotify]

end anyAnswer

/-! ## A star -/

/-- A star with pages `1` to `last`: lists of IDs that are pairwise different and not empty, and links to any of its pages. -/
structure Star (c : JavBusClient) (actorId : String) where
  last : Nat
  response : Nat → Response
  ids : Nat → VideoIds
  links : Nat → List Nat
  pos : 1 ≤ last
  parse : ∀ n, 1 ≤ n → n ≤ last → c.parseActorPage actorId (response n) = .ok (ids n, links n)
  nonempty : ∀ n, 1 ≤ n → n ≤ last → ids n ≠ []
  distinct : ∀ m n, 1 ≤ m → m ≤ last → 1 ≤ n → n ≤ last → ids m = ids n → m = n
  within : ∀ n, 1 ≤ n → n ≤ last → ∀ link ∈ links n, link ≤ last

namespace Star
variable {c : JavBusClient} {actorId : String} (star : Star c actorId)

/-- What a page behind the last one may be: missing, empty, or the first or the last page again. -/
inductive Beyond : Option Response → Prop
  | missing : Beyond none
  | empty {response : Response} {links : List Nat} (hparse : c.parseActorPage actorId response = .ok ([], links))
    (hlinks : ∀ link ∈ links, link ≤ star.last) : Beyond (some response)
  | again {response : Response} {links : List Nat} {n : Nat} (hn : n = 1 ∨ n = star.last)
    (hparse : c.parseActorPage actorId response = .ok (star.ids n, links)) : Beyond (some response)

/-- What the site answers. -/
def answers (_ : Unit) : (op : JavBusOp) → Except JavBusExn op.Res → Unit → Prop
  | .fetchActorPage n, r, _ => ∃ answer, r = .ok answer ∧ (1 ≤ n → n ≤ star.last → answer = some (star.response n)) ∧
      (star.last < n → star.Beyond answer)
  | .notifyProgress .., r, _ => r = .ok ()
  | .asCompleted pages, r, _ => ∃ order, r = .ok order ∧ order.Perm pages

section wp
variable {star} {n : Nat} {X : JavBusExn → Unit → Prop}

theorem wp_page {Q : Option Response → Unit → Prop} (h : 1 ≤ n) (hn : n ≤ star.last) (hQ : Q (some (star.response n)) ()) :
    wp star.answers (fun _ _ => True) (fetchActorPage n) Q X () := by
  refine (wp_call _).2 ⟨trivial, fun answer _ hanswer => ?_, fun e _ he => ?_⟩
  · obtain ⟨_, he, hpage, -⟩ := hanswer
    cases he
    rw [hpage h hn]
    exact hQ
  · obtain ⟨_, he, -⟩ := he
    cases he

theorem wp_behind {Q : Option Response → Unit → Prop} (hn : star.last < n) (hQ : ∀ answer, star.Beyond answer → Q answer ()) :
    wp star.answers (fun _ _ => True) (fetchActorPage n) Q X () := by
  refine (wp_call _).2 ⟨trivial, fun answer _ hanswer => ?_, fun e _ he => ?_⟩
  · obtain ⟨_, he, -, hbeyond⟩ := hanswer
    cases he
    exact hQ _ (hbeyond hn)
  · obtain ⟨_, he, -⟩ := he
    cases he

theorem wp_notify {completed : Nat} {total current : Option Nat} {Q : Unit → Unit → Prop} (hQ : Q () ()) :
    wp star.answers (fun _ _ => True) (notifyProgress completed total current) Q X () := by
  refine (wp_call _).2 ⟨trivial, fun _ _ _ => hQ, fun e _ he => ?_⟩
  cases he

theorem wp_read {response : Response} {page : VideoIds × List Nat} {Q : VideoIds × List Nat → Unit → Prop}
    (hparse : c.parseActorPage actorId response = .ok page) (hQ : Q page ()) :
    wp star.answers (fun _ _ => True) (c.parsed actorId response) Q X () := by
  unfold JavBusClient.parsed
  rw [hparse]
  exact hQ

theorem linkedMax_le {links : List Nat} {highest : Nat} (hlinks : ∀ link ∈ links, link ≤ star.last) (hhighest : highest ≤ star.last) :
    JavBusClient.linkedMax links highest ≤ star.last := by
  unfold JavBusClient.linkedMax
  cases hmax : links.max? with
  | none => exact hhighest
  | some m => exact hlinks m (List.max?_mem hmax)

/-- What the search has seen: pages up to the highest, among them the first and the highest. -/
structure Seen (star : Star c actorId) (fingerprints : List VideoIds) (highest : Nat) : Prop where
  pos : 1 ≤ highest
  le : highest ≤ star.last
  first : star.ids 1 ∈ fingerprints
  last : star.ids highest ∈ fingerprints
  below : ∀ ids ∈ fingerprints, ∃ n, 1 ≤ n ∧ n ≤ highest ∧ ids = star.ids n

theorem Seen.next {fingerprints : List VideoIds} {highest next : Nat} (h : Seen star fingerprints highest)
    (hlt : highest < next) (hnext : next ≤ star.last) : Seen star (star.ids next :: fingerprints) next where
  pos := Nat.le_trans h.pos (Nat.le_of_lt hlt)
  le := hnext
  first := List.mem_cons_of_mem _ h.first
  last := List.mem_cons_self
  below ids hids := by
    rcases List.mem_cons.1 hids with rfl | hids
    · exact ⟨next, Nat.le_trans h.pos (Nat.le_of_lt hlt), Nat.le_refl _, rfl⟩
    · obtain ⟨n, hn, hle, he⟩ := h.below ids hids
      exact ⟨n, hn, Nat.le_trans hle (Nat.le_of_lt hlt), he⟩

/-- A page above the highest is none that was seen. -/
theorem Seen.not_mem {fingerprints : List VideoIds} {highest next : Nat} (h : Seen star fingerprints highest)
    (hlt : highest < next) (hnext : next ≤ star.last) : star.ids next ∉ fingerprints := by
  intro hmem
  obtain ⟨n, hn, hle, he⟩ := h.below _ hmem
  have := star.distinct next n (Nat.le_trans h.pos (Nat.le_of_lt hlt)) hnext hn (Nat.le_trans hle h.le) he
  omega

/-- The loop stops at the last page. -/
theorem wp_findEnd_last (hmax : star.last < c.maxActorPages) {fingerprints : List VideoIds} {highest : Nat} {links : List Nat}
    (h : Seen star fingerprints highest) (hlinks : ∀ link ∈ links, link ≤ star.last) :
    wp star.answers (fun _ _ => True) (c.findEnd actorId fingerprints highest links) (fun total _ => total = star.last) X () := by
  induction hleft : c.maxActorPages - highest using Nat.strong_induction_on generalizing highest fingerprints links with
  | _ left ih =>
    have hmost := linkedMax_le hlinks h.le
    have hhighest := h.le
    rw [JavBusClient.findEnd, dif_neg (by omega)]
    split
    · rename_i hjump
      have hpos : 1 ≤ JavBusClient.linkedMax links highest := Nat.le_trans h.pos (Nat.le_of_lt hjump)
      refine (wp_bind _ _).2 (wp_page hpos hmost ((wp_bind _ _).2 (wp_read (star.parse _ hpos hmost) ?_)))
      refine (wp_bind _ _).2 (wp_notify ?_)
      rw [if_pos (star.nonempty _ hpos hmost)]
      exact ih _ (by omega) (h.next hjump hmost) (star.within _ hpos hmost) rfl
    · rw [dif_neg (by omega)]
      -- no link leads further: the next page tells whether this was the last
      by_cases hlast : highest < star.last
      · refine (wp_bind _ _).2 (wp_page (Nat.succ_pos _) hlast ((wp_bind _ _).2 (wp_read (star.parse _ (Nat.succ_pos _) hlast) ?_)))
        refine (wp_bind _ _).2 (wp_notify ?_)
        rw [if_neg (star.nonempty _ (Nat.succ_pos _) hlast), if_neg (h.not_mem (Nat.lt_succ_self _) hlast)]
        exact ih _ (by omega) (h.next (Nat.lt_succ_self _) hlast) (star.within _ (Nat.succ_pos _) hlast) rfl
      · obtain rfl : highest = star.last := Nat.le_antisymm h.le (Nat.le_of_not_lt hlast)
        refine (wp_bind _ _).2 (wp_behind (Nat.lt_succ_self _) fun answer hanswer => ?_)
        -- behind the last page there is nothing, an empty page, or one that was seen
        cases hanswer with
        | missing => rfl
        | empty hparse hnone =>
          refine (wp_bind _ _).2 (wp_read hparse ((wp_bind _ _).2 (wp_notify ?_)))
          rw [if_pos rfl, if_neg (Nat.not_lt.2 (linkedMax_le hnone (Nat.le_refl _)))]
          rfl
        | again hn hparse =>
          refine (wp_bind _ _).2 (wp_read hparse ((wp_bind _ _).2 (wp_notify ?_)))
          rcases hn with rfl | rfl
          · rw [if_neg (star.nonempty 1 (Nat.le_refl _) star.pos), if_pos h.first]
            rfl
          · rw [if_neg (star.nonempty _ star.pos (Nat.le_refl _)), if_pos h.last]
            rfl

/-- The search finds the last page. -/
theorem wp_getTotalPage_last (hmax : star.last < c.maxActorPages) :
    wp star.answers (fun _ _ => True) (c.getTotalPage actorId) (fun total _ => total = star.last) X () := by
  have hne := star.nonempty 1 (Nat.le_refl _) star.pos
  unfold JavBusClient.getTotalPage
  refine (wp_bind _ _).2 (wp_page (Nat.le_refl _) star.pos ((wp_bind _ _).2 (wp_read (star.parse 1 (Nat.le_refl _) star.pos) ?_)))
  refine (wp_bind _ _).2 (wp_notify ?_)
  rw [if_neg fun h => hne h.1, if_pos hne]
  refine wp_findEnd_last hmax ⟨Nat.le_refl _, star.pos, List.mem_singleton.2 rfl, List.mem_singleton.2 rfl, fun ids hids => ?_⟩
    (star.within 1 (Nat.le_refl _) star.pos)
  exact ⟨1, Nat.le_refl _, Nat.le_refl _, List.mem_singleton.1 hids⟩

/-- One fetch that ends adds its page. -/
theorem wp_collect {byPage : List (Nat × VideoIds)} {total page : Nat} {Q : List (Nat × VideoIds) → Unit → Prop}
    (hpos : 1 ≤ page) (hle : page ≤ star.last) (hQ : Q ((page, star.ids page) :: byPage) ()) :
    wp star.answers (fun _ _ => True) (c.collect actorId total byPage page) Q X () := by
  unfold JavBusClient.collect JavBusClient.scrapeOnePage
  refine (wp_bind _ _).2 ((wp_bind _ _).2 (wp_page hpos hle ((wp_bind _ _).2 (wp_read (star.parse _ hpos hle) ?_))))
  exact (wp_bind _ _).2 (wp_notify hQ)

/-- The pages of a star, one after the other. -/
def catalog (star : Star c actorId) : List VideoIds := (List.range' 1 star.last).map star.ids

/-- All pages come out, in their order, whatever the order in which the fetches end. -/
theorem wp_scrape_catalog (hmax : star.last < c.maxActorPages) :
    wp star.answers (fun _ _ => True) (c.scrape actorId) (fun ids _ => ids = star.catalog.flatten.eraseDups) X () := by
  unfold JavBusClient.scrape
  refine (wp_bind _ _).2 (wp_notify ((wp_bind _ _).2 (wp_mono (wp_getTotalPage_last hmax) ?_ fun _ _ h => h)))
  rintro total _ rfl
  refine (wp_bind _ _).2 (wp_notify ((wp_bind _ _).2 ((wp_call _).2 ⟨trivial, fun order _ horder => ?_, fun e _ he => ?_⟩)))
  swap
  · obtain ⟨_, he, -⟩ := he
    cases he
  obtain ⟨_, he, hperm⟩ := horder
  cases he
  have hrange : ∀ page ∈ order, 1 ≤ page ∧ page ≤ star.last := by
    intro page hpage
    have := List.mem_range'_1.1 (hperm.mem_iff.1 hpage)
    omega
  -- the pages come back in any order: those that are done are under their number
  refine (wp_bind _ _).2 (wp_foldEach
    (fun rest byPage _ => rest ⊆ order ∧ ∀ page ∈ order, page ∉ rest → byPage.lookup page = some (star.ids page)) ?_ ?_
    ⟨fun _ h => h, fun page hpage hno => absurd hpage hno⟩)
  · rintro page rest byPage ⟨⟩ ⟨hsub, hseen⟩
    obtain ⟨hpos, hle⟩ := hrange page (hsub List.mem_cons_self)
    refine wp_collect hpos hle ⟨fun x hx => hsub (List.mem_cons_of_mem _ hx), fun x hx hno => ?_⟩
    by_cases hxp : x = page
    · rw [hxp, List.lookup_cons_self]
    · rw [List.lookup_cons, beq_false_of_ne hxp]
      exact hseen x hx fun h => (List.mem_cons.1 h).elim hxp hno
  · rintro byPage ⟨⟩ ⟨-, hseen⟩
    have hpages : ((List.range' 1 star.last).map fun page => (byPage.lookup page).getD []) = star.catalog := by
      refine List.map_congr_left fun page hpage => ?_
      rw [hseen page (hperm.mem_iff.2 hpage) List.not_mem_nil]
      rfl
    have hfull : [] ∉ star.catalog := by
      intro hmem
      obtain ⟨page, hpage, he⟩ := List.mem_map.1 hmem
      have := List.mem_range'_1.1 hpage
      exact star.nonempty page this.1 (by omega) he
    rw [hpages, if_neg fun h => hfull h.2]
    rfl

end wp

end Star

/-- Pagination loses no page: on a star with fewer pages than the limit, the last page is found and all IDs come out, in the
order of the pages and each once. Whatever the site answers, the search ends after at most `2 * max_actor_pages + 1` fetches, with
a page, with a pagination error, or with what a fetch, a page that cannot be read or the progress callback raised. -/
theorem pagination_loses_no_page (c : JavBusClient) (actorId : String) :
    (∀ star : Star c actorId, star.last < c.maxActorPages →
      wp star.answers (fun _ _ => True) (c.getTotalPage actorId) (fun total _ => total = star.last) (fun _ _ => False) () ∧
      wp star.answers (fun _ _ => True) (c.scrape actorId) (fun ids _ => ids = star.catalog.flatten.eraseDups)
        (fun _ _ => False) ()) ∧
    wp anyAnswer (fun _ _ => True) (c.getTotalPage actorId) (fun _ log => fetches log ≤ 2 * c.maxActorPages + 1)
      (fun e log => fetches log ≤ 2 * c.maxActorPages + 1 ∧ ((∃ message, e = .pagination message) ∨ PassedOn c actorId e log)) [] := by
  refine ⟨fun star hmax => ⟨Star.wp_getTotalPage_last hmax, Star.wp_scrape_catalog hmax⟩, ?_⟩
  have hbound : 1 + (c.maxActorPages - 1) ≤ 2 * c.maxActorPages + 1 := by omega
  exact wp_mono wp_getTotalPage (fun _ _ h => Nat.le_trans h hbound) fun _ _ h => ⟨Nat.le_trans h.1 hbound, h.2⟩

namespace JavBus

def client : JavBusClient := ⟨"www.javbus.com".toList, 200, id⟩

/-- A page with one box, and a link to the second page. -/
def page (box : String) : Response := ⟨some ⟨[some ⟨[], box.toList⟩], [some ⟨[], "/star/abc/2".toList⟩]⟩⟩

/-- A star with two pages. -/
def twoPages : Star client "abc" where
  last := 2
  response n := if n = 1 then page "/abp-001" else page "/ABP-002/"
  ids n := if n = 1 then ["ABP-001".toList] else ["ABP-002".toList]
  links _ := [2]
  pos := by decide
  parse n hpos hle := by
    have hn : n = 1 ∨ n = 2 := by omega
    rcases hn with rfl | rfl
    · decide
    · decide
  nonempty n _ _ := by split <;> exact List.cons_ne_nil _ _
  distinct m n hm hmle hn hnle he := by
    have hm' : m = 1 ∨ m = 2 := by omega
    have hn' : n = 1 ∨ n = 2 := by omega
    rcases hm' with rfl | rfl <;> rcases hn' with rfl | rfl
    · rfl
    · exact absurd he (by decide)
    · exact absurd he (by decide)
    · rfl
  within n _ _ link hlink := by
    rw [List.mem_singleton.1 hlink]

end JavBus

open JavBus in
theorem pagination_loses_no_page_two :
    (wp twoPages.answers (fun _ _ => True) (client.getTotalPage "abc") (fun total _ => total = 2) (fun _ _ => False) () ∧
      wp twoPages.answers (fun _ _ => True) (client.scrape "abc") (fun ids _ => ids = ["ABP-001".toList, "ABP-002".toList])
        (fun _ _ => False) ()) ∧
    wp anyAnswer (fun _ _ => True) (client.getTotalPage "abc") (fun _ log => fetches log ≤ 401)
      (fun e log => fetches log ≤ 401 ∧ ((∃ message, e = .pagination message) ∨ PassedOn client "abc" e log)) [] := by
  have h := pagination_loses_no_page client "abc"
  have hcatalog : twoPages.catalog.flatten.eraseDups = ["ABP-001".toList, "ABP-002".toList] := by decide
  refine ⟨?_, h.2⟩
  have hstar := h.1 twoPages (by decide)
  rwa [hcatalog] at hstar

/-- A first fetch that fails is passed on; it is no pagination error. -/
theorem failed_fetch_passed_on :
    ¬ ∀ (c : JavBusClient) (actorId : String),
      wp anyAnswer (fun _ _ => True) (c.getTotalPage actorId) (fun _ log => fetches log ≤ 2 * c.maxActorPages + 1)
        (fun e log => fetches log ≤ 2 * c.maxActorPages + 1 ∧ ∃ message, e = .pagination message) [] := by
  intro h
  have hrun := (h ⟨[], 200, id⟩ "abc").2 (.error .http) _ ⟨rfl, rfl⟩
  obtain ⟨-, message, he⟩ := hrun
  cases he

end EmbyxManager.Clients
