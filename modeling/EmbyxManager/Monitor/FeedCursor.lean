import EmbyxManager.Monitor.Components
import EmbyxManager.Monitor.Parts
/-!
# What a subscription remembers

The cursor keeps the newest keys of a subscription, and a poll that hands items over puts
their keys behind those it knows. An item that stays in the feed keeps its place while newer
ones come in behind it, so in time it is trimmed although the feed still carries it, and the
next poll takes it for new.
-/

namespace EmbyxManager.Rss
open Atom

/-! ## Trimming -/

section trim
variable {α : Type} [DecidableEq α] {a : α}

/-- What stands behind an element. -/
def behind (a : α) (l : List α) : List α := (l.dropWhile (· ≠ a)).tail

theorem split_at {l : List α} (h : a ∈ l) : ∃ before, a ∉ before ∧ l = before ++ a :: behind a l := by
  induction l with
  | nil => cases h
  | cons b l ih =>
    by_cases hb : b = a
    · subst hb
      exact ⟨[], List.not_mem_nil, by simp [behind]⟩
    · obtain ⟨before, hnot, hl⟩ := ih ((List.mem_cons.1 h).resolve_left (Ne.symm hb))
      refine ⟨b :: before, by simp [Ne.symm hb, hnot], ?_⟩
      have hbehind : behind a (b :: l) = behind a l := by simp [behind, hb]
      rw [hbehind, List.cons_append, ← hl]

/-- Of a list without repetitions the last ones still hold an element with fewer behind it. -/
theorem mem_drop_iff {l : List α} {n : Nat} (hl : l.Nodup) (h : a ∈ l) :
    a ∈ l.drop (l.length - n) ↔ (behind a l).length < n := by
  obtain ⟨before, hnot, hsplit⟩ := split_at h
  generalize behind a l = rest at hsplit ⊢
  subst hsplit
  have hrest : a ∉ rest := (List.nodup_cons.1 (List.nodup_append.1 hl).2.1).1
  have hlen : (before ++ a :: rest).length = before.length + (rest.length + 1) := by
    rw [List.length_append, List.length_cons]
  rw [List.drop_append, hlen]
  constructor
  · intro hmem
    by_contra hge
    rcases List.mem_append.1 hmem with hb | hd
    · exact hnot (List.mem_of_mem_drop hb)
    · have hpos : before.length + (rest.length + 1) - n - before.length = (rest.length - n) + 1 := by omega
      rw [hpos, List.drop_succ_cons] at hd
      exact hrest (List.mem_of_mem_drop hd)
  · intro hlt
    have hzero : before.length + (rest.length + 1) - n - before.length = 0 := by omega
    rw [hzero, List.drop_zero]
    exact List.mem_append_right _ List.mem_cons_self

theorem behind_append {l l' : List α} (h : a ∈ l) : behind a (l ++ l') = behind a l ++ l' := by
  induction l with
  | nil => cases h
  | cons b l ih =>
    by_cases hb : b = a
    · simp [behind, hb]
    · have ih := ih ((List.mem_cons.1 h).resolve_left (Ne.symm hb))
      simp only [behind, List.cons_append] at ih ⊢
      simpa [hb] using ih

theorem behind_lt {l : List α} (h : a ∈ l) : (behind a l).length < l.length := by
  obtain ⟨before, -, hsplit⟩ := split_at h
  have hlen := congrArg List.length hsplit
  rw [List.length_append, List.length_cons] at hlen
  omega

theorem eraseDups_of_nodup {l : List α} (h : l.Nodup) : l.eraseDups = l := by
  induction l with
  | nil => rfl
  | cons b l ih =>
    obtain ⟨hb, hl⟩ := List.nodup_cons.1 h
    rw [List.eraseDups_cons, List.filter_eq_self.2, ih hl]
    intro c hc
    have : c ≠ b := fun e => hb (e ▸ hc)
    simpa using this

end trim

theorem eraseDups_length_le {α : Type} [DecidableEq α] (l : List α) : l.eraseDups.length ≤ l.length :=
  (List.subperm_of_subset (Parts.nodup_eraseDups l) fun _ h => List.mem_eraseDups.1 h).length_le

/-- A key is kept when fewer than the limit stand behind it. -/
theorem mem_trimCursor {keys : List String} {key : String} (h : key ∈ keys) :
    key ∈ trimCursor keys ↔ (behind key keys.eraseDups).length < cursorLimit :=
  mem_drop_iff (Parts.nodup_eraseDups keys) (List.mem_eraseDups.2 h)

theorem trimCursor_of_short {keys : List String} (h : keys.length ≤ cursorLimit) : trimCursor keys = keys.eraseDups := by
  have hle := (eraseDups_length_le keys).trans h
  unfold trimCursor
  dsimp only
  rw [Nat.sub_eq_zero_of_le hle, List.drop_zero]

/-- `record_poll` trims what is trimmed already. -/
theorem trimCursor_trimCursor (keys : List String) : trimCursor (trimCursor keys) = trimCursor keys := by
  have hnodup : (trimCursor keys).Nodup := (Parts.nodup_eraseDups keys).sublist (List.drop_sublist _ _)
  have hle : (trimCursor keys).length ≤ cursorLimit := by
    unfold trimCursor
    rw [List.length_drop]
    omega
  rw [trimCursor_of_short hle, eraseDups_of_nodup hnodup]

/-! ## One subscription -/

/-- What a poll reads and writes of a subscription's row. -/
structure CursorRow where
  cursor : List String
  seedPending : Bool

namespace CursorRow

def of (s : SubscriptionRecord) : CursorRow := ⟨s.cursor, s.seedPending⟩

/-- `record_poll`. -/
def recordPoll (row : CursorRow) (cursor : Option (List String)) : CursorRow :=
  match cursor with
  | none => row
  | some keys => ⟨trimCursor keys, false⟩

def freshKeys (row : CursorRow) (items : List FeedItem) : List String :=
  (items.filter fun item => item.key ∉ row.cursor).map (·.key)

/-- The row after a poll that succeeds. -/
def polled (row : CursorRow) (items : List FeedItem) : CursorRow :=
  ⟨trimCursor (if row.seedPending then items.map (·.key) else row.cursor ++ row.freshKeys items), false⟩

/-- What stands behind a known key, with the new keys of the poll, comes to the limit. -/
def Crowds (row : CursorRow) (key : String) (items : List FeedItem) : Prop :=
  row.seedPending = false ∧ key ∈ row.cursor ∧
    cursorLimit ≤ (behind key row.cursor.eraseDups).length + (row.freshKeys items).eraseDups.length

instance (row : CursorRow) (key : String) (items : List FeedItem) : Decidable (row.Crowds key items) := by
  unfold Crowds
  infer_instance

theorem freshKeys_eraseDups (row : CursorRow) (items : List FeedItem) :
    (row.cursor ++ row.freshKeys items).eraseDups = row.cursor.eraseDups ++ (row.freshKeys items).eraseDups := by
  rw [List.eraseDups_append]
  congr 2
  refine List.filter_eq_self.2 fun key hkey => ?_
  obtain ⟨item, hitem, rfl⟩ := List.mem_map.1 hkey
  have hnew := (List.mem_filter.1 hitem).2
  simpa using hnew

/-- An item that is in the feed is known after the poll, unless the newer ones crowd it out. -/
theorem mem_polled_iff {row : CursorRow} {key : String} {items : List FeedItem} (hkey : key ∈ items.map (·.key))
    (hlen : items.length ≤ cursorLimit) : key ∈ (row.polled items).cursor ↔ ¬row.Crowds key items := by
  unfold polled Crowds
  dsimp only
  cases hseed : row.seedPending with
  | true =>
    rw [if_pos rfl, trimCursor_of_short (by rwa [List.length_map])]
    simpa using hkey
  | false =>
    rw [if_neg Bool.false_ne_true]
    by_cases hknown : key ∈ row.cursor
    · rw [mem_trimCursor (List.mem_append_left _ hknown), freshKeys_eraseDups,
        behind_append (List.mem_eraseDups.2 hknown), List.length_append]
      simp [hknown]
    · obtain ⟨item, hitem, rfl⟩ := List.mem_map.1 hkey
      have hfresh : item.key ∈ row.freshKeys items :=
        List.mem_map.2 ⟨item, List.mem_filter.2 ⟨hitem, by simpa using hknown⟩, rfl⟩
      rw [mem_trimCursor (List.mem_append_right _ hfresh), freshKeys_eraseDups]
      have hbehind : behind item.key (row.cursor.eraseDups ++ (row.freshKeys items).eraseDups) =
          behind item.key (row.freshKeys items).eraseDups := by
        have hnot : ∀ k ∈ row.cursor.eraseDups, decide (k ≠ item.key) = true := by
          intro k hk
          have : k ≠ item.key := fun e => hknown (e ▸ List.mem_eraseDups.1 hk)
          simpa using this
        unfold behind
        rw [List.dropWhile_append_of_pos hnot]
      rw [hbehind]
      have hlt := behind_lt (List.mem_eraseDups.2 hfresh)
      have hfew : (row.freshKeys items).eraseDups.length ≤ items.length := by
        refine (eraseDups_length_le _).trans ?_
        rw [freshKeys, List.length_map]
        exact List.length_filter_le _ _
      simp only [hknown, false_and, and_false, not_false_eq_true, iff_true]
      omega

/-- The polls but the last at which the item is crowded out. -/
def evictions (key : String) : CursorRow → List (List FeedItem) → Nat
  | _, [] => 0
  | row, items :: feeds => (if feeds ≠ [] ∧ row.Crowds key items then 1 else 0) + evictions key (row.polled items) feeds

/-- Whether there is a first poll that finds the item new. -/
def unseen (key : String) (row : CursorRow) (feeds : List (List FeedItem)) : Nat :=
  if feeds ≠ [] ∧ row.seedPending = false ∧ key ∉ row.cursor then 1 else 0

theorem unseen_polled {row : CursorRow} {key : String} {items : List FeedItem} (hkey : key ∈ items.map (·.key))
    (hlen : items.length ≤ cursorLimit) (feeds : List (List FeedItem)) :
    unseen key (row.polled items) feeds = if feeds ≠ [] ∧ row.Crowds key items then 1 else 0 := by
  have hseed : (row.polled items).seedPending = false := rfl
  unfold unseen
  simp only [mem_polled_iff hkey hlen, hseed, not_not, true_and]

end CursorRow

/-! ## Polls -/

/-- What a poll hands to `_ingest`. -/
def handed (s : SubscriptionRecord) (items : List FeedItem) : List FeedItem :=
  if s.seedPending then [] else freshItems s items

/-- The keys a poll records. -/
def known (s : SubscriptionRecord) (items : List FeedItem) : List String :=
  if s.seedPending then items.map (·.key) else s.cursor ++ (freshItems s items).map (·.key)

/-- Seeding or not, a poll ingests what it hands over and then records the cursor. -/
theorem pollItems_handed (p : Rss) (run : RssRun) (category : RssCategory) (s : SubscriptionRecord)
    (items : List FeedItem) : pollItems p run category s items = (do
      let run ← ingestFresh p run category (handed s items)
      let at_ ← now
      ask (.recordPoll s.id at_ (some (trimCursor (known s items))) none)
      pure run) := by
  unfold pollItems handed known
  by_cases hseed : s.seedPending = true
  · rw [if_pos hseed, if_pos hseed, if_pos hseed, ingestFresh, if_pos rfl]
    rfl
  · rw [if_neg hseed, if_neg hseed, if_neg hseed]

theorem mem_handed_iff {s : SubscriptionRecord} {items : List FeedItem} {key : String}
    (hkey : key ∈ items.map (·.key)) :
    key ∈ (handed s items).map (·.key) ↔ s.seedPending = false ∧ key ∉ s.cursor := by
  unfold handed freshItems
  cases s.seedPending with
  | true => simp
  | false =>
    obtain ⟨item, hitem, rfl⟩ := List.mem_map.1 hkey
    constructor
    · intro h
      obtain ⟨item', hitem', hsame⟩ := List.mem_map.1 h
      have hnew := (List.mem_filter.1 hitem').2
      rw [← hsame]
      exact ⟨rfl, by simpa using hnew⟩
    · rintro ⟨-, hnew⟩
      exact List.mem_map.2 ⟨item, List.mem_filter.2 ⟨hitem, by simpa using hnew⟩, rfl⟩

/-- The row of a subscription while polls run: no feed is longer than the limit, and following a
talent leaves the cursor. -/
def Feeds (id : Nat) : Env Op.Res Exn CursorRow := fun row op r row' =>
  match op, r with
  | .ask (.fetchFeed _), .ok items => items.length ≤ cursorLimit ∧ row' = row
  | .ask (.relinkTalent id' _ _ _), .ok (some relinked) =>
    relinked.id = id' ∧ (id' = id → CursorRow.of relinked = row) ∧ row' = row
  | .ask (.recordPoll id' _ cursor _), .ok _ => row' = if id' = id then row.recordPoll cursor else row
  | .ask (.recordPoll id' _ cursor _), .error _ => row' = row ∨ (id' = id ∧ row' = row.recordPoll cursor)
  | _, _ => row' = row

/-- A sequence of successful polls: the feed each one read, and what it handed over. -/
inductive Polls (p : Rss) (id : Nat) : CursorRow → List (List FeedItem) → List (List FeedItem) → Prop
  | none (row : CursorRow) : Polls p id row [] []
  | poll {row row₁ row' : CursorRow} {run run₁ run₂ : RssRun} {category : RssCategory} {s s₁ : SubscriptionRecord}
      {items : List FeedItem} {feeds ingested : List (List FeedItem)} : s.id = id → CursorRow.of s = row →
      Prog.Runs (Feeds id) row (fetchFeed p run s) (.ok (run₁, .ok (s₁, items))) row₁ →
      Prog.Runs (Feeds id) row₁ (pollItems p run₁ category s₁ items) (.ok run₂) row' →
      Polls p id row' feeds ingested → Polls p id row (items :: feeds) (handed s₁ items :: ingested)

section polls
variable {p : Rss} {id : Nat} {row : CursorRow} {run : RssRun} {category : RssCategory} {s : SubscriptionRecord}
  {items : List FeedItem}

/-- A feed was read, for the subscription as its row says. -/
structure FeedRead (id : Nat) (row : CursorRow) (s : SubscriptionRecord) (items : List FeedItem) : Prop where
  id : s.id = id
  row : CursorRow.of s = row
  length : items.length ≤ cursorLimit

/-- Calls that leave the row alone whatever they answer. -/
theorem wp_feeds {op : Op} {Q : op.Res → CursorRow → Prop} {X : Exn → CursorRow → Prop}
    (hrow : ∀ r row', Feeds id row op r row' → row' = row) (hQ : ∀ a, Feeds id row op (.ok a) row → Q a row)
    (hX : ∀ e, X e row) : (Prog.call op : M op.Res).wp (Feeds id) (fun _ _ => True) Q X row := by
  refine (Prog.wp_call op).2 ⟨trivial, fun a row' ht => ?_, fun e row' ht => ?_⟩
  · obtain rfl := hrow _ _ ht
    exact hQ a ht
  · obtain rfl := hrow _ _ ht
    exact hX e

theorem wp_fetch {url : String} {Q : List FeedItem → CursorRow → Prop} {X : Exn → CursorRow → Prop}
    (hQ : ∀ items, items.length ≤ cursorLimit → Q items row) (hX : ∀ e, X e row) :
    (ask (.fetchFeed url)).wp (Feeds id) (fun _ _ => True) Q X row := by
  refine wp_feeds ?_ (fun items h => hQ items h.1) hX
  intro r row' ht
  cases r with
  | ok items => exact ht.2
  | error e => exact ht

theorem wp_relinkTalent (hid : s.id = id) (hrow : CursorRow.of s = row) :
    (relinkTalent p run s).wp (Feeds id) (fun _ _ => True)
      (fun out row' => row' = row ∧ ∀ run' s', out = some (run', s') → s'.id = id ∧ CursorRow.of s' = row)
      (fun _ row' => row' = row) row := by
  unfold relinkTalent movedTalent
  have unmoved : Prog.wp (Feeds id) (fun _ _ => True) (pure none : M (Option (RssRun × SubscriptionRecord)))
      (fun out row' => row' = row ∧ ∀ run' s', out = some (run', s') → s'.id = id ∧ CursorRow.of s' = row)
      (fun _ row' => row' = row) row := ⟨rfl, by simp⟩
  refine (Prog.wp_bind _ _).2 (Prog.wp_mono (Q := fun _ row' => row' = row) (X := fun _ row' => row' = row) ?_ ?_
    fun _ _ h => h)
  · split
    · refine (Prog.wp_bind _ _).2 ((Prog.wp_attempt _).2 (wp_feeds (fun _ _ h => h) ?_ ?_))
      · rintro (_ | talent) -
        · rfl
        · exact Prog.wp_ite (fun _ => rfl) fun _ => Prog.wp_ite (fun _ => rfl) fun _ => rfl
      · exact fun e => rfl
    · rfl
  · rintro (_ | talent) row' rfl
    · exact unmoved
    refine (Prog.wp_bind _ _).2 (wp_feeds (fun _ _ h => h) (fun at_ _ => ?_) fun _ => rfl)
    refine (Prog.wp_bind _ _).2 ((Prog.wp_attempt _).2 (wp_feeds ?_ ?_ ?_))
    · rintro (e | _ | relinked) row₁ ht
      · exact ht
      · exact ht
      · exact ht.2.2
    · rintro (_ | relinked) ht
      · exact unmoved
      · refine ⟨rfl, fun run' s' h => ?_⟩
        cases h
        exact ⟨ht.1.trans hid, ht.2.1 hid⟩
    · intro e
      cases e <;> rfl

theorem wp_fetchFeed (hid : s.id = id) (hrow : CursorRow.of s = row) :
    (fetchFeed p run s).wp (Feeds id) (fun _ _ => True)
      (fun out row' => row' = row ∧ ∀ s' items, out.2 = .ok (s', items) → FeedRead id row s' items)
      (fun _ _ => True) row := by
  have failed : ∀ (run : RssRun) (e : Exn), row = row ∧
      ∀ s' items, ((run, .error e) : RssRun × Except Exn (SubscriptionRecord × List FeedItem)).2 = .ok (s', items) →
        FeedRead id row s' items := fun _ _ => ⟨rfl, by simp⟩
  unfold fetchFeed
  refine (Prog.wp_bind _ _).2 ((Prog.wp_attempt _).2 (wp_fetch (fun items hlen => ?_) fun e => ?_))
  · refine ⟨rfl, fun s' items' h => ?_⟩
    cases h
    exact ⟨hid, hrow, hlen⟩
  · cases e with
    | httpStatus code =>
      refine Prog.wp_ite (fun _ => failed _ _) fun _ => (Prog.wp_bind _ _).2 ((Prog.wp_attempt _).2 ?_)
      refine Prog.wp_mono (wp_relinkTalent hid hrow) ?_ ?_
      · rintro (_ | ⟨run', relinked⟩) row' ⟨rfl, h⟩
        · exact failed _ _
        obtain ⟨hid', hrow'⟩ := h run' relinked rfl
        refine (Prog.wp_bind _ _).2 ((Prog.wp_attempt _).2 (wp_fetch (fun items hlen => ?_) fun e => failed _ _))
        refine ⟨rfl, fun s' items' h => ?_⟩
        cases h
        exact ⟨hid', hrow', hlen⟩
      · rintro e row' rfl
        exact failed _ _
    | _ => exact failed _ _

theorem wp_recordPoll {keys : List String} {row' : CursorRow} {Q : Unit → CursorRow → Prop} {at_ : Time}
    (h : Q () ⟨trimCursor keys, false⟩) :
    (ask (.recordPoll id at_ (some (trimCursor keys)) none)).wp (Feeds id) (fun _ _ => True) Q (fun _ _ => True) row' := by
  refine (Prog.wp_call _).2 ⟨trivial, fun _ row₁ ht => ?_, fun _ _ _ => trivial⟩
  have hrow : row₁ = if id = id then row'.recordPoll (some (trimCursor keys)) else row' := ht
  rw [if_pos rfl] at hrow
  subst hrow
  unfold CursorRow.recordPoll
  dsimp only
  rw [trimCursor_trimCursor]
  exact h

/-- Whatever ingesting did, the row is what the record at the end says. -/
theorem wp_pollItems (hid : s.id = id) :
    (pollItems p run category s items).wp (Feeds id) (fun _ _ => True)
      (fun _ row' => row' = (CursorRow.of s).polled items) (fun _ _ => True) row := by
  subst hid
  rw [pollItems_handed]
  refine (Prog.wp_bind _ _).2 (Prog.wp_mono (Prog.runs_wp (Q := fun _ _ => True) (X := fun _ _ => True)
    (fun _ _ _ => trivial) fun _ _ _ => trivial) (fun run row' _ => ?_) fun _ _ _ => trivial)
  refine (Prog.wp_bind _ _).2 (wp_feeds (fun _ _ h => h) (fun at_ _ => ?_) fun _ => trivial)
  exact (Prog.wp_bind _ _).2 (wp_recordPoll rfl)

end polls

/-! ## Over many polls -/

section sequence
variable {p : Rss} {id : Nat} {row : CursorRow} {key : String} {feeds ingested : List (List FeedItem)}

/-- The polls that hand the item over: the first, when it finds it new, and every one after it was
crowded out. -/
theorem Polls.count_handed (h : Polls p id row feeds ingested) (hkey : ∀ feed ∈ feeds, key ∈ feed.map (·.key)) :
    ingested.countP (fun items => key ∈ items.map (·.key)) = row.unseen key feeds + row.evictions key feeds := by
  induction h with
  | none row => simp [CursorRow.unseen, CursorRow.evictions]
  | @poll row row₁ row' run run₁ run₂ category s s₁ items feeds ingested hid hrow hfetch hpoll _ ih =>
    obtain ⟨rfl, hread⟩ := Prog.wp_runs_ok (wp_fetchFeed hid hrow) hfetch
    have hread := hread s₁ items rfl
    have hrow' := Prog.wp_runs_ok (wp_pollItems hread.id) hpoll
    rw [hread.row] at hrow'
    subst hrow'
    obtain ⟨hitems, hfeeds⟩ := List.forall_mem_cons.1 hkey
    have hhanded : (key ∈ (handed s₁ items).map (·.key)) ↔ row₁.seedPending = false ∧ key ∉ row₁.cursor := by
      rw [mem_handed_iff hitems, ← hread.row]
      rfl
    rw [List.countP_cons, ih hfeeds, CursorRow.unseen_polled hitems hread.length]
    unfold CursorRow.unseen
    rw [CursorRow.evictions]
    simp only [decide_eq_true_eq, hhanded, ne_eq, List.cons_ne_nil, not_false_eq_true, true_and]
    omega

/-- An item that stays in its feed is handed over once, unless it was new to the first poll and
crowded out of the cursor since, or crowded out again. -/
theorem ingested_once_iff (h : Polls p id row feeds ingested) (hkey : ∀ feed ∈ feeds, key ∈ feed.map (·.key)) :
    ingested.countP (fun items => key ∈ items.map (·.key)) ≤ 1 ↔ row.unseen key feeds + row.evictions key feeds ≤ 1 := by
  rw [h.count_handed hkey]

end sequence

/-! ## An item that is handed over twice -/

namespace Crowded

/-- An item no AVID is read from. -/
def item (n : Nat) : FeedItem := ⟨String.ofList (List.replicate n 'x'), some "", none, ""⟩

/-- The server has the feed, and the row takes the poll's record. -/
def served (items : List FeedItem) (row : CursorRow) : (op : Op) → Except Exn op.Res × CursorRow
  | .now => (.ok 0, row)
  | .ask (.fetchFeed _) => (.ok items, row)
  | .ask (.recordPoll id' _ cursor _) => (.ok (), if id' = 1 then row.recordPoll cursor else row)
  | _ => (.error .runCancelled, row)

theorem served_feeds {items : List FeedItem} (hlen : items.length ≤ cursorLimit) (row : CursorRow) (op : Op) :
    Feeds 1 row op (served items row op).1 (served items row op).2 := by
  cases op with
  | ask q =>
    cases q with
    | fetchFeed => exact ⟨hlen, rfl⟩
    | _ => exact rfl
  | _ => exact rfl

/-- The subscription of the row. -/
def subscription (row : CursorRow) : SubscriptionRecord :=
  ⟨1, .rss, "news", true, some "feed", none, none, [], row.cursor, row.seedPending⟩

theorem item_key_inj {m n : Nat} (h : (item m).key = (item n).key) : m = n := by
  have hlen := congrArg (List.length ∘ String.toList) h
  simpa [item] using hlen

theorem sightedAvids_items {items : List FeedItem} (h : ∀ i ∈ items, avidOf plainReaders i = "") :
    sightedAvids plainReaders items = [] := by
  unfold sightedAvids
  induction items with
  | nil => rfl
  | cons i items ih =>
    obtain ⟨hi, hitems⟩ := List.forall_mem_cons.1 h
    rw [List.foldl_cons, addItem, if_pos (Or.inl hi)]
    exact ih hitems

def category : RssCategory := ⟨"news", "/inbox"⟩

/-- Items no AVID is read from cost at most a look at the clock. -/
theorem ingestFresh_items {run : RssRun} {items : List FeedItem} (h : ∀ i ∈ items, avidOf plainReaders i = "") :
    ingestFresh smallSetup.rss run category items = pure run ∨
      ingestFresh smallSetup.rss run category items = (now >>= fun _ => pure run) := by
  unfold ingestFresh
  split
  · exact .inl rfl
  · have hnone : sightedAvids smallSetup.rss.intake.readers items = [] := sightedAvids_items h
    unfold ingest
    rw [hnone]
    exact .inr rfl

theorem mem_of_handed {s : SubscriptionRecord} {items : List FeedItem} {i : FeedItem} (h : i ∈ handed s items) :
    i ∈ items := by
  unfold handed at h
  split at h
  · cases h
  · exact List.mem_of_mem_filter h

theorem poll {row : CursorRow} {ns : List Nat} (hlen : ns.length ≤ cursorLimit) {feeds ingested : List (List FeedItem)}
    (h : Polls smallSetup.rss 1 (row.polled (ns.map item)) feeds ingested) :
    Polls smallSetup.rss 1 row (ns.map item :: feeds) (handed (subscription row) (ns.map item) :: ingested) := by
  have hlen : (ns.map item).length ≤ cursorLimit := by rwa [List.length_map]
  have hfetch := Prog.exec_runs (served_feeds hlen) row (fetchFeed smallSetup.rss ⟨[], []⟩ (subscription row))
  have hpoll := Prog.exec_runs (served_feeds hlen) row
    (pollItems smallSetup.rss ⟨[], []⟩ category (subscription row) (ns.map item))
  have hok : (Prog.exec (served (ns.map item)) row
      (pollItems smallSetup.rss ⟨[], []⟩ category (subscription row) (ns.map item))).1 = .ok ⟨[], []⟩ := by
    have hnone : ∀ i ∈ handed (subscription row) (ns.map item), avidOf plainReaders i = "" := by
      intro i hi
      obtain ⟨n, -, rfl⟩ := List.mem_map.1 (mem_of_handed hi)
      rfl
    rw [pollItems_handed]
    rcases ingestFresh_items hnone with heq | heq
    · rw [heq]
      rfl
    · rw [heq]
      rfl
  rw [hok] at hpoll
  have hrow := Prog.wp_runs_ok (wp_pollItems (s := subscription row) rfl) hpoll
  rw [hrow] at hpoll
  exact .poll rfl rfl hfetch hpoll h

/-- A row that knows the items of these numbers. -/
def knows (ns : List Nat) : CursorRow := ⟨ns.map fun n => (item n).key, false⟩

theorem knows_cursor (ns : List Nat) : (knows ns).cursor = ns.map fun n => (item n).key := rfl

theorem nodup_keys {ns : List Nat} (h : ns.Nodup) : (ns.map fun n => (item n).key).Nodup :=
  List.Nodup.map (fun _ _ h => item_key_inj h) h

theorem knows_freshKeys (ms ns : List Nat) :
    (knows ms).freshKeys (ns.map item) = (ns.filter (· ∉ ms)).map fun n => (item n).key := by
  have hmem : ∀ n, (item n).key ∈ (knows ms).cursor ↔ n ∈ ms := by
    intro n
    constructor
    · intro h
      obtain ⟨m, hm, he⟩ := List.mem_map.1 h
      exact item_key_inj he ▸ hm
    · exact fun h => List.mem_map.2 ⟨n, h, rfl⟩
  unfold CursorRow.freshKeys
  rw [List.filter_map, List.map_map]
  simp only [Function.comp_def, hmem]

theorem knows_polled {ms ns : List Nat} (hms : ms.Nodup) (hns : ns.Nodup)
    (hlen : (ms ++ ns.filter (· ∉ ms)).length ≤ cursorLimit) :
    (knows ms).polled (ns.map item) = knows (ms ++ ns.filter (· ∉ ms)) := by
  have hnodup : (ms ++ ns.filter (· ∉ ms)).Nodup := by
    refine List.nodup_append.2 ⟨hms, hns.filter _, fun a ha b hb e => ?_⟩
    have hnot := (List.mem_filter.1 hb).2
    exact (by simpa using hnot : b ∉ ms) (e ▸ ha)
  have hkeys : (knows ms).cursor ++ (knows ms).freshKeys (ns.map item) =
      (ms ++ ns.filter (· ∉ ms)).map fun n => (item n).key := by
    rw [knows_freshKeys, List.map_append]
    rfl
  have hseed : ¬(knows ms).seedPending = true := Bool.false_ne_true
  unfold CursorRow.polled
  rw [if_neg hseed, hkeys, trimCursor_of_short (by rwa [List.length_map]), eraseDups_of_nodup (nodup_keys hnodup)]
  rfl

/-- It comes in, then 499 more behind it, then one more; the others are gone again. -/
def feeds : List (List FeedItem) := [[0], List.range 500, [0, 500], [0]].map (·.map item)

theorem range_cons : List.range 500 = 0 :: List.range' 1 499 := by
  rw [List.range_eq_range']
  rfl

theorem stays : ∀ feed ∈ feeds, (item 0).key ∈ feed.map (·.key) := by
  intro feed hfeed
  obtain ⟨ns, hns, rfl⟩ := List.mem_map.1 hfeed
  have hzero : 0 ∈ ns := by
    rcases List.mem_cons.1 hns with h | hns
    · rw [h]
      exact List.mem_singleton.2 rfl
    rcases List.mem_cons.1 hns with h | hns
    · rw [h]
      exact List.mem_range.2 (by decide)
    rcases List.mem_cons.1 hns with h | hns
    · rw [h]
      exact List.mem_cons_self
    · rw [List.mem_singleton.1 hns]
      exact List.mem_singleton.2 rfl
  exact List.mem_map.2 ⟨item 0, List.mem_map.2 ⟨0, hzero, rfl⟩, rfl⟩

theorem filter_newest {known : List Nat} (hold : 0 ∈ known) (hnew : 500 ∉ known) :
    [0, 500].filter (· ∉ known) = [500] := by
  simp [hold, hnew]

theorem crowds : (knows (List.range 500)).Crowds (item 0).key ([0, 500].map item) := by
  have hcursor : (knows (List.range 500)).cursor.eraseDups = (List.range 500).map fun n => (item n).key := by
    rw [knows_cursor, eraseDups_of_nodup (nodup_keys List.nodup_range)]
  have hfresh : (knows (List.range 500)).freshKeys ([0, 500].map item) = [(item 500).key] := by
    rw [knows_freshKeys, filter_newest (List.mem_range.2 (by decide)) (mt List.mem_range.1 (by decide)),
      List.map_singleton]
  have hmem : (item 0).key ∈ (knows (List.range 500)).cursor := by
    rw [knows_cursor]
    exact List.mem_map.2 ⟨0, List.mem_range.2 (by decide), rfl⟩
  refine ⟨rfl, hmem, ?_⟩
  rw [hcursor, hfresh, range_cons, List.map_cons, behind, List.dropWhile_cons_of_neg (by simp), List.tail_cons,
    List.length_map, List.length_range']
  exact Nat.le_refl 500

theorem polls : ∃ ingested, Polls smallSetup.rss 1 ⟨[], false⟩ feeds ingested :=
  ⟨_, poll (by simp [cursorLimit]) (poll (by simp [cursorLimit]) (poll (by simp [cursorLimit])
    (poll (by simp [cursorLimit]) (.none _))))⟩

theorem crowded_out : CursorRow.evictions (item 0).key ⟨[], false⟩ feeds ≠ 0 := by
  have h₁ : (knows []).polled ([0].map item) = knows [0] := knows_polled (by decide) (by decide) (by simp [cursorLimit])
  have h₂ : (knows [0]).polled ((List.range 500).map item) = knows (List.range 500) := by
    have hrest : [0] ++ (List.range 500).filter (· ∉ [0]) = List.range 500 := by
      rw [range_cons, List.filter_cons_of_neg (by simp), List.filter_eq_self.2, List.singleton_append]
      intro n hn
      have := (List.mem_range'_1.1 hn).1
      simp
      omega
    rw [knows_polled (by decide) List.nodup_range (by rw [hrest, List.length_range]; exact Nat.le_refl 500), hrest]
  have hempty : (⟨[], false⟩ : CursorRow) = knows [] := rfl
  unfold feeds
  rw [hempty, List.map_cons, CursorRow.evictions, h₁, List.map_cons, CursorRow.evictions, h₂, List.map_cons,
    CursorRow.evictions, if_pos (c := (_ ≠ _ ∧ CursorRow.Crowds _ _ _)) ⟨by simp, crowds⟩]
  omega

end Crowded

/-- The theorem where the item is handed over again. -/
theorem ingested_once_crowded : ∃ ingested, Polls smallSetup.rss 1 ⟨[], false⟩ Crowded.feeds ingested ∧
    (ingested.countP (fun items => (Crowded.item 0).key ∈ items.map (·.key)) ≤ 1 ↔
      CursorRow.unseen (Crowded.item 0).key ⟨[], false⟩ Crowded.feeds +
        CursorRow.evictions (Crowded.item 0).key ⟨[], false⟩ Crowded.feeds ≤ 1) := by
  obtain ⟨ingested, hpolls⟩ := Crowded.polls
  exact ⟨ingested, hpolls, ingested_once_iff hpolls Crowded.stays⟩

/-- The same item is ingested by the first and by the last of the four polls. -/
theorem ingested_twice :
    ¬∀ (p : Rss) (id : Nat) (row : CursorRow) (key : String) (feeds ingested : List (List FeedItem)),
      Polls p id row feeds ingested → (∀ feed ∈ feeds, key ∈ feed.map (·.key)) →
      ingested.countP (fun items => key ∈ items.map (·.key)) ≤ 1 := by
  intro h
  obtain ⟨ingested, hpolls⟩ := Crowded.polls
  have honce := h smallSetup.rss 1 ⟨[], false⟩ (Crowded.item 0).key Crowded.feeds ingested hpolls Crowded.stays
  rw [hpolls.count_handed Crowded.stays] at honce
  have hcrowded := Crowded.crowded_out
  have hnew : CursorRow.unseen (Crowded.item 0).key ⟨[], false⟩ Crowded.feeds = 1 :=
    if_pos ⟨List.cons_ne_nil _ _, rfl, List.not_mem_nil⟩
  omega

end EmbyxManager.Rss
