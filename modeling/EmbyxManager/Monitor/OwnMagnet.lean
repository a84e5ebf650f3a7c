import EmbyxManager.Monitor.Submissions
/-!
# Whose magnet an operator submits

`add_attempts` answers how many attempts went in and not under which numbers. Both ways to
paste a magnet therefore read the attempts of the AVID back and claim the last of them,
whatever became of the row in between.

Where nothing of the AVID goes in between the append and the read, the last attempt is the
operator's own.
-/

namespace EmbyxManager
open Atom Prog AcquisitionRepository

/-! ## A pasted magnet among others -/

/-- A magnet pasted for a tracked AVID, or to replace what the library holds. -/
inductive OperatorRequest where
  | magnet (d : Dashboard) (avid : Avid) (magnet : String)
  | replacement (s : ReplacementSource) (text magnet : String)

namespace OperatorRequest

def program : OperatorRequest → M Unit
  | magnet d avid link => discard (d.addMagnet avid link)
  | replacement s text link => discard (s.start text (some link))

def avid : OperatorRequest → Avid
  | magnet _ avid _ => avid
  | replacement s text _ => s.readers.getAvid (s.strip text)

/-- The magnet the operator gave. -/
def link : OperatorRequest → String
  | magnet _ _ link => link
  | replacement s _ link => s.strip link

def infoHash : OperatorRequest → Option InfoHash
  | magnet d _ link => d.readers.extractInfoHash link
  | replacement s _ link => s.readers.extractInfoHash (s.strip link)

/-- A blank field is no magnet. -/
def Pasted : OperatorRequest → Prop
  | magnet .. => True
  | replacement s _ link => s.strip link ≠ ""

end OperatorRequest

/-- The attempt was claimed for the operator. -/
def ClaimedIn (row : MagnetAttemptRecord) (h : List Event) : Prop :=
  ∃ avid no at_, (⟨.sql (.claimAttempt avid no at_), .ok (some row)⟩ : Event) ∈ h

/-- The read of the AVID's attempts that follows an append to them. -/
def rereads (avid : Avid) (h : List Event) : Event → Bool
  | ⟨.sql (.attemptsFor a), _⟩ =>
    a = avid && match h with
      | ⟨.sql (.addAttempts a' _ _), _⟩ :: _ => a' = avid
      | _ => false
  | _ => false

section Between
variable {ι : Type} [DecidableEq ι]

/-- An attempt of the AVID went in since the last action of `who`. -/
def grownSince (who : ι) (avid : Avid) (l : Ledger) : List (Entry ι) → Bool
  | [] => false
  | e :: log => e.who ≠ who && (l.maxAttemptNo avid ≠ e.before.maxAttemptNo avid || grownSince who avid e.before log)

/-- An attempt of the AVID went in between an append of `who` and the read that followed it. -/
def appendedBetween (who : ι) (avid : Avid) : List (Entry ι) → Bool
  | [] => false
  | e :: log =>
    (e.who = who && rereads avid (ownEvents who log) e.event && grownSince who avid e.before log) || appendedBetween who avid log

/-- What the request claims carries the operator's hash unless another went in between, and it
hands over nothing else. -/
structure OwnOnly (q : OperatorRequest) (who : ι) (w : World ι) : Prop where
  claimed : ∀ row, ClaimedIn row (ownEvents who w.log) →
    (row.infoHash = q.infoHash ↔ appendedBetween who q.avid w.log = false) ∧ (row.infoHash = q.infoHash → row.magnet = q.link)
  handed : ∀ links dir r, (⟨.ask (.addOfflineFiles links dir), r⟩ : Event) ∈ ownEvents who w.log →
    ∃ row, ClaimedIn row (ownEvents who w.log) ∧ links = [row.magnet]

end Between

/-! ## One statement -/

namespace Ledger
variable {l l' : Ledger} {a : Avid}

theorem maxAttemptNo_le {n : Nat} : l.maxAttemptNo a ≤ n ↔ ∀ m, (l.att (a, m)).isSome → m ≤ n := by
  unfold maxAttemptNo
  rw [foldl_max_le]
  exact ⟨fun h m hm => h.2 m (mem_attemptNos.2 hm), fun h => ⟨Nat.zero_le n, fun m hm => h m (mem_attemptNos.1 hm)⟩⟩

theorem maxAttemptNo_mono (h : ∀ k, (l.att k).isSome → (l'.att k).isSome) : l.maxAttemptNo a ≤ l'.maxAttemptNo a :=
  maxAttemptNo_le.2 fun m hm => le_maxAttemptNo (h (a, m) hm)

/-- The last attempt read back is the one with the highest number. -/
theorem getLast_attemptsFor {last : MagnetAttemptRecord} (h : (l.attemptsFor a).getLast? = some last) :
    l.att (a, last.attemptNo) = some last ∧ last.attemptNo = l.maxAttemptNo a := by
  have hmem : ∀ {r}, r ∈ l.attemptsFor a ↔ l.att (a, r.attemptNo) = some r := by
    intro r
    simp only [attemptsFor, List.mem_insertionSort, List.mem_filter, decide_eq_true_eq]
    constructor
    · rintro ⟨hr, rfl⟩
      exact att_of_mem hr
    · exact fun hr => ⟨mem_of_att hr, congrArg Prod.fst (att_key hr)⟩
  have hlast := hmem.1 (List.mem_of_getLast? h)
  refine ⟨hlast, le_antisymm (le_maxAttemptNo (by simp [hlast])) (maxAttemptNo_le.2 fun m hm => ?_)⟩
  obtain ⟨r, hr⟩ := Option.isSome_iff_exists.1 hm
  have hno : r.attemptNo = m := congrArg Prod.snd (att_key hr)
  have hr : r ∈ l.attemptsFor a := hmem.2 (by rw [hno]; exact hr)
  have hsorted : (l.attemptsFor a).Pairwise fun r r' => r.attemptNo ≤ r'.attemptNo :=
    List.pairwise_insertionSort _ _
  obtain ⟨rows, hrows⟩ := List.getLast?_eq_some_iff.1 h
  rw [hrows] at hr hsorted
  rw [← hno]
  rcases List.mem_append.1 hr with hr | hr
  · exact (List.pairwise_append.1 hsorted).2.2 r hr last (List.mem_singleton_self last)
  · rw [List.mem_singleton.1 hr]

/-- One candidate that goes in is the AVID's last attempt, and the only one with its hash. -/
theorem addAttempts_one {c : MagnetCandidate} {hash : InfoHash} (hc : c.infoHash = some hash) {now : Time} {n : Nat}
    (h : l.addAttempts a [c] now = .ok (n, l')) (hn : n ≠ 0) :
    (∃ r, l'.att (a, l'.maxAttemptNo a) = some r ∧ r.infoHash = some hash ∧ r.magnet = c.magnet) ∧
      ∀ m r, l'.att (a, m) = some r → r.infoHash = some hash → m = l'.maxAttemptNo a := by
  have hatt := att_addAttempts h
  obtain ⟨l₁, -, he⟩ := map_ok h
  have hlen : n = (l.appended a [c] now).length := congrArg Prod.fst he.symm
  unfold appended newAttempts at hatt hlen
  rw [hc] at hatt hlen
  dsimp only at hatt hlen
  by_cases hseen : hash ∈ (l.attempts.rows.filter fun r => r.avid = a).filterMap (·.infoHash)
  · rw [if_pos hseen] at hlen
    exact absurd hlen hn
  rw [if_neg hseen] at hatt
  simp only [newAttempts, List.mem_singleton] at hatt
  have hnew : l'.att (a, l.maxAttemptNo a + 1) = some ⟨a, l.maxAttemptNo a + 1, c.magnet, some hash, c.source, c.sizeHint, .pending,
      none, none, none, now⟩ := (hatt _ _).2 (.inr ⟨rfl, rfl⟩)
  have hmax : l'.maxAttemptNo a = l.maxAttemptNo a + 1 := by
    refine le_antisymm (maxAttemptNo_le.2 fun m hm => ?_) (le_maxAttemptNo (by simp [hnew]))
    obtain ⟨r, hr⟩ := Option.isSome_iff_exists.1 hm
    rcases (hatt _ _).1 hr with hold | ⟨rfl, hk⟩
    · exact Nat.le_succ_of_le (le_maxAttemptNo (by simp [hold]))
    · exact (congrArg Prod.snd hk).symm.le
  rw [hmax]
  refine ⟨⟨_, hnew, rfl, rfl⟩, fun m r hr hrh => ?_⟩
  rcases (hatt _ _).1 hr with hold | ⟨rfl, hk⟩
  · have ha : r.avid = a := congrArg Prod.fst (att_key hold)
    exact absurd (List.mem_filterMap.2 ⟨r, List.mem_filter.2 ⟨mem_of_att hold, by simpa using ha⟩, hrh⟩) hseen
  · exact (congrArg Prod.snd hk).symm

/-- No statement gives an AVID a second attempt with a hash it has. -/
theorem hash_unique_of_gives {s : Sql} {x : s.Res} {n : Nat} {hash : InfoHash} (h : s.Gives l x l')
    (hn : ∃ r, l.att (a, n) = some r ∧ r.infoHash = some hash)
    (huniq : ∀ m r, l.att (a, m) = some r → r.infoHash = some hash → m = n) {m : Nat} {r : MagnetAttemptRecord}
    (hr : l'.att (a, m) = some r) (hrh : r.infoHash = some hash) : m = n := by
  by_cases hold : (l.att (a, m)).isSome
  · obtain ⟨r₀, hr₀⟩ := Option.isSome_iff_exists.1 hold
    obtain ⟨r', hr', he⟩ := Sql.att_effect h hr₀
    have hrr : r' = r := Option.some.inj (hr'.symm.trans hr)
    refine huniq m r₀ hr₀ ?_
    rw [← hrh, ← hrr]
    cases he <;> rfl
  · have hnone := Option.not_isSome_iff_eq_none.1 hold
    by_cases hadd : ∃ avid cs now, s = .addAttempts avid cs now
    · obtain ⟨avid, cs, now, rfl⟩ := hadd
      rcases (att_addAttempts h (a, m) r).1 hr with hr | ⟨hin, hk⟩
      · rw [hnone] at hr
        cases hr
      · have ha : avid = a := (mem_newAttempts hin).1.symm.trans (congrArg Prod.fst hk)
        subst ha
        obtain ⟨rn, hrn, hrnh⟩ := hn
        have hrna : rn.avid = avid := congrArg Prod.fst (att_key hrn)
        refine absurd ?_ ((newAttempts_hashes _ _ _).1 r hin hash hrh)
        exact List.mem_filterMap.2 ⟨rn, List.mem_filter.2 ⟨mem_of_att hrn, by simpa using hrna⟩, hrnh⟩
    · have hgone := att_none_of_gives h (fun avid cs now he => hadd ⟨avid, cs, now, he⟩) hnone
      rw [hgone] at hr
      cases hr

end Ledger

/-! ## What the others make of it -/

section Among
variable {ι : Type} [DecidableEq ι] {who : ι} {w w' w₁ : World ι} {op : Op} {r : Except Exn op.Res} {q : OperatorRequest}

/-- Whatever an action is answered, what was there before is still there. -/
theorem att_kept {t : Time} {l l' : Ledger} (h : Answers t l op r l') {k : AttemptKey} {row : MagnetAttemptRecord}
    (hrow : l.att k = some row) :
    ∃ row', l'.att k = some row' ∧ row'.infoHash = row.infoHash ∧ row'.magnet = row.magnet := by
  rcases answers_ledger h with rfl | ⟨s, a, -, hg⟩
  · exact ⟨row, hrow, rfl, rfl⟩
  · obtain ⟨row', hrow', he⟩ := Sql.att_effect hg hrow
    refine ⟨row', hrow', ?_⟩
    cases he <;> exact ⟨rfl, rfl⟩

/-- An action of `who`: the world the others left, and what it made of that. -/
theorem among_own (ht : Pool.Among (World.Step fun _ _ => True) who w op r w') :
    ∃ (w₁ : World ι) (t : Time), World.Others who w w₁ ∧ Answers t w₁.ledger op r w'.ledger ∧
      w'.log = ⟨who, t, w₁.ledger, op, r⟩ :: w₁.log ∧ ownEvents who w'.log = ⟨op, r⟩ :: ownEvents who w.log := by
  obtain ⟨w₁, hothers, t, l', -, -, ha, rfl⟩ := ht
  refine ⟨w₁, t, hothers, ha, rfl, ?_⟩
  rw [ownEvents_cons, if_pos rfl, (others_kept hothers).1]

theorem appendedBetween_others (h : World.Others who w w₁) (avid : Avid) :
    appendedBetween who avid w₁.log = appendedBetween who avid w.log := by
  induction h with
  | refl => rfl
  | tail _ hstep ih =>
    obtain ⟨j, op, r, hj, t, l', -, -, -, rfl⟩ := hstep
    simp only [appendedBetween, hj, decide_false, Bool.false_and, Bool.false_or]
    exact ih

/-- The attempt is there, and the operator's unless another went in between. -/
def Chosen (q : OperatorRequest) (who : ι) (no : Nat) (w : World ι) : Prop :=
  ∃ row, w.ledger.att (q.avid, no) = some row ∧ (row.infoHash = q.infoHash ↔ appendedBetween who q.avid w.log = false) ∧
    (row.infoHash = q.infoHash → row.magnet = q.link)

theorem Chosen.others {no : Nat} (h : Chosen q who no w) (ho : World.Others who w w₁) : Chosen q who no w₁ := by
  induction ho with
  | refl => exact h
  | tail _ hstep ih =>
    obtain ⟨j, op, r, hj, t, l', -, -, ha, rfl⟩ := hstep
    obtain ⟨row, hrow, hiff, hlink⟩ := ih
    obtain ⟨row', hrow', hhash, hmagnet⟩ := att_kept ha hrow
    refine ⟨row', hrow', ?_, ?_⟩
    · simp only [appendedBetween, hj, decide_false, Bool.false_and, Bool.false_or]
      rw [hhash]
      exact hiff
    · rw [hhash, hmagnet]
      exact hlink

/-- The operator's attempt, the only one with its hash, is the last one while no other went in. -/
structure Placed (q : OperatorRequest) (who : ι) (no : Nat) (w : World ι) : Prop where
  row : ∃ row, w.ledger.att (q.avid, no) = some row ∧ row.infoHash = q.infoHash ∧ row.magnet = q.link
  only : ∀ m row, w.ledger.att (q.avid, m) = some row → row.infoHash = q.infoHash → m = no
  last : grownSince who q.avid w.ledger w.log = false ↔ w.ledger.maxAttemptNo q.avid = no

theorem Placed.others {no : Nat} {hash : InfoHash} (hq : q.infoHash = some hash) (h : Placed q who no w)
    (ho : World.Others who w w₁) : Placed q who no w₁ := by
  induction ho with
  | refl => exact h
  | @tail w₂ w₃ _ hstep ih =>
    obtain ⟨j, op, r, hj, t, l', -, -, ha, rfl⟩ := hstep
    obtain ⟨row, hrow, hhash, hlink⟩ := ih.row
    obtain ⟨row', hrow', hhash', hlink'⟩ := att_kept ha hrow
    have honly : ∀ m r, l'.att (q.avid, m) = some r → r.infoHash = q.infoHash → m = no := by
      rcases answers_ledger ha with rfl | ⟨s, a, -, hg⟩
      · exact ih.only
      · have honly := ih.only
        rw [hq] at honly hhash ⊢
        exact fun m r hr hrh => Ledger.hash_unique_of_gives hg ⟨row, hrow, hhash⟩ honly hr hrh
    refine ⟨⟨row', hrow', hhash'.trans hhash, hlink'.trans hlink⟩, honly, ?_⟩
    have hle : no ≤ w₂.ledger.maxAttemptNo q.avid := Ledger.le_maxAttemptNo (by simp [hrow])
    have hgrown : w₂.ledger.maxAttemptNo q.avid ≤ l'.maxAttemptNo q.avid := Ledger.maxAttemptNo_mono fun k hk => by
      obtain ⟨row, hrow⟩ := Option.isSome_iff_exists.1 hk
      obtain ⟨row', hrow', -⟩ := att_kept ha hrow
      exact Option.isSome_iff_exists.2 ⟨row', hrow'⟩
    have hlast := ih.last
    simp only [grownSince, ne_eq, hj, not_false_eq_true, decide_true, Bool.true_and, Bool.or_eq_false_iff, decide_eq_false_iff_not,
      not_not]
    rw [hlast]
    omega

end Among

/-! ## The request's own actions -/

/-- A claim, or a magnet handed to CloudDrive. -/
def Op.commits : Op → Bool
  | .sql (.claimAttempt ..) | .ask (.addOfflineFiles ..) => true
  | _ => false

def Op.appends : Op → Bool
  | .sql (.addAttempts ..) => true
  | _ => false

def Op.readsBack : Op → Bool
  | .sql (.attemptsFor _) => true
  | _ => false

/-- The actions that have nothing to do with the magnet. -/
def Op.Aside (op : Op) : Prop := op.commits = false ∧ op.appends = false ∧ op.readsBack = false

section Own
variable {ι : Type} [DecidableEq ι] {who : ι} {w w' : World ι} {op : Op} {r : Except Exn op.Res} {q : OperatorRequest}

/-- Nothing is claimed or handed over. -/
def Idle (who : ι) (w : World ι) : Prop := ∀ ev ∈ ownEvents who w.log, ev.op.commits = false

/-- Nothing is appended either. -/
structure Before (q : OperatorRequest) (who : ι) (w : World ι) : Prop where
  idle : Idle who w
  appends : ∀ ev ∈ ownEvents who w.log, ev.op.appends = false
  ahead : appendedBetween who q.avid w.log = false

/-- The attempt is in, and nothing done since. -/
structure Added (q : OperatorRequest) (who : ι) (no : Nat) (w : World ι) : Prop where
  idle : Idle who w
  placed : Placed q who no w
  next : ∀ r, rereads q.avid (ownEvents who w.log) ⟨.sql (.attemptsFor q.avid), r⟩ = true
  ahead : appendedBetween who q.avid w.log = false

/-- This attempt is the request's. -/
structure Taken (q : OperatorRequest) (who : ι) (row : MagnetAttemptRecord) (w : World ι) : Prop where
  own : OwnOnly q who w
  claimed : ClaimedIn row (ownEvents who w.log)

theorem Idle.ownOnly (h : Idle who w) : OwnOnly q who w := by
  refine ⟨fun row hrow => ?_, fun links dir r hr => ?_⟩
  · obtain ⟨avid, no, at_, hmem⟩ := hrow
    cases h _ hmem
  · cases h _ hr

theorem appendedBetween_own (hop : op.readsBack = false) (ht : Pool.Among (World.Step fun _ _ => True) who w op r w') (avid : Avid) :
    appendedBetween who avid w'.log = appendedBetween who avid w.log := by
  obtain ⟨w₁, t, hothers, -, hlog, -⟩ := among_own ht
  have hnot : rereads avid (ownEvents who w₁.log) ⟨op, r⟩ = false := by
    cases op with
    | sql s =>
      cases s with
      | attemptsFor a => cases hop
      | _ => rfl
    | _ => rfl
  rw [hlog, appendedBetween, hnot, Bool.and_false, Bool.false_and, Bool.false_or, appendedBetween_others hothers]

theorem Idle.step (h : Idle who w) (hop : op.commits = false) (ht : Pool.Among (World.Step fun _ _ => True) who w op r w') :
    Idle who w' := by
  obtain ⟨w₁, t, -, -, -, hown⟩ := among_own ht
  unfold Idle
  rw [hown]
  exact List.forall_mem_cons.2 ⟨hop, h⟩

/-- Before the append, reading the attempts is no reading back. -/
theorem Before.step (h : Before q who w) (hop : op.commits = false) (happ : op.appends = false)
    (ht : Pool.Among (World.Step fun _ _ => True) who w op r w') : Before q who w' := by
  obtain ⟨w₁, t, hothers, -, hlog, hown⟩ := among_own ht
  refine ⟨h.idle.step hop ht, ?_, ?_⟩
  · rw [hown]
    exact List.forall_mem_cons.2 ⟨happ, h.appends⟩
  · have hnot : rereads q.avid (ownEvents who w₁.log) ⟨op, r⟩ = false := by
      rw [(others_kept hothers).1]
      have happends := h.appends
      unfold rereads
      split
      · split
        · rename_i heq
          rw [heq] at happends
          cases happends _ List.mem_cons_self
        · rw [Bool.and_false]
      · rfl
    rw [hlog, appendedBetween, hnot, Bool.and_false, Bool.false_and, Bool.false_or, appendedBetween_others hothers]
    exact h.ahead

theorem Before.append {c : MagnetCandidate} {at_ : Time} {hash : InfoHash} {n : Nat} (hc : c.infoHash = some hash)
    (hhash : q.infoHash = some hash) (hlink : c.magnet = q.link) (h : Before q who w) (hn : n ≠ 0)
    (ht : Pool.Among (World.Step fun _ _ => True) who w (.sql (.addAttempts q.avid [c] at_)) (.ok n) w') :
    ∃ no, Added q who no w' := by
  obtain ⟨w₁, t, hothers, ha, hlog, hown⟩ := among_own ht
  obtain ⟨⟨row, hrow, hrowHash, hrowLink⟩, honly⟩ := Ledger.addAttempts_one hc ha hn
  refine ⟨_, h.idle.step rfl ht, ⟨⟨row, hrow, hrowHash.trans hhash.symm, hrowLink.trans hlink⟩, ?_, ?_⟩, fun r => ?_, ?_⟩
  · rw [hhash]
    exact honly
  · rw [hlog]
    simp [grownSince]
  · rw [hown]
    simp [rereads]
  · rw [appendedBetween_own rfl ht]
    exact h.ahead

/-- The last attempt read back. -/
theorem Added.read {no : Nat} {hash : InfoHash} (hhash : q.infoHash = some hash) (h : Added q who no w)
    {rows : List MagnetAttemptRecord} {last : MagnetAttemptRecord} (hlast : rows.getLast? = some last)
    (ht : Pool.Among (World.Step fun _ _ => True) who w (.sql (.attemptsFor q.avid)) (.ok rows) w') :
    Chosen q who last.attemptNo w' := by
  obtain ⟨w₁, t, hothers, ha, hlog, -⟩ := among_own ht
  have hplaced := h.placed.others hhash hothers
  obtain ⟨rfl, hl⟩ : w₁.ledger.attemptsFor q.avid = rows ∧ w₁.ledger = w'.ledger := by
    simpa only [Answers, Sql.Gives, Sql.run, Except.ok.injEq, Prod.mk.injEq] using ha
  obtain ⟨hrow, hmax⟩ := Ledger.getLast_attemptsFor hlast
  have hbetween : appendedBetween who q.avid w'.log = grownSince who q.avid w₁.ledger w₁.log := by
    rw [hlog, appendedBetween, (others_kept hothers).1, h.next, appendedBetween_others hothers, h.ahead]
    simp
  obtain ⟨own, hown, hownHash, hownLink⟩ := hplaced.row
  have hsame : last.infoHash = q.infoHash ↔ last.attemptNo = no := by
    constructor
    · exact hplaced.only _ _ hrow
    · intro hno
      rw [hno, hown] at hrow
      rw [← Option.some.inj hrow]
      exact hownHash
  refine ⟨last, hl ▸ hrow, ?_, fun hlastHash => ?_⟩
  · rw [hsame, hbetween, hplaced.last, hmax]
  · rw [hsame.1 hlastHash, hown] at hrow
    rw [← Option.some.inj hrow]
    exact hownLink

theorem Chosen.step {no : Nat} (h : Chosen q who no w) (hop : op.readsBack = false)
    (ht : Pool.Among (World.Step fun _ _ => True) who w op r w') : Chosen q who no w' := by
  obtain ⟨w₁, t, hothers, ha, -, -⟩ := among_own ht
  obtain ⟨row, hrow, hiff, hlink⟩ := h.others hothers
  obtain ⟨row', hrow', hhash, hmagnet⟩ := att_kept ha hrow
  refine ⟨row', hrow', ?_, ?_⟩
  · rw [hhash, appendedBetween_own hop ht, ← appendedBetween_others hothers]
    exact hiff
  · rw [hhash, hmagnet]
    exact hlink

theorem Chosen.claim {no : Nat} {at_ : Time} {r : Except Exn (Option MagnetAttemptRecord)} (h : Chosen q who no w)
    (hidle : Idle who w) (ht : Pool.Among (World.Step fun _ _ => True) who w (.sql (.claimAttempt q.avid no at_)) r w') :
    OwnOnly q who w' ∧ ∀ row, r = .ok (some row) → Taken q who row w' := by
  obtain ⟨w₁, t, hothers, ha, -, hown⟩ := among_own ht
  have hclaimed : ∀ row, ClaimedIn row (ownEvents who w'.log) → r = .ok (some row) := by
    rintro row ⟨avid, no', at', hmem⟩
    rw [hown] at hmem
    rcases List.mem_cons.1 hmem with heq | hmem
    · cases heq
      rfl
    · cases hidle _ hmem
  have hown' : OwnOnly q who w' := by
    refine ⟨fun row hrow => ?_, fun links dir r' hr' => ?_⟩
    · rw [hclaimed row hrow] at ha
      obtain ⟨r₀, hr₀, -, rfl⟩ := ((Ledger.claimAttempt_spec ha).2.2 row).1 rfl
      obtain ⟨row', hrow', hiff, hlink⟩ := h.others hothers
      rw [hr₀] at hrow'
      cases hrow'
      rw [appendedBetween_own rfl ht, ← appendedBetween_others hothers]
      exact ⟨hiff, hlink⟩
    · rw [hown] at hr'
      rcases List.mem_cons.1 hr' with heq | hr'
      · cases heq
      · cases hidle _ hr'
  refine ⟨hown', fun row hrow => ⟨hown', q.avid, no, at_, ?_⟩⟩
  rw [hown, hrow]
  exact List.mem_cons_self

theorem OwnOnly.step (h : OwnOnly q who w) (hop : op.commits = false) (hread : op.readsBack = false)
    (ht : Pool.Among (World.Step fun _ _ => True) who w op r w') : OwnOnly q who w' := by
  obtain ⟨w₁, t, -, -, -, hown⟩ := among_own ht
  have hold : ∀ {ev : Event}, ev.op.commits = true → ev ∈ ownEvents who w'.log → ev ∈ ownEvents who w.log := by
    intro ev hev hmem
    rw [hown] at hmem
    rcases List.mem_cons.1 hmem with rfl | hmem
    · rw [hop] at hev
      cases hev
    · exact hmem
  refine ⟨fun row hrow => ?_, fun links dir r' hr' => ?_⟩
  · obtain ⟨avid, no, at_, hmem⟩ := hrow
    rw [appendedBetween_own hread ht]
    exact h.claimed row ⟨avid, no, at_, hold rfl hmem⟩
  · obtain ⟨row, ⟨avid, no, at_, hmem⟩, hlinks⟩ := h.handed links dir r' (hold rfl hr')
    refine ⟨row, ⟨avid, no, at_, ?_⟩, hlinks⟩
    rw [hown]
    exact List.mem_cons_of_mem _ hmem

theorem Taken.kept {row : MagnetAttemptRecord} (h : Taken q who row w) (hown' : OwnOnly q who w')
    (ht : Pool.Among (World.Step fun _ _ => True) who w op r w') : Taken q who row w' := by
  obtain ⟨w₁, t, -, -, -, hown⟩ := among_own ht
  obtain ⟨avid, no, at_, hmem⟩ := h.claimed
  refine ⟨hown', avid, no, at_, ?_⟩
  rw [hown]
  exact List.mem_cons_of_mem _ hmem

theorem Taken.hand {row : MagnetAttemptRecord} {dir : String} {r : Except Exn Bool} (h : Taken q who row w)
    (ht : Pool.Among (World.Step fun _ _ => True) who w (.ask (.addOfflineFiles [row.magnet] dir)) r w') :
    Taken q who row w' := by
  obtain ⟨w₁, t, -, -, -, hown⟩ := among_own ht
  have grows : ∀ {row'}, ClaimedIn row' (ownEvents who w.log) → ClaimedIn row' (ownEvents who w'.log) := by
    rintro row' ⟨avid, no, at_, hmem⟩
    exact ⟨avid, no, at_, hown ▸ List.mem_cons_of_mem _ hmem⟩
  refine h.kept ⟨fun row' hrow' => ?_, fun links dir' r' hr' => ?_⟩ ht
  · obtain ⟨avid, no, at_, hmem⟩ := hrow'
    rw [hown] at hmem
    rw [appendedBetween_own rfl ht]
    rcases List.mem_cons.1 hmem with heq | hmem
    · cases heq
    · exact h.own.claimed row' ⟨avid, no, at_, hmem⟩
  · rw [hown] at hr'
    rcases List.mem_cons.1 hr' with heq | hr'
    · cases heq
      exact ⟨row, grows h.claimed, rfl⟩
    · obtain ⟨row', hrow', hlinks⟩ := h.own.handed links dir' r' hr'
      exact ⟨row', grows hrow', hlinks⟩

end Own

/-! ## The two requests -/

theorem aside_parkUnresolved (i : Intake) (avid : Avid) : Uses Op.Aside (Intake.parkUnresolved i avid) := by
  unfold Intake.parkUnresolved
  refine uses_bind (uses_ok ⟨rfl, rfl, rfl⟩) fun record => ?_
  cases record with
  | none => trivial
  | some record =>
    refine uses_ite ?_ trivial
    unfold Intake.repark ensureReleaseDate
    refine uses_bind (uses_ite trivial (uses_bind (uses_ok ⟨rfl, rfl, rfl⟩) fun found => ?_)) fun date => ?_
    · cases found with
      | none => trivial
      | some date => exact uses_bind (uses_discard (uses_ok ⟨rfl, rfl, rfl⟩)) fun _ => trivial
    · exact uses_bind (uses_ok ⟨rfl, rfl, rfl⟩) fun at_ => uses_discard (uses_transition ⟨rfl, rfl, rfl⟩)

theorem aside_load (avid : Avid) : Uses Op.Aside (Dashboard.load avid) := by
  unfold Dashboard.load
  refine uses_bind (uses_ok ⟨rfl, rfl, rfl⟩) fun record => ?_
  cases record <;> trivial

theorem aside_handOver (record : AcquisitionRecord) : Uses Op.Aside (Dashboard.handOver record) := by
  unfold Dashboard.handOver Dashboard.move
  refine uses_ite (aside_load _) (uses_bind (uses_ok ⟨rfl, rfl, rfl⟩) fun at_ => ?_)
  exact uses_bind (uses_transition ⟨rfl, rfl, rfl⟩) fun won => uses_ite (aside_load _) trivial

theorem aside_beginReplacement (avid : Avid) (source taskDir : String) (paths : List String) (at_ : Time) :
    Uses Op.Aside (beginReplacement avid source taskDir paths at_) := by
  unfold beginReplacement
  refine uses_bind (uses_ok ⟨rfl, rfl, rfl⟩) fun b => ?_
  exact uses_ite (uses_ok ⟨rfl, rfl, rfl⟩) trivial

section Requests
variable {ι : Type} [DecidableEq ι] {who : ι} {w : World ι} {q : OperatorRequest}

/-- The action keeps to the operator's own magnet. -/
abbrev KeepsOwn (q : OperatorRequest) (who : ι) (w : World ι) (op : Op) : Prop :=
  ∀ r w', Pool.Among (World.Step fun _ _ => True) who w op r w' → OwnOnly q who w'

theorem wp_own {op : Op} {Q : op.Res → World ι → Prop} {X : Exn → World ι → Prop}
    (hown : ∀ r w', Pool.Among (World.Step fun _ _ => True) who w op r w' → OwnOnly q who w')
    (hok : ∀ a w', Pool.Among (World.Step fun _ _ => True) who w op (.ok a) w' → Q a w')
    (herr : ∀ e w', Pool.Among (World.Step fun _ _ => True) who w op (.error e) w' → X e w') :
    (call op : M op.Res).wp (Pool.Among (World.Step fun _ _ => True) who) (KeepsOwn q who) Q X w :=
  (wp_call op).2 ⟨hown, hok, herr⟩

theorem wp_before {α : Type} {p : M α} (hp : Uses Op.Aside p) (h : Before q who w) {Q : α → World ι → Prop}
    (hQ : ∀ a w', Before q who w' → Q a w') :
    p.wp (Pool.Among (World.Step fun _ _ => True) who) (KeepsOwn q who) Q (fun _ _ => True) w := by
  have hkeeps := keeps_of_uses (T := Pool.Among (World.Step fun _ _ => True) who) (G := KeepsOwn q who) (I := Before q who) hp
    (fun _ _ hop h _ _ ht => (h.step hop.1 hop.2.1 ht).idle.ownOnly) fun _ _ _ _ hop h ht => h.step hop.1 hop.2.1 ht
  exact wp_mono (hkeeps w h) hQ fun _ _ _ => trivial

theorem wp_after {α : Type} {p : M α} (hp : Uses Op.Aside p) (h : OwnOnly q who w) :
    p.wp (Pool.Among (World.Step fun _ _ => True) who) (KeepsOwn q who) (fun _ => OwnOnly q who) (fun _ => OwnOnly q who) w := by
  have hstep : ∀ w op r w', Op.Aside op → OwnOnly q who w → Pool.Among (World.Step fun _ _ => True) who w op r w' →
      OwnOnly q who w' := fun _ _ _ _ hop h ht => h.step hop.1 hop.2.2 ht
  exact keeps_of_uses hp (fun w op hop h r w' => hstep w op r w' hop h) hstep w h

theorem wp_submitMagnet {row : MagnetAttemptRecord} (h : Taken q who row w) (cloudConfigured : Bool)
    (fallbackDirs : List String) (avid : Avid) :
    (submitMagnet cloudConfigured fallbackDirs avid row.magnet).wp (Pool.Among (World.Step fun _ _ => True) who) (KeepsOwn q who)
      (fun _ => OwnOnly q who) (fun _ => OwnOnly q who) w := by
  have quiet : ∀ {r w'}, Pool.Among (World.Step fun _ _ => True) who w (.sql (.getAcquisition avid)) r w' →
      Taken q who row w' := fun ht => h.kept (h.own.step rfl rfl ht) ht
  unfold submitMagnet
  refine wp_ite (fun _ => h.own) fun _ => (wp_bind _ _).2 (wp_own (fun r w' ht => (quiet ht).own) (fun record w₁ ht => ?_)
    fun e w' ht => (quiet ht).own)
  have h₁ := quiet ht
  generalize (record.bind (·.taskDirPath)).or fallbackDirs.head? = dir
  cases dir with
  | none => exact h₁.own
  | some dir =>
    refine (wp_bind _ _).2 ((wp_attempt _).2 (wp_own (fun r w' ht => (h₁.hand ht).own) (fun b w' ht => (h₁.hand ht).own)
      fun e w' ht => ?_))
    cases e <;> exact (h₁.hand ht).own

theorem wp_claimAttempt {no : Nat} {at_ : Time} (h : Chosen q who no w) (hidle : Idle who w)
    {Q : Option MagnetAttemptRecord → World ι → Prop} {X : Exn → World ι → Prop} (hnone : ∀ w', OwnOnly q who w' → Q none w')
    (hsome : ∀ row w', Taken q who row w' → Q (some row) w') (hX : ∀ e w', OwnOnly q who w' → X e w') :
    (claimAttempt q.avid no at_).wp (Pool.Among (World.Step fun _ _ => True) who) (KeepsOwn q who) Q X w := by
  unfold claimAttempt
  refine (wp_bind _ _).2 ((wp_attempt _).2 (wp_own (fun r w' ht => (h.claim hidle ht).1) (fun claimed w' ht => ?_) fun e w' ht => ?_))
  · obtain ⟨hown, htaken⟩ := h.claim hidle ht
    cases claimed with
    | none => exact hnone w' hown
    | some row => exact hsome row w' (htaken row rfl)
  · have hown := (h.claim hidle ht).1
    cases e <;> exact hX _ w' hown

/-- A refused attempt is given back. -/
theorem wp_giveBack {α : Type} {no : Nat} {error : Option String} {p : M α} (hp : Uses Op.Aside p) (h : OwnOnly q who w)
    (avid : Avid) :
    (do let refused ← now
        discard (transitionAttempt avid no .submitted .error refused error)
        p : M α).wp (Pool.Among (World.Step fun _ _ => True) who) (KeepsOwn q who) (fun _ => OwnOnly q who)
      (fun _ => OwnOnly q who) w := by
  refine wp_after (uses_bind (uses_ok ⟨rfl, rfl, rfl⟩) fun at_ => uses_bind (uses_discard ?_) fun _ => hp) h
  exact uses_transitionAttempt ⟨rfl, rfl, rfl⟩

theorem wp_submit {no : Nat} (h : Chosen q who no w) (hidle : Idle who w) (d : Dashboard) :
    (d.submit q.avid (some no)).wp (Pool.Among (World.Step fun _ _ => True) who) (KeepsOwn q who) (fun _ => OwnOnly q who)
      (fun _ => OwnOnly q who) w := by
  unfold Dashboard.submit
  refine wp_ite (fun _ => hidle.ownOnly) fun _ => (wp_bind _ _).2 (wp_own (fun r w' ht => (hidle.step rfl ht).ownOnly)
    (fun at_ w₁ ht => ?_) fun e w' ht => (hidle.step rfl ht).ownOnly)
  have h₁ := h.step rfl ht
  have hidle₁ := hidle.step rfl ht
  unfold Dashboard.claimed
  refine (wp_bind _ _).2 ((wp_bind _ _).2 ((wp_attempt _).2 (wp_claimAttempt h₁ hidle₁ (fun w' hown => hown) (fun row w₂ htaken => ?_)
    fun e w' hown => ?_)))
  · refine (wp_bind _ _).2 (wp_mono (wp_submitMagnet htaken _ _ _) (fun accepted w₃ hown => ?_) fun _ _ h => h)
    exact wp_ite (fun _ => hown) fun _ => wp_giveBack (uses_raise _) hown _
  · cases e <;> exact hown

theorem wp_added {c : MagnetCandidate} {hash : InfoHash} (hc : c.infoHash = some hash) (hhash : q.infoHash = some hash)
    (hlink : c.magnet = q.link) (h : Before q who w) {at_ : Time} {Q : Nat → World ι → Prop}
    (hzero : ∀ w', OwnOnly q who w' → Q 0 w') (hadded : ∀ n no w', n ≠ 0 → Added q who no w' → Q n w') :
    (addAttempts q.avid [c] at_).wp (Pool.Among (World.Step fun _ _ => True) who) (KeepsOwn q who) Q (fun _ => OwnOnly q who) w := by
  unfold addAttempts
  rw [if_neg (List.cons_ne_nil _ _)]
  refine wp_own (fun r w' ht => (h.idle.step rfl ht).ownOnly) (fun n w' ht => ?_) fun e w' ht => (h.idle.step rfl ht).ownOnly
  rcases Nat.eq_zero_or_pos n with rfl | hn
  · exact hzero w' (h.idle.step rfl ht).ownOnly
  · obtain ⟨no, hno⟩ := h.append hc hhash hlink (Nat.pos_iff_ne_zero.1 hn) ht
    exact hadded n no w' (Nat.pos_iff_ne_zero.1 hn) hno

theorem wp_readBack {no : Nat} {hash : InfoHash} (hhash : q.infoHash = some hash) (h : Added q who no w)
    {Q : List MagnetAttemptRecord → World ι → Prop}
    (hQ : ∀ rows w', OwnOnly q who w' → (∀ last, rows.getLast? = some last → Chosen q who last.attemptNo w' ∧ Idle who w') → Q rows w') :
    (attemptsFor q.avid).wp (Pool.Among (World.Step fun _ _ => True) who) (KeepsOwn q who) Q (fun _ => OwnOnly q who) w := by
  refine wp_own (fun r w' ht => (h.idle.step rfl ht).ownOnly) (fun rows w' ht => ?_) fun e w' ht => (h.idle.step rfl ht).ownOnly
  exact hQ rows w' (h.idle.step rfl ht).ownOnly fun last hlast => ⟨h.read hhash hlast ht, h.idle.step rfl ht⟩

theorem wp_addMagnet_among (d : Dashboard) (avid : Avid) (link : String) (h : Before (.magnet d avid link) who w) :
    (d.addMagnet avid link).wp (Pool.Among (World.Step fun _ _ => True) who) (KeepsOwn (.magnet d avid link) who)
      (fun _ _ => True) (fun _ _ => True) w := by
  unfold Dashboard.addMagnet
  refine (wp_bind _ _).2 (wp_before (aside_load avid) h fun record w₁ h₁ => wp_ite (fun _ => trivial) fun _ => ?_)
  cases hm : Intake.isMagnet link with
  | false => trivial
  | true =>
    cases hhash : d.readers.extractInfoHash link with
    | none => trivial
    | some hash =>
      refine (wp_bind _ _).2 (wp_before (uses_ok ⟨rfl, rfl, rfl⟩) h₁ fun at_ w₂ h₂ => (wp_bind _ _).2 ?_)
      refine wp_mono (wp_added (q := .magnet d avid link) rfl hhash rfl h₂ (fun w' _ => trivial) fun n no w₃ hn h₃ => ?_)
        (fun _ _ h => h) fun _ _ _ => trivial
      rw [if_neg hn]
      refine (wp_bind _ _).2 (wp_mono (wp_readBack (q := .magnet d avid link) hhash h₃ fun rows w₄ hown₄ hlast => ?_) (fun _ _ h => h) fun _ _ _ => trivial)
      cases hrows : rows.getLast? with
      | none => trivial
      | some last =>
        obtain ⟨h₄, hidle₄⟩ := hlast last hrows
        refine (wp_bind _ _).2 (wp_mono (wp_submit h₄ hidle₄ d) (fun _ w₅ hown => ?_) fun _ _ _ => trivial)
        exact wp_mono (wp_after (aside_handOver record) hown) (fun _ _ _ => trivial) fun _ _ _ => trivial

theorem wp_plan {s : ReplacementSource} {text : String} (h : Before q who w) :
    (s.plan text).wp (Pool.Among (World.Step fun _ _ => True) who) (KeepsOwn q who)
      (fun plan w' => plan.avid = s.readers.getAvid (s.strip text) ∧ Before q who w') (fun _ _ => True) w := by
  unfold ReplacementSource.plan
  refine wp_ite (fun _ => trivial) fun _ => (wp_bind _ _).2 (wp_before (uses_ok ⟨rfl, rfl, rfl⟩) h fun holdings w₁ h₁ => ?_)
  exact (wp_bind _ _).2 (wp_before (uses_ok ⟨rfl, rfl, rfl⟩) h₁ fun record w₂ h₂ => ⟨rfl, h₂⟩)

theorem wp_operatorCandidate {s : ReplacementSource} {text link : String} (hpasted : s.strip link ≠ "")
    (h : Before (.replacement s text link) who w) (avid : Avid) :
    (s.operatorCandidate avid (some link)).wp (Pool.Among (World.Step fun _ _ => True) who) (KeepsOwn (.replacement s text link) who)
      (fun candidate w' => (∃ hash, s.readers.extractInfoHash (s.strip link) = some hash ∧
          candidate = some { magnet := s.strip link, infoHash := some hash, source := "manual" }) ∧
        Before (.replacement s text link) who w') (fun _ _ => True) w := by
  have hlink : ((some link).map s.strip).filter (· ≠ "") = some (s.strip link) := by simp [hpasted]
  unfold ReplacementSource.operatorCandidate
  rw [hlink]
  cases hm : Intake.isMagnet (s.strip link) with
  | false => simp only [hm, wp_raise]
  | true =>
    cases hhash : s.readers.extractInfoHash (s.strip link) with
    | none => simp only [hm, hhash, wp_raise]
    | some hash =>
      simp only [hm, hhash]
      refine (wp_bind _ _).2 (wp_own (fun r w' ht => (h.step rfl rfl ht).idle.ownOnly) (fun rows w' ht => ?_) fun _ _ _ => trivial)
      exact wp_ite (fun _ => trivial) fun _ => ⟨⟨hash, rfl, rfl⟩, h.step rfl rfl ht⟩

theorem wp_submitOperatorMagnet {s : ReplacementSource} {text link : String} {hash : InfoHash}
    (hhash : s.readers.extractInfoHash (s.strip link) = some hash) (h : Before (.replacement s text link) who w) :
    (s.submitOperatorMagnet (s.readers.getAvid (s.strip text))
        { magnet := s.strip link, infoHash := some hash, source := "manual" }).wp
      (Pool.Among (World.Step fun _ _ => True) who) (KeepsOwn (.replacement s text link) who)
      (fun _ => OwnOnly (.replacement s text link) who) (fun _ _ => True) w := by
  unfold ReplacementSource.submitOperatorMagnet
  refine (wp_bind _ _).2 (wp_before (uses_ok ⟨rfl, rfl, rfl⟩) h fun at_ w₁ h₁ => (wp_bind _ _).2 ?_)
  refine wp_mono (wp_added (q := .replacement s text link) rfl hhash rfl h₁ (fun w' hown => hown) fun n no w₂ hn h₂ => ?_)
    (fun _ _ h => h) fun _ _ _ => trivial
  rw [if_neg hn]
  refine (wp_bind _ _).2 (wp_mono (wp_readBack (q := .replacement s text link) hhash h₂ fun rows w₃ hown₃ hlast => ?_)
    (fun _ _ h => h) fun _ _ _ => trivial)
  cases hrows : rows.getLast? with
  | none => trivial
  | some last =>
    obtain ⟨h₃, hidle₃⟩ := hlast last hrows
    refine (wp_bind _ _).2 ((wp_attempt _).2 (wp_claimAttempt h₃ hidle₃ (fun w' hown => hown) (fun row w₄ htaken => ?_)
      fun e w' hown => ?_))
    · refine (wp_bind _ _).2 (wp_mono (wp_submitMagnet htaken _ _ _) (fun accepted w₅ hown => wp_ite (fun _ => ?_) fun _ => ?_)
        fun _ _ _ => trivial)
      · refine wp_mono (wp_after (uses_bind (uses_ok ⟨rfl, rfl, rfl⟩) fun at_ => uses_bind (uses_discard ?_) fun _ => ?_) hown)
          (fun _ _ h => h) fun _ _ _ => trivial
        · exact uses_transition ⟨rfl, rfl, rfl⟩
        · trivial
      · exact wp_mono (wp_giveBack (uses_pure _) hown _) (fun _ _ h => h) fun _ _ _ => trivial
    · cases e <;> trivial

theorem wp_start (s : ReplacementSource) (text link : String) (hpasted : s.strip link ≠ "")
    (h : Before (.replacement s text link) who w) :
    (s.start text (some link)).wp (Pool.Among (World.Step fun _ _ => True) who) (KeepsOwn (.replacement s text link) who)
      (fun _ _ => True) (fun _ _ => True) w := by
  unfold ReplacementSource.start
  refine (wp_bind _ _).2 (wp_mono (wp_plan h) (fun plan w₁ ⟨havid, h₁⟩ => ?_) fun _ _ h => h)
  cases hblocked : plan.blocked with
  | some code => trivial
  | none =>
    cases hintake : s.intake with
    | none => trivial
    | some intake =>
      cases hdir : plan.taskDirPath with
      | none => trivial
      | some taskDir =>
        refine (wp_bind _ _).2 (wp_mono (wp_operatorCandidate hpasted h₁ _) (fun candidate w₂ ⟨⟨hash, hhash, hc⟩, h₂⟩ => ?_)
          fun _ _ h => h)
        refine (wp_bind _ _).2 (wp_before (uses_ok ⟨rfl, rfl, rfl⟩) h₂ fun at_ w₃ h₃ => (wp_bind _ _).2 ?_)
        refine wp_before (aside_beginReplacement _ _ _ _ _) h₃ fun begun w₄ h₄ => ?_
        cases begun with
        | none => trivial
        | some record =>
          rw [hc, havid]
          refine (wp_bind _ _).2 (wp_mono (wp_submitOperatorMagnet hhash h₄) (fun outcome w₅ hown => ?_) fun _ _ h => h)
          refine wp_mono (wp_after (uses_bind (uses_runIf (aside_parkUnresolved _ _)) fun _ => uses_bind (uses_ok ⟨rfl, rfl, rfl⟩)
            fun current => ?_) hown) (fun _ _ _ => trivial) fun _ _ _ => trivial
          trivial

end Requests

/-! ## Every interleaving -/

section Runs
variable {ι : Type} [DecidableEq ι] {who : ι} {q : OperatorRequest}

theorem OperatorRequest.wp_program (hpasted : q.Pasted) {w : World ι} (h : Before q who w) :
    q.program.wp (Pool.Among (World.Step fun _ _ => True) who) (KeepsOwn q who) (fun _ _ => True) (fun _ _ => True) w := by
  cases q with
  | magnet d avid link => exact (wp_discard _).2 (wp_addMagnet_among d avid link h)
  | replacement s text link => exact (wp_discard _).2 (wp_start s text link hpasted h)

theorem OwnOnly.others {w w' : World ι} (h : OwnOnly q who w) (ho : World.Others who w w') : OwnOnly q who w' := by
  obtain ⟨hclaimed, hhanded⟩ := h
  rw [← appendedBetween_others ho, ← (others_kept ho).1] at hclaimed
  rw [← (others_kept ho).1] at hhanded
  exact ⟨hclaimed, hhanded⟩

/-- In every interleaving of the request with anything else that is done to the ledger, what it claims
carries the hash of the operator's magnet exactly when no attempt of the AVID went in between its own
append and the read that follows it; and it hands nothing to CloudDrive but what it claimed. -/
theorem own_magnet_iff (hpasted : q.Pasted) {c₀ c : Pool Op.Res Exn Unit (World ι) ι} (hq : c₀.prog who = q.program)
    (hlog : c₀.world.log = []) (h : Pool.Reach (World.Step fun _ _ => True) c₀ c) :
    (∀ row, ClaimedIn row (ownEvents who c.world.log) →
      (row.infoHash = q.infoHash ↔ appendedBetween who q.avid c.world.log = false) ∧ (row.infoHash = q.infoHash → row.magnet = q.link)) ∧
    ∀ links dir r, (⟨.ask (.addOfflineFiles links dir), r⟩ : Event) ∈ ownEvents who c.world.log →
      ∃ row, ClaimedIn row (ownEvents who c.world.log) ∧ links = [row.magnet] := by
  obtain ⟨w, hstops, hothers⟩ := Pool.reach_among h who
  rw [hq] at hstops
  have hown : ownEvents who c₀.world.log = [] := by rw [hlog]; rfl
  have hbefore : Before q who c₀.world := by
    refine ⟨?_, ?_, by rw [hlog]; rfl⟩
    · unfold Idle
      rw [hown]
      exact List.forall_mem_nil _
    · rw [hown]
      exact List.forall_mem_nil _
  have hkept : OwnOnly q who w := wp_stops (I := OwnOnly q who) (fun _ _ r w' _ hg ht => hg r w' ht)
    (q.wp_program hpasted hbefore) hbefore.idle.ownOnly hstops
  obtain ⟨hclaimed, hhanded⟩ := hkept.others hothers
  exact ⟨hclaimed, hhanded⟩

end Runs

/-! ## A feed in between -/

namespace Overtaking

def hexOf (c : Char) : InfoHash := String.ofList (List.replicate 40 c)

def magnetOf (c : Char) : String := "magnet:?xt=urn:btih:" ++ hexOf c

def readers : Readers :=
  { plainReaders with extractInfoHash := fun m => if m = magnetOf 'A' then some (hexOf 'A') else none }

def request : OperatorRequest := .magnet { readers, fallbackDirs := ["/inbox"] } "A-1" (magnetOf 'A')

/-- A request for a queued AVID, and a feed that found another magnet of it. -/
def start : Pool Op.Res Exn Unit (World (Fin 2)) (Fin 2) where
  world := ⟨(Ledger.empty.insertAcquisition "A-1" "manual" (some "/inbox") none none 0).2, 0, []⟩
  prog i := if i = 0 then request.program else discard (addAttempts "A-1" [⟨magnetOf 'B', some (hexOf 'B'), "rss", none⟩] 1)

/-- CloudDrive takes everything. -/
def taking : World.Outside
  | .addOfflineFiles .. => .ok true
  | _ => .error ⟨.failure "", trivial⟩

/-- The request alone. -/
def taken : Pool Op.Res Exn Unit (World (Fin 2)) (Fin 2) := World.schedule (List.replicate 9 (0, 1, taking)) start

/-- The feed between the request's third action and its fourth. -/
def overtook : Pool Op.Res Exn Unit (World (Fin 2)) (Fin 2) :=
  World.schedule (List.replicate 3 (0, 1, taking) ++ (1, 1, taking) :: List.replicate 6 (0, 1, taking)) start

/-- The attempts a run claimed. -/
def claims (h : List Event) : List MagnetAttemptRecord :=
  h.filterMap fun
    | ⟨.sql (.claimAttempt ..), .ok row⟩ => row
    | _ => none

theorem mem_claims {row : MagnetAttemptRecord} {h : List Event} (hrow : row ∈ claims h) : ClaimedIn row h := by
  obtain ⟨ev, hev, hsome⟩ := List.mem_filterMap.1 hrow
  split at hsome
  · rename_i avid no at_ claimed
    subst hsome
    exact ⟨avid, no, at_, hev⟩
  · cases hsome

end Overtaking

open Overtaking in
theorem own_magnet_iff_undisturbed :
    ∃ row, ClaimedIn row (ownEvents 0 taken.world.log) ∧ row.infoHash = some (hexOf 'A') ∧ row.magnet = magnetOf 'A' := by
  have hprog : start.prog (0 : Fin 2) = request.program := rfl
  have hlog : start.world.log = [] := rfl
  obtain ⟨hclaimed, -⟩ := own_magnet_iff (q := request) trivial hprog hlog
    (World.reach_schedule (List.replicate 9 (0, 1, taking)) start)
  have hrow : (claims (ownEvents 0 taken.world.log)).length = 1 := by decide
  obtain ⟨row, hrows⟩ := List.length_eq_one_iff.1 hrow
  have hin : ClaimedIn row (ownEvents 0 taken.world.log) := mem_claims (by rw [hrows]; exact List.mem_singleton_self row)
  have hahead : appendedBetween 0 request.avid taken.world.log = false := by decide
  have hhash : request.infoHash = some (hexOf 'A') := by decide
  obtain ⟨hiff, hlink⟩ := hclaimed row hin
  exact ⟨row, hin, (hiff.2 hahead).trans hhash, hlink (hiff.2 hahead)⟩

open Overtaking in
/-- The feed's magnet goes to CloudDrive in place of the operator's. -/
theorem not_own_magnet_overtook :
    ¬∀ c, Pool.Reach (World.Step fun _ _ => True) start c → ∀ row, ClaimedIn row (ownEvents 0 c.world.log) →
      row.infoHash = request.infoHash := by
  intro h
  have hrow : (claims (ownEvents 0 overtook.world.log)).any (fun row => row.infoHash ≠ request.infoHash) = true := by decide
  obtain ⟨row, hmem, hne⟩ := List.any_eq_true.1 hrow
  have hreach := World.reach_schedule (List.replicate 3 (0, 1, taking) ++ (1, 1, taking) :: List.replicate 6 (0, 1, taking)) start
  exact (of_decide_eq_true hne) (h _ hreach row (mem_claims hmem))

end EmbyxManager
