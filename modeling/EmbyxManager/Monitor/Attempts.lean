import EmbyxManager.Monitor.Repository
import EmbyxManager.Monitor.Effects
/-!
# The attempts of the ledger

What every writer of `archive_magnet_attempts` keeps, whichever guard it has: the lock on
the parent row that numbers new attempts, the compare-and-set of a transition, the
sub-select of a claim and the unique index behind it. The processes call the repository
in any order, and each statement is one action.
-/

namespace EmbyxManager
open Atom

/-! ## What `add_attempts` appends -/

namespace Ledger
section Append
variable {a : Avid} {now : Time}

/-- The appended rows are numbered on without a gap. -/
theorem newAttempts_numbers (no : Nat) (seen : List InfoHash) (cs : List MagnetCandidate) :
    (newAttempts a now no seen cs).map (·.attemptNo) = List.range' no (newAttempts a now no seen cs).length := by
  induction cs generalizing no seen with
  | nil => rfl
  | cons c cs ih =>
    simp only [newAttempts]
    split
    · split
      · exact ih no seen
      · simp [ih, List.range'_succ]
    · simp [ih, List.range'_succ]

/-- No appended row has a hash that was tried, and no two have the same. -/
theorem newAttempts_hashes (no : Nat) (seen : List InfoHash) (cs : List MagnetCandidate) :
    (∀ r ∈ newAttempts a now no seen cs, ∀ h, r.infoHash = some h → h ∉ seen) ∧
      ((newAttempts a now no seen cs).filterMap (·.infoHash)).Nodup := by
  induction cs generalizing no seen with
  | nil => simp [newAttempts]
  | cons c cs ih =>
    simp only [newAttempts]
    split
    · rename_i h hc
      split
      · exact ih no seen
      · rename_i hseen
        obtain ⟨hfresh, hnodup⟩ := ih (no + 1) (h :: seen)
        refine ⟨fun r hr h' hr' => ?_, ?_⟩
        · rcases List.mem_cons.1 hr with rfl | hr
          · rw [hc] at hr'
            cases hr'
            exact hseen
          · exact fun hm => hfresh r hr h' hr' (List.mem_cons_of_mem _ hm)
        · rw [List.filterMap_cons_some (by exact hc), List.nodup_cons]
          refine ⟨fun hm => ?_, hnodup⟩
          obtain ⟨r, hr, hrh⟩ := List.mem_filterMap.1 hm
          exact hfresh r hr h hrh List.mem_cons_self
    · rename_i hc
      obtain ⟨hfresh, hnodup⟩ := ih (no + 1) seen
      refine ⟨fun r hr h' hr' => ?_, ?_⟩
      · rcases List.mem_cons.1 hr with rfl | hr
        · rw [hc] at hr'
          cases hr'
        · exact hfresh r hr h' hr'
      · rw [List.filterMap_cons_none (by exact hc)]
        exact hnodup

/-- Rows under keys of their own that a table lacks all go in. -/
theorem find_foldl_insertNew_mem {ρ κ : Type} [DecidableEq κ] {key : ρ → κ} {rs : List ρ} (t : Table ρ κ key)
    (hn : (rs.map key).Nodup) {r : ρ} (hr : r ∈ rs) (ht : t.find (key r) = none) :
    (rs.foldl .insertNew t).find (key r) = some r := by
  induction rs generalizing t with
  | nil => cases hr
  | cons x rs ih =>
    rw [List.map_cons, List.nodup_cons] at hn
    rcases List.mem_cons.1 hr with rfl | hr
    · refine (find_foldl_insertNew rs _ (key r)).1 r ?_
      rw [Table.find_insertNew, if_pos ⟨ht, rfl⟩]
    · refine ih _ hn.2 hr ?_
      rw [Table.find_insertNew, if_neg]
      · exact ht
      · rintro ⟨-, hk⟩
        exact hn.1 (hk ▸ List.mem_map_of_mem hr)

theorem foldl_max_le {xs : List Nat} {b n : Nat} : xs.foldl max b ≤ n ↔ b ≤ n ∧ ∀ x ∈ xs, x ≤ n := by
  induction xs generalizing b with
  | nil => simp
  | cons x xs ih => simp [ih, and_assoc]

theorem mem_attemptNos {l : Ledger} {n : Nat} :
    n ∈ (l.attempts.rows.filter fun r => r.avid = a).map (·.attemptNo) ↔ (l.att (a, n)).isSome := by
  simp only [List.mem_map, List.mem_filter, decide_eq_true_eq, Option.isSome_iff_exists]
  constructor
  · rintro ⟨r, ⟨hr, rfl⟩, rfl⟩
    exact ⟨r, att_of_mem hr⟩
  · rintro ⟨r, hr⟩
    have hk := att_key hr
    exact ⟨r, ⟨mem_of_att hr, congrArg Prod.fst hk⟩, congrArg Prod.snd hk⟩

theorem maxAttemptNo_eq {l : Ledger} {n : Nat} (h : ∀ m, (l.att (a, m)).isSome ↔ 1 ≤ m ∧ m ≤ n) :
    l.maxAttemptNo a = n := by
  unfold maxAttemptNo
  refine le_antisymm (foldl_max_le.2 ⟨Nat.zero_le n, fun x hx => ((h x).1 (mem_attemptNos.1 hx)).2⟩) ?_
  rcases Nat.eq_zero_or_pos n with rfl | hn
  · exact Nat.zero_le _
  · exact (foldl_max_le.1 le_rfl).2 n (mem_attemptNos.2 ((h n).2 ⟨hn, le_rfl⟩))

theorem le_maxAttemptNo {l : Ledger} {n : Nat} (h : (l.att (a, n)).isSome) : n ≤ l.maxAttemptNo a :=
  (foldl_max_le.1 le_rfl).2 n (mem_attemptNos.2 h)

/-- The rows `add_attempts` appends to the ledger it finds. -/
def appended (l : Ledger) (avid : Avid) (cs : List MagnetCandidate) (now : Time) : List MagnetAttemptRecord :=
  newAttempts avid now (l.maxAttemptNo avid + 1) ((l.attempts.rows.filter fun r => r.avid = avid).filterMap (·.infoHash)) cs

/-- They go in as they are, next to what was there. -/
theorem att_addAttempts {l l' : Ledger} {cs : List MagnetCandidate} {c : Nat} (h : l.addAttempts a cs now = .ok (c, l'))
    (k : AttemptKey) (r : MagnetAttemptRecord) :
    l'.att k = some r ↔ l.att k = some r ∨ (r ∈ l.appended a cs now ∧ r.key = k) := by
  obtain ⟨l₁, hw, he⟩ := map_ok h
  cases he
  obtain ⟨-, hrows⟩ := withAttempts_ok hw
  change _ = (l.appended a cs now).foldl .insertNew l.attempts at hrows
  have hnums : (l.appended a cs now).map (·.attemptNo) = _ := newAttempts_numbers _ _ _
  have hmem : ∀ r ∈ l.appended a cs now, r.avid = a := fun r hr => (mem_newAttempts hr).1
  generalize l.appended a cs now = rows at hrows hnums hmem ⊢
  have hkeys : (rows.map (·.key)).Nodup := by
    have hmap : rows.map (·.key) = (rows.map (·.attemptNo)).map fun m => (a, m) := by
      rw [List.map_map]
      refine List.map_congr_left fun r hr => ?_
      simp [MagnetAttemptRecord.key, hmem r hr]
    rw [hmap, hnums]
    exact (List.nodup_range').map fun _ _ h => (Prod.mk.inj h).2
  have hfresh : ∀ r ∈ rows, l.att r.key = none := by
    intro r hr
    have hno : r.attemptNo ∈ rows.map (·.attemptNo) := List.mem_map_of_mem hr
    rw [hnums, List.mem_range'_1] at hno
    rw [MagnetAttemptRecord.key, hmem r hr]
    refine Option.not_isSome_iff_eq_none.1 fun hsome => ?_
    have := le_maxAttemptNo hsome
    omega
  constructor
  · intro hr
    have hk := att_key hr
    simp only [att, hrows] at hr
    exact ((find_foldl_insertNew rows l.attempts k).2 r hr).imp_right fun h => ⟨h.2, hk⟩
  · simp only [att, hrows]
    rintro (hr | ⟨hr, rfl⟩)
    · exact (find_foldl_insertNew rows l.attempts k).1 r hr
    · exact find_foldl_insertNew_mem l.attempts hkeys hr (hfresh r hr)

/-- Only `add_attempts` makes an attempt. -/
theorem att_none_of_gives {s : Sql} {l l' : Ledger} {x : s.Res} (h : s.Gives l x l')
    (hs : ∀ avid cs now, s ≠ .addAttempts avid cs now) {k : AttemptKey} (hk : l.att k = none) : l'.att k = none := by
  cases s with
  | addAttempts avid cs now => exact absurd rfl (hs avid cs now)
  | claimNextPending avid now =>
    rcases Ledger.claimNextPending_spec h with ⟨-, rfl, -⟩ | ⟨n, r, -, hr, -, -, -, hk'⟩
    · exact hk
    · rw [hk', if_neg]
      · exact hk
      · rintro rfl
        rw [hk] at hr
        cases hr
  | claimAttempt avid no now => rw [(Ledger.claimAttempt_spec h).2.1, hk, Option.map_none]
  | casAttempt avid no expected target now error => rw [(Ledger.casAttempt_spec h).2.1, hk, Option.map_none]
  | recordProgress avid no state progress now => rw [(Ledger.recordProgress_spec h).2.1, hk, Option.map_none]
  | _ => exact (Sql.att_frame h rfl k).trans hk

end Append
end Ledger

/-! ## The invariant -/

/-- The attempts of an AVID are numbered from one without a gap, and no two of them share a hash. -/
structure AttemptsSound (l : Ledger) : Prop where
  numbered : ∀ a, ∃ n, ∀ m, (l.att (a, m)).isSome ↔ 1 ≤ m ∧ m ≤ n
  tried : ∀ a m m' r r' h, l.att (a, m) = some r → l.att (a, m') = some r' → r.infoHash = some h →
    r'.infoHash = some h → m = m'

/-- A concluded attempt. -/
def AttemptState.concluded : List AttemptState := [archived, junk, error, stalled, lost]

theorem AttemptState.edges_of_concluded {st : AttemptState} (h : st ∈ concluded) : st.edges = [] := by
  revert h
  cases st <;> decide

/-- What no statement changes: the attempts there are, their magnets and hashes, and the
state of a concluded one. -/
def Later (l l' : Ledger) : Prop :=
  ∀ k r, l.att k = some r → ∃ r', l'.att k = some r' ∧ r'.magnet = r.magnet ∧ r'.infoHash = r.infoHash ∧
    (r.state ∈ AttemptState.concluded → r'.state = r.state)

/-- No live attempt holds the hash of this one. -/
def HashFree (l : Ledger) (r : MagnetAttemptRecord) : Prop :=
  ∀ h, r.infoHash = some h → ∀ k live, l.att k = some live → live.Live → live.infoHash ≠ some h

/-- The row is that of the lowest-numbered pending attempt with a free hash, taken. -/
def LowestFree (l : Ledger) (avid : Avid) (now : Time) (row : MagnetAttemptRecord) : Prop :=
  ∃ r, l.att (avid, row.attemptNo) = some r ∧ row = r.submittedBy now ∧ r.state = .pending ∧ HashFree l r ∧
    ∀ n r', l.att (avid, n) = some r' → r'.state = .pending → HashFree l r' → row.attemptNo ≤ n

theorem Later.refl (l : Ledger) : Later l l := fun _ r hr => ⟨r, hr, rfl, rfl, fun _ => rfl⟩

theorem Later.trans {l₁ l₂ l₃ : Ledger} (h : Later l₁ l₂) (h' : Later l₂ l₃) : Later l₁ l₃ := by
  intro k r hr
  obtain ⟨r₂, hr₂, hm, hh, hs⟩ := h k r hr
  obtain ⟨r₃, hr₃, hm', hh', hs'⟩ := h' k r₂ hr₂
  exact ⟨r₃, hr₃, hm'.trans hm, hh'.trans hh, fun hc => (hs' (hs hc ▸ hc)).trans (hs hc)⟩

theorem hashFree_iff {l : Ledger} {r : MagnetAttemptRecord} : l.hashFree r = true ↔ HashFree l r := by
  simp only [Ledger.hashFree, List.all_eq_true, Bool.not_eq_true', decide_eq_false_iff_not, not_and]
  constructor
  · intro h x hx k live hk hl he
    exact h live (Ledger.mem_of_att hk) hl (by simp [he]) (he.trans hx.symm)
  · intro h live hlive hl hsome he
    obtain ⟨x, hx⟩ := Option.isSome_iff_exists.1 hsome
    exact h x (he ▸ hx) _ live (Ledger.att_of_mem hlive) hl hx

theorem attemptsSound_empty : AttemptsSound .empty := by
  refine ⟨fun a => ⟨0, fun m => ?_⟩, fun a m m' r r' h hr => by cases hr⟩
  simp only [Nat.le_zero]
  constructor
  · rintro ⟨⟩
  · omega

/-! ## Each statement -/

/-- The edges of a transition are checked before the statement is sent. -/
def EdgeChecked : Sql → Prop
  | .casAttempt _ _ expected target _ _ => target ∈ expected.edges
  | _ => True

section Steps
variable {s : Sql} {l l' : Ledger} {x : s.Res}

theorem later_of_gives (h : s.Gives l x l') (hs : EdgeChecked s) : Later l l' := by
  intro k r hr
  obtain ⟨r', hr', he⟩ := Sql.att_effect h hr
  refine ⟨r', hr', ?_⟩
  cases he with
  | same => exact ⟨rfl, rfl, fun _ => rfl⟩
  | claimed now _ hp =>
    refine ⟨rfl, rfl, fun hc => ?_⟩
    rw [hp] at hc
    exact absurd hc (by decide)
  | moved heq hst =>
    subst heq
    refine ⟨rfl, rfl, fun hc => ?_⟩
    rw [hst] at hc
    have hedge : _ ∈ AttemptState.edges _ := hs
    rw [AttemptState.edges_of_concluded hc] at hedge
    cases hedge
  | progressed _ hf =>
    refine ⟨rfl, rfl, fun hc => ?_⟩
    revert hc hf
    cases r.state <;> simp [AttemptState.inFlight, AttemptState.concluded]

/-- The rows that go in, and where. -/
theorem addAttempts_rows {avid : Avid} {cs : List MagnetCandidate} {now : Time} {c n : Nat}
    (hn : ∀ m, (l.att (avid, m)).isSome ↔ 1 ≤ m ∧ m ≤ n) (h : l.addAttempts avid cs now = .ok (c, l')) :
    ∃ rows : List MagnetAttemptRecord, (∀ r ∈ rows, r.avid = avid ∧ r.state = .pending) ∧
      rows.map (·.attemptNo) = List.range' (n + 1) rows.length ∧ (rows.filterMap (·.infoHash)).Nodup ∧
      (∀ r ∈ rows, ∀ m r' x, l.att (avid, m) = some r' → r'.infoHash = some x → r.infoHash ≠ some x) ∧
      ∀ k r, l'.att k = some r ↔ l.att k = some r ∨ (r ∈ rows ∧ r.key = k) := by
  have hatt := Ledger.att_addAttempts h
  unfold Ledger.appended at hatt
  rw [Ledger.maxAttemptNo_eq hn] at hatt
  refine ⟨_, fun r hr => ⟨(Ledger.mem_newAttempts hr).1, (Ledger.mem_newAttempts hr).2.1⟩, Ledger.newAttempts_numbers _ _ _,
    (Ledger.newAttempts_hashes _ _ _).2, fun r hr m r' x hr' hx hrx => ?_, hatt⟩
  refine (Ledger.newAttempts_hashes _ _ _).1 r hr x hrx (List.mem_filterMap.2 ⟨r', List.mem_filter.2 ⟨Ledger.mem_of_att hr', ?_⟩, hx⟩)
  have ha : r'.avid = avid := congrArg Prod.fst (Ledger.att_key hr')
  simpa using ha

theorem sound_of_addAttempts {avid : Avid} {cs : List MagnetCandidate} {now : Time} {c : Nat} (hl : AttemptsSound l)
    (h : l.addAttempts avid cs now = .ok (c, l')) : AttemptsSound l' := by
  obtain ⟨n, hn⟩ := hl.numbered avid
  obtain ⟨rows, hmem, hnums, hnodup, hfresh, hatt⟩ := addAttempts_rows hn h
  have other : ∀ {a m r}, a ≠ avid → (l'.att (a, m) = some r ↔ l.att (a, m) = some r) := by
    intro a m r ha
    rw [hatt]
    refine or_iff_left ?_
    rintro ⟨hr, hk⟩
    exact ha ((congrArg Prod.fst hk).symm.trans (hmem r hr).1)
  refine ⟨fun a => ?_, fun a m m' r r' x hr hr' hx hx' => ?_⟩
  · by_cases ha : a = avid
    · subst ha
      refine ⟨n + rows.length, fun m => ?_⟩
      have hnew : (∃ r ∈ rows, r.key = (a, m)) ↔ n + 1 ≤ m ∧ m < n + 1 + rows.length := by
        rw [← List.mem_range'_1, ← hnums, List.mem_map]
        refine exists_congr fun r => and_congr_right fun hr => ?_
        simp [MagnetAttemptRecord.key, (hmem r hr).1]
      have hold := hn m
      rw [Option.isSome_iff_exists] at hold ⊢
      have hsplit : (∃ r, l'.att (a, m) = some r) ↔ (∃ r, l.att (a, m) = some r) ∨ ∃ r ∈ rows, r.key = (a, m) := by
        rw [← exists_or]
        exact exists_congr fun r => hatt (a, m) r
      rw [hsplit, hold, hnew]
      omega
    · obtain ⟨n', hn'⟩ := hl.numbered a
      refine ⟨n', fun m => ?_⟩
      rw [← hn' m, Option.isSome_iff_exists, Option.isSome_iff_exists]
      exact exists_congr fun r => other ha
  · by_cases ha : a = avid
    · subst ha
      -- two rows with one hash: both old, one of each kind, or both new
      rcases (hatt _ _).1 hr with hr | ⟨hr, hk⟩ <;> rcases (hatt _ _).1 hr' with hr' | ⟨hr', hk'⟩
      · exact hl.tried a m m' r r' x hr hr' hx hx'
      · exact absurd hx' (hfresh r' hr' m r x hr hx)
      · exact absurd hx (hfresh r hr m' r' x hr' hx')
      · have hrr : r = r' := Ledger.nodup_filterMap_inj hnodup hr hr' hx hx'
        subst hrr
        exact congrArg Prod.snd (hk.symm.trans hk')
    · exact hl.tried a m m' r r' x ((other ha).1 hr) ((other ha).1 hr') hx hx'

/-- Every statement keeps the invariant. -/
theorem sound_of_gives (hl : AttemptsSound l) (h : s.Gives l x l') (hs : EdgeChecked s) : AttemptsSound l' := by
  by_cases hadd : ∃ avid cs now, s = .addAttempts avid cs now
  · obtain ⟨avid, cs, now, rfl⟩ := hadd
    exact sound_of_addAttempts hl h
  have hnone := fun k hk => Ledger.att_none_of_gives h (fun avid cs now he => hadd ⟨avid, cs, now, he⟩) (k := k) hk
  have hsome : ∀ k, (l'.att k).isSome ↔ (l.att k).isSome := by
    intro k
    constructor
    · intro h'
      by_contra hk
      rw [hnone k (Option.not_isSome_iff_eq_none.1 hk)] at h'
      cases h'
    · intro h'
      obtain ⟨r, hr⟩ := Option.isSome_iff_exists.1 h'
      obtain ⟨r', hr', -⟩ := later_of_gives h hs k r hr
      simp [hr']
  have hhash : ∀ {k r' y}, l'.att k = some r' → r'.infoHash = some y → ∃ r, l.att k = some r ∧ r.infoHash = some y := by
    intro k r' y hr' hy
    obtain ⟨r, hr⟩ := Option.isSome_iff_exists.1 ((hsome k).1 (by simp [hr']))
    obtain ⟨r₁, hr₁, -, hh, -⟩ := later_of_gives h hs k r hr
    rw [hr'] at hr₁
    cases hr₁
    exact ⟨r, hr, hh ▸ hy⟩
  refine ⟨fun a => ?_, fun a m m' r r' y hr hr' hy hy' => ?_⟩
  · obtain ⟨n, hn⟩ := hl.numbered a
    exact ⟨n, fun m => (hsome (a, m)).trans (hn m)⟩
  · obtain ⟨r₁, hr₁, hy₁⟩ := hhash hr hy
    obtain ⟨r₂, hr₂, hy₂⟩ := hhash hr' hy'
    exact hl.tried a m m' r₁ r₂ y hr₁ hr₂ hy₁ hy₂

theorem lowestFree_of_gives {avid : Avid} {now : Time} {row : MagnetAttemptRecord}
    (h : (Sql.claimNextPending avid now).Gives l (some row) l') : LowestFree l avid now row := by
  rcases Ledger.claimNextPending_spec h with ⟨h, -⟩ | ⟨n, r, hnext, hr, hp, hrow, -⟩
  · cases h
  cases hrow
  obtain ⟨r₁, hr₁, -, hfree⟩ := Ledger.nextPending_spec hnext
  rw [hr] at hr₁
  cases hr₁
  have hno : (r.submittedBy now).attemptNo = n := congrArg Prod.snd (Ledger.att_key hr)
  refine ⟨r, by rw [hno]; exact hr, rfl, hp, hashFree_iff.1 hfree, fun m r' hr' hp' hfree' => ?_⟩
  rw [hno]
  refine (List.min?_eq_some_iff.1 hnext).2 m (List.mem_map.2 ⟨r', List.mem_filter.2 ⟨Ledger.mem_of_att hr', ?_⟩, ?_⟩)
  · have ha : r'.avid = avid := congrArg Prod.fst (Ledger.att_key hr')
    simp [ha, hp', hashFree_iff.2 hfree']
  · exact congrArg Prod.snd (Ledger.att_key hr')

end Steps

/-! ## Processes -/

/-- One call of a process. A process that makes several is several of them, one after the other. -/
inductive LedgerCall where
  | addAttempts (avid : Avid) (candidates : List MagnetCandidate) (now : Time)
  | claimNextPending (avid : Avid) (now : Time)
  | claimAttempt (avid : Avid) (attemptNo : Nat) (now : Time)
  | transitionAttempt (avid : Avid) (attemptNo : Nat) (expected target : AttemptState) (now : Time) (error : Option String)
  | recordProgress (avid : Avid) (attemptNo : Nat) (state : AttemptState) (progress : Option Rat) (now : Time)
  | beginReplacement (avid : Avid) (source taskDirPath : String) (replacePaths : List String) (now : Time)
  /-- Any other statement of the repository: none of them writes an attempt. -/
  | other (s : Sql) (h : s.writesAttempts = false)

/-- What the call does, and the attempt it answers. -/
def LedgerCall.run : LedgerCall → M (Option MagnetAttemptRecord)
  | addAttempts avid candidates now => do
    discard (AcquisitionRepository.addAttempts avid candidates now)
    pure none
  | claimNextPending avid now => AcquisitionRepository.claimNextPending avid now
  | claimAttempt avid attemptNo now => AcquisitionRepository.claimAttempt avid attemptNo now
  | transitionAttempt avid attemptNo expected target now error => do
    discard (AcquisitionRepository.transitionAttempt avid attemptNo expected target now error)
    pure none
  | recordProgress avid attemptNo state progress now => do
    discard (AcquisitionRepository.recordProgress avid attemptNo state progress now)
    pure none
  | beginReplacement avid source taskDirPath replacePaths now => do
    discard (AcquisitionRepository.beginReplacement avid source taskDirPath replacePaths now)
    pure none
  | other s _ => do
    discard (sql s)
    pure none

/-- Every process at the beginning of its call, and an empty ledger. -/
def ledgerPool {ι : Type} (t : Time) (calls : ι → LedgerCall) : Pool Op.Res Exn (Option MagnetAttemptRecord) (World ι) ι :=
  ⟨⟨.empty, t, []⟩, fun i => (calls i).run⟩

/-- The statements of the calls: each checks the edge of a transition first. -/
def SqlChecked (op : Op) : Prop := ∀ s, op = .sql s → EdgeChecked s

/-- A claim that answers an attempt was answered it by its last statement. -/
def ClaimAnswered (call : LedgerCall) (o : Option MagnetAttemptRecord) (h : List Event) : Prop :=
  ∀ avid now row, call = .claimNextPending avid now → o = some row →
    (⟨.sql (.claimNextPending avid now), .ok (some row)⟩ : Event) ∈ h

section Calls
open Prog

theorem uses_checked {s : Sql} (hs : EdgeChecked s) : (sql s).Uses SqlChecked :=
  (uses_call _).2 fun _ h => by cases h; exact hs

theorem uses_claimLoop (avid : Avid) (now : Time) (n : Nat) : (AcquisitionRepository.claimLoop avid now n).Uses SqlChecked := by
  induction n with
  | zero => trivial
  | succ n ih =>
    refine uses_bind (uses_attempt (uses_checked trivial)) fun r => ?_
    rcases r with e | row
    · cases e with
      | uniqueViolation => exact ih
      | _ => trivial
    · trivial

theorem LedgerCall.uses_run (call : LedgerCall) : call.run.Uses SqlChecked := by
  have one : ∀ {α : Type} {p : M α}, p.Uses SqlChecked → (do discard p; pure none : M (Option MagnetAttemptRecord)).Uses SqlChecked :=
    fun hp => uses_bind (uses_discard hp) fun _ => trivial
  cases call with
  | addAttempts avid cs now =>
    refine one (uses_ite trivial (uses_checked trivial))
  | claimNextPending avid now => exact uses_claimLoop avid now _
  | claimAttempt avid no now =>
    refine uses_bind (uses_attempt (uses_checked trivial)) fun r => ?_
    rcases r with e | row
    · cases e <;> trivial
    · trivial
  | transitionAttempt avid no expected target now error =>
    refine one ?_
    unfold AcquisitionRepository.transitionAttempt
    by_cases he : target ∈ expected.edges
    · rw [if_pos he]
      exact uses_checked he
    · rw [if_neg he]
      trivial
  | recordProgress avid no state progress now => exact one (uses_ite (uses_checked trivial) trivial)
  | beginReplacement avid source dir paths now =>
    refine one (uses_bind (uses_checked trivial) fun b => uses_ite (uses_checked trivial) trivial)
  | other s hs =>
    refine one (uses_checked ?_)
    cases s with
    | casAttempt => cases hs
    | _ => trivial

theorem wp_claimLoop_answered (avid : Avid) (now : Time) (n : Nat) (h : List Event) :
    (AcquisitionRepository.claimLoop avid now n).wp (recorded fun _ _ => True) (fun _ op => SqlChecked op)
      (ClaimAnswered (.claimNextPending avid now)) (fun _ _ => True) h := by
  induction n generalizing h with
  | zero =>
    rintro _ _ row - hrow
    cases hrow
  | succ n ih =>
    have hsql : SqlChecked (.sql (.claimNextPending avid now)) := by
      rintro _ ⟨⟩
      trivial
    refine (wp_bind _ _).2 ((wp_attempt _).2 ((wp_call_recorded _).2 ⟨hsql, fun o _ => ?_, fun e _ => ?_⟩))
    · rintro _ _ row ⟨⟩ rfl
      exact List.mem_cons_self
    · cases e with
      | uniqueViolation => exact ih _
      | _ => trivial

theorem LedgerCall.wp_run (call : LedgerCall) :
    call.run.wp (recorded fun _ _ => True) (fun _ op => SqlChecked op) (ClaimAnswered call) (fun _ _ => True) [] := by
  have hchecked : call.run.wp (recorded fun _ _ => True) (fun _ op => SqlChecked op) (fun _ _ => True) (fun _ _ => True) [] :=
    keeps_of_uses (I := fun _ => True) call.uses_run (fun _ _ h _ => h) (fun _ _ _ _ _ _ _ => trivial) [] trivial
  by_cases hc : ∃ avid now, call = .claimNextPending avid now
  · obtain ⟨avid, now, rfl⟩ := hc
    exact wp_claimLoop_answered avid now AcquisitionRepository.claimRetries []
  · refine wp_mono hchecked (fun o h _ avid now row he => ?_) fun _ _ _ => trivial
    exact absurd ⟨avid, now, he⟩ hc

end Calls

/-! ## Runs -/

/-- What holds of the world at any time: the ledger is sound, everything it ever held is
still there, and every claim took the lowest free attempt of the ledger it found. -/
def LedgerKept {ι : Type} (w : World ι) : Prop :=
  AttemptsSound w.ledger ∧ (∀ e ∈ w.log, Later e.before w.ledger) ∧
    ∀ e ∈ w.log, ∀ avid now row, e.event = ⟨.sql (.claimNextPending avid now), .ok (some row)⟩ →
      LowestFree e.before avid now row

section Runs
variable {ι : Type} [DecidableEq ι]

omit [DecidableEq ι] in
theorem ledgerKept_step {who : ι} {w w' : World ι} {op : Op} {r : Except Exn op.Res} (h : LedgerKept w)
    (hop : SqlChecked op) (ht : World.Step (fun _ _ => True) who w op r w') : LedgerKept w' := by
  obtain ⟨t, l', -, -, ha, rfl⟩ := ht
  obtain ⟨hsound, hlater, hclaims⟩ := h
  have hstep : AttemptsSound l' ∧ Later w.ledger l' := by
    have same : l' = w.ledger → AttemptsSound l' ∧ Later w.ledger l' := by
      rintro rfl
      exact ⟨hsound, .refl _⟩
    cases op with
    | sql s =>
      have gives : ∀ x, s.Gives w.ledger x l' → AttemptsSound l' ∧ Later w.ledger l' := fun x hx =>
        ⟨sound_of_gives hsound hx (hop s rfl), later_of_gives hx (hop s rfl)⟩
      cases r with
      | ok x => exact gives x ha
      | error e =>
        rcases ha with ⟨-, hl⟩ | ⟨-, hl | ⟨x, hx⟩⟩
        · exact same hl
        · exact same hl
        · exact gives x hx
    | ask q => cases r <;> first | exact same ha | exact same ha.2
    | _ => exact same ha.2
  refine ⟨hstep.1, fun e he => ?_, fun e he avid now row hev => ?_⟩
  · rcases List.mem_cons.1 he with rfl | he
    · exact hstep.2
    · exact (hlater e he).trans hstep.2
  · rcases List.mem_cons.1 he with rfl | he
    · cases hev
      exact lowestFree_of_gives ha
    · exact hclaims e he avid now row hev

/-- Over every interleaving: one live attempt per hash, attempts numbered from one, no hash
tried twice for an AVID; everything the ledger ever held stays as it was, concluded
attempts in their state; and a claim of the next attempt answers the lowest-numbered
pending one whose hash was free. -/
theorem attempts_kept {t : Time} {calls : ι → LedgerCall} {c : Pool Op.Res Exn (Option MagnetAttemptRecord) (World ι) ι}
    (h : Pool.Reach (World.Step fun _ _ => True) (ledgerPool t calls) c) :
    (∀ k k' r r' x, c.world.ledger.att k = some r → c.world.ledger.att k' = some r' → r.Live → r'.Live →
        r.infoHash = some x → r'.infoHash = some x → k = k') ∧
      AttemptsSound c.world.ledger ∧ (∀ e ∈ c.world.log, Later e.before c.world.ledger) ∧
      ∀ i avid now row, calls i = .claimNextPending avid now → c.prog i = .ret (some row) →
        ∃ e ∈ c.world.log, e.who = i ∧ LowestFree e.before avid now row := by
  have hstart : LedgerKept (ledgerPool t calls).world := ⟨attemptsSound_empty, by rintro e ⟨⟩, by rintro e ⟨⟩⟩
  obtain ⟨⟨hsound, hlater, hclaims⟩, hw⟩ := World.reach_inv_ends (T := World.Step fun _ _ => True) (fun _ _ _ _ _ h => h)
    (fun _ _ op => SqlChecked op) LedgerKept (fun i => ClaimAnswered (calls i)) (fun _ _ _ => True)
    (fun _ _ _ _ _ hI hop ht => ledgerKept_step hI hop ht) hstart rfl (fun i => (calls i).wp_run) h
  refine ⟨fun k k' r r' x hr hr' hl hl' hx hx' => Ledger.live_inj hr hr' hl hl' hx hx', hsound, hlater, ?_⟩
  intro i avid now row hcall hret
  have hi := hw i
  rw [hret] at hi
  have hmem := hi avid now row hcall rfl
  obtain ⟨e, he, hev⟩ := List.mem_filterMap.1 hmem
  split at hev
  · rename_i hwho
    exact ⟨e, he, hwho, hclaims e he avid now row (Option.some.inj hev)⟩
  · cases hev

end Runs

/-! ## Three processes -/

namespace LedgerExample

def avid : Avid := "ABC-123"

/-- A discovery, a search that finds two magnets, and a claim. -/
def calls : Fin 3 → LedgerCall
  | 0 => .other (.insertAcquisition avid "manual" none none none 1) rfl
  | 1 => .addAttempts avid [⟨"magnet:1", some "AA", "sukebei", none⟩, ⟨"magnet:2", some "BB", "javbus", none⟩] 2
  | 2 => .claimNextPending avid 3

def silent : World.Outside := fun _ => .error ⟨.failure "", trivial⟩

/-- One after the other. -/
def run : Pool Op.Res Exn (Option MagnetAttemptRecord) (World (Fin 3)) (Fin 3) :=
  World.schedule [(0, 1, silent), (1, 1, silent), (2, 1, silent)] (ledgerPool 0 calls)

def claimed : MagnetAttemptRecord :=
  ⟨avid, 1, "magnet:1", some "AA", "sukebei", none, .submitted, none, none, some 3, 3⟩

end LedgerExample

open LedgerExample in
theorem attempts_kept_claimed :
    AttemptsSound run.world.ledger ∧ ∃ e ∈ run.world.log, e.who = 2 ∧ LowestFree e.before avid 3 claimed := by
  have h := attempts_kept (World.reach_schedule [(0, 1, silent), (1, 1, silent), (2, 1, silent)] (ledgerPool 0 calls))
  have hret : (run.prog 2).result = some (some claimed) := by decide
  exact ⟨h.2.1, h.2.2.2 2 avid 3 claimed rfl (Prog.result_eq_some.1 hret)⟩

end EmbyxManager
