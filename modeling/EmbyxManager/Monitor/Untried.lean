import Mathlib.Data.Finset.Card
import EmbyxManager.Monitor.Attempts
/-!
# The untried magnets of an AVID

How many attempts of one AVID a statement finds in a state and leaves in it. An attempt is
untried while it is pending and no live attempt of the AVID itself holds its hash: another
AVID that does may let go of it at any time.
-/

namespace EmbyxManager
open Atom

/-! ## Rows rewritten one by one -/

/-- Rewriting rows so that none becomes live, and the live ones keep their hashes. -/
theorem LiveUnique.map {rows : List MagnetAttemptRecord} {g : MagnetAttemptRecord → MagnetAttemptRecord}
    (hg : ∀ r, (g r).Live → r.Live ∧ (g r).infoHash = r.infoHash) (h : LiveUnique rows) : LiveUnique (rows.map g) := by
  refine List.Sublist.nodup ?_ h
  clear h
  induction rows with
  | nil => simp
  | cons r rows ih =>
    specialize hg r
    simp only [List.map_cons]
    generalize g r = r' at hg ⊢
    by_cases hr' : r'.Live
    · obtain ⟨hr, hh⟩ := hg hr'
      simp only [List.filter_cons, hr, hr', decide_true, if_true, List.filterMap_cons, hh]
      cases r.infoHash with
      | none => exact ih
      | some h => exact ih.cons_cons h
    · simp only [List.filter_cons, hr', decide_false, Bool.false_eq_true, if_false]
      refine ih.trans ?_
      split
      · exact List.Sublist.filterMap _ (List.sublist_cons_self ..)
      · exact .refl _

namespace Ledger
variable {l l' : Ledger} {avid : Avid} {n : Nat} {now : Time}

/-- A pending attempt whose hash nobody holds may go live. -/
theorem claimAttempt_isOk {r : MagnetAttemptRecord} (hr : l.att (avid, n) = some r) (hfree : l.hashFree r = true) :
    ∃ o l', l.claimAttempt avid n now = .ok (o, l') := by
  have hfree : ∀ live ∈ l.attempts.rows, live.Live → ∀ h, r.infoHash = some h → live.infoHash ≠ some h := by
    intro live hlive hl h hh hlh
    have := List.all_eq_true.1 hfree live hlive
    simp [hl, hlh, hh] at this
  have hthis : ∀ x ∈ l.attempts.rows, x.key = (avid, n) → x = r := by
    intro x hx hk
    have hfind := att_of_mem hx
    rw [hk, hr] at hfind
    exact (Option.some.inj hfind).symm
  have ho : ∀ x ∈ (l.attempts.modify (avid, n) (fun r => r.state = .pending) (fun r => r.submittedBy now)
      (MagnetAttemptRecord.key_submittedBy now)).rows, (l.acquisitions.find x.avid).isSome := by
    intro x hx
    obtain ⟨y, hy, rfl⟩ := List.mem_map.1 hx
    split
    · exact l.owned y hy
    · exact l.owned y hy
  -- the row claimed becomes live, under a hash that no live attempt has
  have hu : LiveUnique (l.attempts.modify (avid, n) (fun r => r.state = .pending) (fun r => r.submittedBy now)
      (MagnetAttemptRecord.key_submittedBy now)).rows := by
    have hpairs := List.pairwise_filter.1 (List.pairwise_filterMap.1 l.liveUnique)
    have hkeys := List.pairwise_map.1 l.attempts.nodup
    refine List.pairwise_filterMap.2 (List.pairwise_filter.2 (List.pairwise_map.2 ?_))
    refine (hpairs.and hkeys).imp_of_mem ?_
    rintro x y hx hy ⟨hxy, hkey⟩
    simp only [decide_eq_true_eq] at hxy ⊢
    by_cases hcx : x.key = (avid, n) ∧ x.state = .pending
    · have hcy : ¬(y.key = (avid, n) ∧ y.state = .pending) := fun h => hkey (hcx.1.trans h.1.symm)
      obtain rfl := hthis x hx hcx.1
      rw [if_pos hcx, if_neg hcy]
      rintro - hly h hh h' hh' rfl
      exact hfree y hy hly h hh hh'
    · rw [if_neg hcx]
      by_cases hcy : y.key = (avid, n) ∧ y.state = .pending
      · obtain rfl := hthis y hy hcy.1
        rw [if_pos hcy]
        rintro hlx - h hh h' hh' rfl
        exact hfree x hx hlx h hh' hh
      · rw [if_neg hcy]
        exact hxy
  exact ⟨_, _, by rw [claimAttempt, touchAttempt, updateAttempt, withAttempts, dif_pos ho, dif_pos hu]; rfl⟩

theorem claimNextPending_isOk (l : Ledger) (avid : Avid) (now : Time) : ∃ o l', l.claimNextPending avid now = .ok (o, l') := by
  unfold claimNextPending
  cases hn : l.nextPending avid with
  | none => exact ⟨_, _, rfl⟩
  | some n =>
    obtain ⟨r, hr, -, hfree⟩ := nextPending_spec hn
    exact claimAttempt_isOk hr hfree

/-- The rows of one AVID are the same in both. -/
structure SameOf (avid : Avid) (l l' : Ledger) : Prop where
  acq : l'.acq avid = l.acq avid
  att : ∀ n, l'.att (avid, n) = l.att (avid, n)

theorem SameOf.refl (avid : Avid) (l : Ledger) : SameOf avid l l := ⟨rfl, fun _ => rfl⟩

theorem SameOf.trans {l'' : Ledger} (h : SameOf avid l l') (h' : SameOf avid l' l'') : SameOf avid l l'' :=
  ⟨h'.acq.trans h.acq, fun n => (h'.att n).trans (h.att n)⟩

def attemptNos (l : Ledger) (avid : Avid) : Finset Nat :=
  ((l.attempts.rows.filter fun r => r.avid = avid).map (·.attemptNo)).toFinset

/-- The numbers of the attempts that are so. -/
def those (l : Ledger) (avid : Avid) (p : MagnetAttemptRecord → Bool) : Finset Nat :=
  (l.attemptNos avid).filter fun n => (l.att (avid, n)).any p

variable {p : MagnetAttemptRecord → Bool} {q : Nat → Bool}

theorem mem_those : n ∈ l.those avid p ↔ ∃ r, l.att (avid, n) = some r ∧ p r = true := by
  rw [those, Finset.mem_filter, attemptNos, List.mem_toFinset, mem_attemptNos]
  cases l.att (avid, n) <;> simp

theorem mem_attemptsFor {r : MagnetAttemptRecord} : r ∈ l.attemptsFor avid ↔ l.att (avid, r.attemptNo) = some r := by
  rw [attemptsFor, List.mem_insertionSort, List.mem_filter]
  constructor
  · rintro ⟨hr, ha⟩
    have ha : r.avid = avid := by simpa using ha
    have hfind := att_of_mem hr
    rwa [MagnetAttemptRecord.key, ha] at hfind
  · intro hr
    have ha : r.avid = avid := congrArg Prod.fst (att_key hr)
    exact ⟨mem_of_att hr, by simpa using ha⟩

theorem attemptsFor_nos_nodup : ((l.attemptsFor avid).map (·.attemptNo)).Nodup := by
  have hkeys : ((l.attempts.rows.filter fun r => r.avid = avid).map (·.key)).Nodup :=
    l.attempts.nodup.sublist (List.filter_sublist.map _)
  have hperm := List.perm_insertionSort (fun r r' : MagnetAttemptRecord => r.attemptNo ≤ r'.attemptNo)
    (l.attempts.rows.filter fun r => r.avid = avid)
  refine ((hperm.map (·.attemptNo)).nodup_iff).2 (List.Nodup.of_map (fun n => (avid, n)) ?_)
  rw [List.map_map]
  refine (congrArg List.Nodup (List.map_congr_left fun r hr => ?_)).mpr hkeys
  have ha : r.avid = avid := by simpa using (List.mem_filter.1 hr).2
  change (avid, r.attemptNo) = (r.avid, r.attemptNo)
  rw [ha]

/-- What a reader of all attempts counts. -/
theorem countP_attemptsFor : (l.attemptsFor avid).countP p = (l.those avid p).card := by
  have hset : l.those avid p = (((l.attemptsFor avid).filter p).map (·.attemptNo)).toFinset := by
    ext n
    rw [mem_those, List.mem_toFinset, List.mem_map]
    constructor
    · rintro ⟨r, hr, hp⟩
      have hn : r.attemptNo = n := congrArg Prod.snd (att_key hr)
      exact ⟨r, List.mem_filter.2 ⟨mem_attemptsFor.2 (hn.symm ▸ hr), hp⟩, hn⟩
    · rintro ⟨r, hr, rfl⟩
      obtain ⟨hr, hp⟩ := List.mem_filter.1 hr
      exact ⟨r, mem_attemptsFor.1 hr, hp⟩
  rw [hset, List.toFinset_card_of_nodup (attemptsFor_nos_nodup.sublist (List.filter_sublist.map _)), List.length_map,
    List.countP_eq_length_filter]

/-- No live attempt of the AVID itself holds this attempt's hash. -/
def ownFree (l : Ledger) (avid : Avid) (r : MagnetAttemptRecord) : Bool :=
  (l.attemptsFor avid).all fun live => !(live.Live ∧ live.infoHash.isSome ∧ live.infoHash = r.infoHash)

/-- The untried attempts with such numbers. -/
def untried (l : Ledger) (avid : Avid) (q : Nat → Bool) : Finset Nat :=
  l.those avid fun r => r.state = .pending ∧ l.ownFree avid r ∧ q r.attemptNo

/-- The attempts with such numbers whose magnet has been handed to CloudDrive. -/
def handed (l : Ledger) (avid : Avid) (q : Nat → Bool) : Finset Nat :=
  l.those avid fun r => r.state ≠ .pending ∧ q r.attemptNo

theorem ownFree_iff {r : MagnetAttemptRecord} : l.ownFree avid r = true ↔
    ∀ m live, l.att (avid, m) = some live → live.Live → ∀ h, r.infoHash = some h → live.infoHash ≠ some h := by
  rw [ownFree, List.all_eq_true]
  constructor
  · intro hall m live hm hl h hh hlh
    have hn : live.attemptNo = m := congrArg Prod.snd (att_key hm)
    have := hall live (mem_attemptsFor.2 (hn.symm ▸ hm))
    simp [hl, hlh, hh] at this
  · intro hall live hlive
    have hno := hall live.attemptNo live (mem_attemptsFor.1 hlive)
    cases hlh : live.infoHash with
    | none => simp
    | some h =>
      by_cases hl : live.Live
      · have hne : r.infoHash ≠ some h := fun hr => hno hl h hr hlh
        simpa [hl] using fun he => hne he.symm
      · simp [hl]

theorem mem_untried : n ∈ l.untried avid q ↔
    ∃ r, l.att (avid, n) = some r ∧ r.state = .pending ∧ l.ownFree avid r = true ∧ q n = true := by
  rw [untried, mem_those]
  refine exists_congr fun r => and_congr_right fun hr => ?_
  have hn : r.attemptNo = n := congrArg Prod.snd (att_key hr)
  simp [hn]

theorem ownFree_congr (h : ∀ n, l'.att (avid, n) = l.att (avid, n)) {r : MagnetAttemptRecord} : l'.ownFree avid r = l.ownFree avid r := by
  apply Bool.eq_iff_iff.2
  simp only [ownFree_iff, h]

theorem untried_congr (h : ∀ n, l'.att (avid, n) = l.att (avid, n)) : l'.untried avid q = l.untried avid q := by
  ext n
  simp only [mem_untried, h, ownFree_congr h]

theorem ownFree_of_hashFree {r : MagnetAttemptRecord} (h : l.hashFree r = true) : l.ownFree avid r = true := by
  rw [ownFree_iff]
  intro m live hm hl x hx hlx
  have := List.all_eq_true.1 h live (mem_of_att hm)
  simp [hl, hlx, hx] at this

/-- One pending attempt has been tried and refused. -/
structure Refusal (avid : Avid) (n : Nat) (l l' : Ledger) : Prop where
  acq : l'.acq avid = l.acq avid
  was : ∃ r, l.att (avid, n) = some r ∧ r.state = .pending ∧ l.ownFree avid r = true
  now : ∃ r, l'.att (avid, n) = some r ∧ r.state = .error
  rest : ∀ m, m ≠ n → l'.att (avid, m) = l.att (avid, m)

variable (h : Refusal avid n l l')
include h

theorem Refusal.ownFree_eq (r : MagnetAttemptRecord) : l'.ownFree avid r = l.ownFree avid r := by
  obtain ⟨x, hx, hxp, -⟩ := h.was
  obtain ⟨y, hy, hye⟩ := h.now
  apply Bool.eq_iff_iff.2
  rw [ownFree_iff, ownFree_iff]
  refine forall_congr' fun m => ?_
  by_cases hm : m = n
  · subst hm
    have dead : ∀ {z : MagnetAttemptRecord}, z.state = .pending ∨ z.state = .error → ¬z.Live := by
      rintro z (hz | hz) <;> simp [MagnetAttemptRecord.Live, AttemptState.live, hz]
    constructor
    · intro _ live hl hlive
      rw [hx] at hl
      cases hl
      exact absurd hlive (dead (.inl hxp))
    · intro _ live hl hlive
      rw [hy] at hl
      cases hl
      exact absurd hlive (dead (.inr hye))
  · rw [h.rest m hm]

theorem Refusal.untried_eq : l'.untried avid q = (l.untried avid q).erase n := by
  obtain ⟨y, hy, hye⟩ := h.now
  ext m
  rw [Finset.mem_erase, mem_untried, mem_untried]
  by_cases hm : m = n
  · subst hm
    simp [hy, hye]
  · simp only [h.rest m hm, h.ownFree_eq, ne_eq, hm, not_false_eq_true, true_and]

theorem Refusal.mem_untried : n ∈ l.untried avid q ↔ q n = true := by
  obtain ⟨x, hx, hxp, hfree⟩ := h.was
  simp [Ledger.mem_untried, hx, hxp, hfree]

/-- So many untried attempts are left. -/
theorem Refusal.card_untried : (l'.untried avid q).card + (if q n then 1 else 0) = (l.untried avid q).card := by
  rw [h.untried_eq]
  split
  · rename_i hq
    exact Finset.card_erase_add_one (h.mem_untried.2 hq)
  · rename_i hq
    rw [Finset.erase_eq_of_notMem fun hm => hq (h.mem_untried.1 hm), Nat.add_zero]

omit h

/-! ## Candidates are appended -/

theorem foldl_insertNew_rows (rs : List MagnetAttemptRecord) (t : Attempts) :
    ∃ rs' ⊆ rs, (rs.foldl .insertNew t).rows = t.rows ++ rs' := by
  induction rs generalizing t with
  | nil => exact ⟨[], List.nil_subset _, (List.append_nil _).symm⟩
  | cons r rs ih =>
    obtain ⟨rs', hsub, hrows⟩ := ih (t.insertNew r)
    rw [List.foldl_cons, hrows]
    unfold Table.insertNew
    split
    · refine ⟨r :: rs', List.cons_subset_cons r hsub, ?_⟩
      simp
    · exact ⟨rs', fun x hx => List.mem_cons_of_mem r (hsub hx), rfl⟩

/-- A pending attempt breaks no constraint, if its acquisition is there. -/
theorem addAttempts_isOk {cs : List MagnetCandidate} {row : AcquisitionRecord} (hrow : l.acq avid = some row) :
    ∃ c l', l.addAttempts avid cs now = .ok (c, l') := by
  obtain ⟨rs, hsub, hrows⟩ := foldl_insertNew_rows (l.appended avid cs now) l.attempts
  have hnew : ∀ r ∈ rs, r.avid = avid ∧ r.state = .pending := fun r hr =>
    ⟨(mem_newAttempts (hsub hr)).1, (mem_newAttempts (hsub hr)).2.1⟩
  have ho : ∀ r ∈ ((l.appended avid cs now).foldl .insertNew l.attempts).rows, (l.acquisitions.find r.avid).isSome := by
    rw [hrows]
    intro r hr
    rcases List.mem_append.1 hr with hr | hr
    · exact l.owned r hr
    · rw [(hnew r hr).1]
      exact Option.isSome_iff_exists.2 ⟨row, hrow⟩
  have hu : LiveUnique ((l.appended avid cs now).foldl .insertNew l.attempts).rows := by
    have hdead : rs.filter (fun r => r.Live) = [] := by
      rw [List.filter_eq_nil_iff]
      intro r hr
      simp [MagnetAttemptRecord.Live, AttemptState.live, (hnew r hr).2]
    unfold LiveUnique
    rw [hrows, List.filter_append, hdead, List.append_nil]
    exact l.liveUnique
  have hw : l.withAttempts ((l.appended avid cs now).foldl .insertNew l.attempts) = .ok ⟨l.acquisitions, _, ho, hu⟩ := by
    unfold withAttempts
    rw [dif_pos ho, dif_pos hu]
  refine ⟨(l.appended avid cs now).length, ⟨l.acquisitions, _, ho, hu⟩, ?_⟩
  change (l.withAttempts ((l.appended avid cs now).foldl .insertNew l.attempts)).map _ = _
  rw [hw]
  rfl

/-- How many of these candidates are new to the AVID. -/
def freshCount (l : Ledger) (avid : Avid) (cs : List MagnetCandidate) : Nat :=
  (newAttempts avid 0 1 ((l.attemptsFor avid).filterMap (·.infoHash)) cs).length

theorem newAttempts_length {now' : Time} {no no' : Nat} {seen seen' : List InfoHash} {cs : List MagnetCandidate}
    (hseen : ∀ h, h ∈ seen ↔ h ∈ seen') :
    (newAttempts avid now no seen cs).length = (newAttempts avid now' no' seen' cs).length := by
  induction cs generalizing no no' seen seen' with
  | nil => rfl
  | cons c cs ih =>
    simp only [newAttempts]
    cases c.infoHash with
    | none => simpa using ih hseen
    | some h =>
      by_cases hin : h ∈ seen
      · simpa [hin, (hseen h).1 hin] using ih hseen
      · have hin' : h ∉ seen' := fun he => hin ((hseen h).2 he)
        simp only [hin, hin', if_false, List.length_cons, Nat.add_right_cancel_iff]
        exact ih fun x => by simp [hseen x]

theorem mem_seen {h : InfoHash} : h ∈ (l.attemptsFor avid).filterMap (·.infoHash) ↔
    ∃ n r, l.att (avid, n) = some r ∧ r.infoHash = some h := by
  rw [List.mem_filterMap]
  constructor
  · rintro ⟨r, hr, hh⟩
    exact ⟨r.attemptNo, r, mem_attemptsFor.1 hr, hh⟩
  · rintro ⟨n, r, hr, hh⟩
    have hn : r.attemptNo = n := congrArg Prod.snd (att_key hr)
    exact ⟨r, mem_attemptsFor.2 (hn.symm ▸ hr), hh⟩

theorem length_appended {l₀ : Ledger} (hsame : ∀ n, l.att (avid, n) = l₀.att (avid, n)) {cs : List MagnetCandidate} :
    (l.appended avid cs now).length = l₀.freshCount avid cs := by
  refine newAttempts_length fun h => ?_
  rw [mem_seen, List.mem_filterMap]
  constructor
  · rintro ⟨r, hr, hh⟩
    obtain ⟨hr, ha⟩ := List.mem_filter.1 hr
    have ha : r.avid = avid := by simpa using ha
    have hfind := att_of_mem hr
    rw [MagnetAttemptRecord.key, ha, hsame] at hfind
    exact ⟨_, r, hfind, hh⟩
  · rintro ⟨n, r, hr, hh⟩
    rw [← hsame] at hr
    have ha : r.avid = avid := congrArg Prod.fst (att_key hr)
    exact ⟨r, List.mem_filter.2 ⟨mem_of_att hr, by simpa using ha⟩, hh⟩

/-- Each new candidate is one more untried attempt. -/
theorem card_untried_addAttempts {cs : List MagnetCandidate} {c : Nat} (h : l.addAttempts avid cs now = .ok (c, l')) :
    (l'.untried avid fun _ => true).card = (l.untried avid fun _ => true).card + (l.appended avid cs now).length := by
  have hatt := att_addAttempts h
  have hnos : (l.appended avid cs now).map (·.attemptNo) = _ := newAttempts_numbers _ _ _
  have hmem : ∀ r ∈ l.appended avid cs now, r.avid = avid ∧ r.state = .pending := fun r hr =>
    ⟨(mem_newAttempts hr).1, (mem_newAttempts hr).2.1⟩
  have hhash : ∀ r ∈ l.appended avid cs now, l.ownFree avid r = true := by
    intro r hr
    rw [ownFree_iff]
    intro m live hm _ x hx hlx
    refine (newAttempts_hashes _ _ _).1 r hr x hx (List.mem_filterMap.2 ⟨live, List.mem_filter.2 ⟨mem_of_att hm, ?_⟩, hlx⟩)
    have ha : live.avid = avid := congrArg Prod.fst (att_key hm)
    simpa using ha
  generalize l.appended avid cs now = rows at hatt hnos hmem hhash ⊢
  have hfree : ∀ r, l'.ownFree avid r = l.ownFree avid r := by
    intro r
    apply Bool.eq_iff_iff.2
    rw [ownFree_iff, ownFree_iff]
    constructor
    · exact fun hall m live hm => hall m live ((hatt _ _).2 (.inl hm))
    · intro hall m live hm hl
      rcases (hatt _ _).1 hm with hm | ⟨hr, -⟩
      · exact hall m live hm hl
      · simp [MagnetAttemptRecord.Live, AttemptState.live, (hmem live hr).2] at hl
  -- the new rows are untried and free, and none of the old ones changes
  have hset : l'.untried avid (fun _ => true) = l.untried avid (fun _ => true) ∪ (rows.map (·.attemptNo)).toFinset := by
    ext n
    rw [Finset.mem_union, mem_untried, mem_untried, List.mem_toFinset, List.mem_map]
    constructor
    · rintro ⟨r, hr, hp, hf, -⟩
      rw [hfree] at hf
      rcases (hatt _ _).1 hr with hr | ⟨hr, hk⟩
      · exact .inl ⟨r, hr, hp, hf, rfl⟩
      · exact .inr ⟨r, hr, congrArg Prod.snd hk⟩
    · rintro (⟨r, hr, hp, hf, -⟩ | ⟨r, hr, rfl⟩)
      · exact ⟨r, (hatt _ _).2 (.inl hr), hp, by rw [hfree]; exact hf, rfl⟩
      · exact ⟨r, (hatt _ _).2 (.inr ⟨hr, by rw [MagnetAttemptRecord.key, (hmem r hr).1]⟩), (hmem r hr).2,
          by rw [hfree]; exact hhash r hr, rfl⟩
  have hdisjoint : Disjoint (l.untried avid fun _ => true) (rows.map (·.attemptNo)).toFinset := by
    rw [Finset.disjoint_left]
    intro n hn hin
    obtain ⟨r, hr, -⟩ := mem_untried.1 hn
    have hle := le_maxAttemptNo (l := l) (Option.isSome_iff_exists.2 ⟨r, hr⟩)
    rw [hnos, List.mem_toFinset, List.mem_range'_1] at hin
    omega
  rw [hset, Finset.card_union_of_disjoint hdisjoint, List.toFinset_card_of_nodup (by rw [hnos]; exact List.nodup_range'),
    List.length_map]

/-! ## Nothing live elsewhere -/

/-- A row of another AVID whose attempt has been lost by now. -/
def lostElsewhere (avid : Avid) (r : MagnetAttemptRecord) : MagnetAttemptRecord :=
  if r.avid ≠ avid ∧ r.Live then { r with state := .lost } else r

theorem lostElsewhere_key (r : MagnetAttemptRecord) : (lostElsewhere avid r).key = r.key := by
  unfold lostElsewhere
  split <;> rfl

theorem lostElsewhere_live {r : MagnetAttemptRecord} (h : (lostElsewhere avid r).Live) :
    r.avid = avid ∧ lostElsewhere avid r = r := by
  unfold lostElsewhere at h ⊢
  split at h
  · simp [MagnetAttemptRecord.Live, AttemptState.live] at h
  · rename_i hc
    refine ⟨?_, if_neg hc⟩
    by_contra ha
    exact hc ⟨ha, h⟩

/-- The live attempts of every other AVID have been lost. -/
def settledElsewhere (l : Ledger) (avid : Avid) : Ledger where
  acquisitions := l.acquisitions
  attempts :=
    { rows := l.attempts.rows.map (lostElsewhere avid)
      nodup := by
        rw [List.map_map]
        refine (congrArg List.Nodup (List.map_congr_left fun r _ => ?_)).mpr l.attempts.nodup
        exact lostElsewhere_key r }
  owned := by
    intro r hr
    obtain ⟨x, hx, rfl⟩ := List.mem_map.1 hr
    have ha : (lostElsewhere avid x).avid = x.avid := congrArg Prod.fst (lostElsewhere_key x)
    rw [ha]
    exact l.owned x hx
  liveUnique := by
    refine LiveUnique.map (fun r hr => ?_) l.liveUnique
    obtain ⟨-, he⟩ := lostElsewhere_live hr
    rw [he] at hr ⊢
    exact ⟨hr, rfl⟩

theorem sameOf_settledElsewhere : SameOf avid l (l.settledElsewhere avid) := by
  refine ⟨rfl, fun n => ?_⟩
  have own : ∀ {r : MagnetAttemptRecord}, r.avid = avid → lostElsewhere avid r = r := fun ha => if_neg fun h => h.1 ha
  apply Option.ext
  intro r
  constructor
  · intro hr
    obtain ⟨x, hx, rfl⟩ := List.mem_map.1 (mem_of_att hr)
    have hk := att_key hr
    rw [lostElsewhere_key] at hk
    rw [own (congrArg Prod.fst hk), ← hk]
    exact att_of_mem hx
  · intro hr
    have hk := att_key hr
    have hmem : r ∈ (l.settledElsewhere avid).attempts.rows :=
      List.mem_map.2 ⟨r, mem_of_att hr, own (congrArg Prod.fst hk)⟩
    rw [← hk]
    exact att_of_mem hmem

end Ledger

end EmbyxManager
