import EmbyxManager.FillActor.LocalMoves
/-!
# The files of a local move

The three paths of a candidate name inodes, and nobody else writes them. `Safe` is what
every action of a move and of its reconciliation keeps, so it holds wherever they stop.
-/

namespace EmbyxManager.FillActor.Local

open Atom Prog

/-! ## The disk -/

/-- A device and an inode number. -/
abbrev Inode := Nat × Nat

structure Disk where
  names : MovePath → Option Inode
  size : Inode → Nat
  mtimeNs : Inode → Int
  ctimeNs : Inode → Int

namespace Disk

def stat (d : Disk) (i : Inode) : FileFingerprint := ⟨i.1, i.2, d.size i, d.mtimeNs i, d.ctimeNs i⟩

/-- Names change, and change times with them; contents do not. -/
structure Renamed (d d' : Disk) (names : MovePath → Option Inode) : Prop where
  names : d'.names = names
  size : d'.size = d.size
  mtimeNs : d'.mtimeNs = d.mtimeNs

/-- Where the name `p` of an inode becomes the name `q`. -/
def moved (d : Disk) (p q : MovePath) (i : Inode) : MovePath → Option Inode :=
  Function.update (Function.update d.names p none) q (some i)

/-- What a file system answers, and the disk it leaves; what fails leaves the disk as it was. -/
def answers (d d' : Disk) : (op : LocalOp) → Except LocalExc op.Res → Prop
  | .pathExists p, r => d' = d ∧ r = .ok (d.names p).isSome
  | .isSymlink _, r => d' = d ∧ r = .ok false
  | .stat p, r => d' = d ∧ r = match d.names p with
    | some i => .ok (d.stat i)
    | none => .error (.os .noent)
  | .renameNoReplace p q, r =>
    (r = .ok () ∧ ∃ i, d.names p = some i ∧ d.names q = none ∧ d.Renamed d' (d.moved p q i)) ∨ ((∃ e, r = .error e) ∧ d' = d)
  -- two names of one inode are left as they are
  | .rename p q, r =>
    (r = .ok () ∧ ∃ i, d.names p = some i ∧ d.Renamed d' (if d.names q = some i then d.names else d.moved p q i)) ∨
      ((∃ e, r = .error e) ∧ d' = d)
  | .link p q, r =>
    (r = .ok () ∧ ∃ i, d.names p = some i ∧ d.names q = none ∧ d.Renamed d' (Function.update d.names q (some i))) ∨
      ((∃ e, r = .error e) ∧ d' = d)
  | .unlink p, r =>
    (r = .ok () ∧ (d.names p).isSome ∧ d.Renamed d' (Function.update d.names p none)) ∨ ((∃ e, r = .error e) ∧ d' = d)
  | _, _ => d' = d

end Disk

/-! ## The world -/

structure LocalWorld (b : Backend) where
  store : b.Store
  disk : Disk

variable {b : Backend}

def storeAnswers (b : Backend) (s s' : b.Store) : (op : LocalOp) → Except LocalExc op.Res → Prop
  | .getMoveResult planId candidateId, r => s' = s ∧ ∀ a, r = .ok a → b.getMoveResult planId candidateId s = .ok a
  | .getMoveJournal planId candidateId, r => s' = s ∧ ∀ a, r = .ok a → b.getMoveJournal planId candidateId s = .ok a
  | .saveMoveResult planId result, r => Written s s' (b.saveMoveResult planId result s) r
  | .saveMoveJournal record, r => Written s s' (b.saveMoveJournal record s) r
  | _, _ => s' = s

def LocalWorld.answers (b : Backend) : Env LocalOp.Res LocalExc (LocalWorld b) := fun w op r w' =>
  storeAnswers b w.store w'.store op r ∧ w.disk.answers w'.disk op r

/-! ## The invariant -/

/-- The inode the plan was made for. -/
def candidateInode (record : CandidateRecord) : Inode := (record.fingerprint.device, record.fingerprint.inode)

/-- It is as it was then, but for its change time. -/
def Intact (record : CandidateRecord) (d : Disk) : Prop :=
  d.size (candidateInode record) = record.fingerprint.size ∧ d.mtimeNs (candidateInode record) = record.fingerprint.mtimeNs

/-- The file is at its destination, and at no other path. -/
structure Final (record : CandidateRecord) (d : Disk) : Prop where
  destination : d.names .destination = some (candidateInode record)
  source : d.names .source ≠ some (candidateInode record)
  quarantine : d.names .quarantine ≠ some (candidateInode record)

/-- With the names there were before the first move: the file is still somewhere; whatever
stood at the destination stands there, or was put at the source where nothing was; and the
file never has all three names. -/
structure Kept (before : MovePath → Option Inode) (record : CandidateRecord) (d : Disk) : Prop where
  reachable : (∃ p, before p = some (candidateInode record)) → ∃ p, d.names p = some (candidateInode record)
  unreplaced : ∀ i, before .destination = some i →
    (d.names .destination = some i ∧
      (before .source ≠ none → d.names .source = none → i = candidateInode record ∧ Intact record d)) ∨
    (before .source = none ∧ d.names .destination = none ∧ d.names .source = some i)
  apart : d.names .quarantine = some (candidateInode record) → d.names .source = some (candidateInode record) →
    d.names .destination ≠ some (candidateInode record)

structure Safe (before : MovePath → Option Inode) (planId : String) (record : CandidateRecord) (w : LocalWorld b) : Prop where
  kept : Kept before record w.disk
  fresh : b.journal w.store (planId, record.candidateId) = none → w.disk.names .quarantine ≠ some (candidateInode record)
  reconciled : ∀ j, b.journal w.store (planId, record.candidateId) = some j → j.state = .reconciled →
    (b.moveResult w.store (planId, record.candidateId)).isSome = true
  moved : ∀ result, b.moveResult w.store (planId, record.candidateId) = some result → result.state = .moved →
    Final record w.disk

/-- The move is journalled, and has no result yet. -/
structure Going (before : MovePath → Option Inode) (planId : String) (record : CandidateRecord) (w : LocalWorld b) : Prop where
  safe : Safe before planId record w
  result : b.moveResult w.store (planId, record.candidateId) = none
  journal : b.journal w.store (planId, record.candidateId) ≠ none

/-- Which names may be given and taken. -/
def DiskAllowed (record : CandidateRecord) (d : Disk) : LocalOp → Prop
  | .renameNoReplace .source .destination => True
  | .renameNoReplace .destination .source => ¬(d.names .destination = some (candidateInode record) ∧ Intact record d)
  | .renameNoReplace .quarantine .source => True
  | .renameNoReplace .source .quarantine => d.names .destination = some (candidateInode record) ∧ Intact record d
  | .rename .source .quarantine =>
    (d.names .destination = some (candidateInode record) ∧ Intact record d) ∧ d.names .quarantine = none
  | .link .source .destination => d.names .quarantine = none
  | .link .quarantine .source =>
    d.names .quarantine = some (candidateInode record) → d.names .destination ≠ some (candidateInode record)
  | .unlink .quarantine => ∃ p, p ≠ .quarantine ∧ d.names p = d.names .quarantine
  | _ => False

/-- What a move may ask for. -/
def Allowed (planId : String) (record : CandidateRecord) (w : LocalWorld b) (op : LocalOp) : Prop :=
  match op with
  | .renameNoReplace .. | .rename .. | .link .. | .unlink _ =>
    b.moveResult w.store (planId, record.candidateId) = none ∧ b.journal w.store (planId, record.candidateId) ≠ none ∧
      DiskAllowed record w.disk op
  | .saveMoveResult p result =>
    p = planId ∧ result.candidateId = record.candidateId ∧
      b.moveResult w.store (planId, record.candidateId) = none ∧ (result.state = .moved → Final record w.disk)
  | .saveMoveJournal j =>
    (j.planId, j.candidateId) = (planId, record.candidateId) ∧
      (j.state = .reconciled → (b.moveResult w.store (planId, record.candidateId)).isSome = true)
  | _ => True

/-! ## What every action keeps -/

section kept
variable {before : MovePath → Option Inode} {record : CandidateRecord} {d d' : Disk} {i : Inode}

theorem Disk.Renamed.intact {names : MovePath → Option Inode} (h : d.Renamed d' names) : Intact record d' ↔ Intact record d := by
  unfold Intact
  rw [h.size, h.mtimeNs]

/-- A name that is moved to a free one loses no inode. -/
theorem reaches_moved {p q x : MovePath} {f : Inode} (hp : d.names p = some i) (hq : d.names q = none)
    (hx : d.names x = some f) : ∃ y, d.moved p q i y = some f := by
  by_cases hxp : x = p
  · subst hxp
    exact ⟨q, by rw [Disk.moved, Function.update_self, ← hx, hp]⟩
  · refine ⟨x, ?_⟩
    have hxq : x ≠ q := by
      rintro rfl
      rw [hq] at hx
      cases hx
    rw [Disk.moved, Function.update_of_ne hxq, Function.update_of_ne hxp]
    exact hx

theorem reaches_linked {q x : MovePath} {f : Inode} (hq : d.names q = none) (hx : d.names x = some f) :
    ∃ y, Function.update d.names q (some i) y = some f := by
  refine ⟨x, ?_⟩
  rw [Function.update_of_ne]
  · exact hx
  · rintro rfl
    rw [hq] at hx
    cases hx

theorem Kept.moveIn (h : Kept before record d) (hs : d.names .source = some i) (hd : d.names .destination = none)
    (hr : d.Renamed d' (d.moved .source .destination i)) : Kept before record d' where
  reachable hb := by
    obtain ⟨x, hx⟩ := h.reachable hb
    rw [hr.names]
    exact reaches_moved hs hd hx
  unreplaced j hj := by
    rcases h.unreplaced j hj with ⟨hdest, -⟩ | ⟨hbefore, -, hsrc⟩
    · rw [hd] at hdest
      cases hdest
    · left
      rw [hr.names]
      refine ⟨?_, fun hne => absurd hbefore hne⟩
      rw [Disk.moved, Function.update_self, ← hs, hsrc]
  apart _ hsrc := by
    rw [hr.names] at hsrc
    simp [Disk.moved] at hsrc

theorem Kept.moveBack (h : Kept before record d) (hd : d.names .destination = some i) (hs : d.names .source = none)
    (hne : ¬(d.names .destination = some (candidateInode record) ∧ Intact record d))
    (hr : d.Renamed d' (d.moved .destination .source i)) : Kept before record d' where
  reachable hb := by
    obtain ⟨x, hx⟩ := h.reachable hb
    rw [hr.names]
    exact reaches_moved hd hs hx
  unreplaced j hj := by
    rcases h.unreplaced j hj with ⟨hdest, hmine⟩ | ⟨-, hdest, -⟩
    · right
      have hbefore : before .source = none := by
        by_contra hbefore
        obtain ⟨rfl, hintact⟩ := hmine hbefore hs
        exact hne ⟨hdest, hintact⟩
      rw [hr.names]
      refine ⟨hbefore, ?_, ?_⟩
      · simp [Disk.moved]
      · rw [Disk.moved, Function.update_self, ← hd, hdest]
    · rw [hd] at hdest
      cases hdest
  apart _ _ hdest := by
    rw [hr.names] at hdest
    simp [Disk.moved] at hdest

/-- From the quarantine back to the source. -/
theorem Kept.restore (h : Kept before record d) (hq : d.names .quarantine = some i) (hs : d.names .source = none)
    (hr : d.Renamed d' (d.moved .quarantine .source i)) : Kept before record d' where
  reachable hb := by
    obtain ⟨x, hx⟩ := h.reachable hb
    rw [hr.names]
    exact reaches_moved hq hs hx
  unreplaced j hj := by
    rcases h.unreplaced j hj with ⟨hdest, -⟩ | ⟨-, -, hsrc⟩
    · left
      rw [hr.names]
      refine ⟨?_, fun _ hnone => ?_⟩
      · simpa [Disk.moved] using hdest
      · simp [Disk.moved] at hnone
    · rw [hs] at hsrc
      cases hsrc
  apart hquar := by
    rw [hr.names] at hquar
    simp [Disk.moved] at hquar

/-- From the source to the quarantine, once the file is at its destination. -/
theorem Kept.setAside (h : Kept before record d) (hs : d.names .source = some i) (hq : d.names .quarantine = none)
    (hd : d.names .destination = some (candidateInode record) ∧ Intact record d)
    (hr : d.Renamed d' (d.moved .source .quarantine i)) : Kept before record d' where
  reachable hb := by
    obtain ⟨x, hx⟩ := h.reachable hb
    rw [hr.names]
    exact reaches_moved hs hq hx
  unreplaced j hj := by
    rcases h.unreplaced j hj with ⟨hdest, -⟩ | ⟨-, hdest, -⟩
    · left
      have hmine : j = candidateInode record := Option.some.inj (hdest.symm.trans hd.1)
      rw [hr.names]
      refine ⟨?_, fun _ _ => ⟨hmine, hr.intact.2 hd.2⟩⟩
      simpa [Disk.moved] using hdest
    · rw [hd.1] at hdest
      cases hdest
  apart _ hsrc := by
    rw [hr.names] at hsrc
    simp [Disk.moved] at hsrc

theorem Kept.linkIn (h : Kept before record d) (hs : d.names .source = some i) (hd : d.names .destination = none)
    (hq : d.names .quarantine = none) (hr : d.Renamed d' (Function.update d.names .destination (some i))) :
    Kept before record d' where
  reachable hb := by
    obtain ⟨x, hx⟩ := h.reachable hb
    rw [hr.names]
    exact reaches_linked hd hx
  unreplaced j hj := by
    rcases h.unreplaced j hj with ⟨hdest, -⟩ | ⟨hbefore, -, hsrc⟩
    · rw [hd] at hdest
      cases hdest
    · left
      rw [hr.names]
      refine ⟨?_, fun hne => absurd hbefore hne⟩
      rw [Function.update_self, ← hs, hsrc]
  apart hquar := by
    rw [hr.names] at hquar
    simp [hq] at hquar

theorem Kept.linkBack (h : Kept before record d) (hs : d.names .source = none)
    (hne : d.names .quarantine = some (candidateInode record) → d.names .destination ≠ some (candidateInode record))
    (hr : d.Renamed d' (Function.update d.names .source (some i))) : Kept before record d' where
  reachable hb := by
    obtain ⟨x, hx⟩ := h.reachable hb
    rw [hr.names]
    exact reaches_linked hs hx
  unreplaced j hj := by
    rcases h.unreplaced j hj with ⟨hdest, -⟩ | ⟨-, -, hsrc⟩
    · left
      rw [hr.names]
      refine ⟨?_, fun _ hnone => ?_⟩
      · simpa using hdest
      · simp at hnone
    · rw [hs] at hsrc
      cases hsrc
  apart hquar _ hdest := by
    rw [hr.names] at hquar hdest
    exact hne (by simpa using hquar) (by simpa using hdest)

theorem Kept.dropQuarantine (h : Kept before record d) (hsame : ∃ p, p ≠ .quarantine ∧ d.names p = d.names .quarantine)
    (hr : d.Renamed d' (Function.update d.names .quarantine none)) : Kept before record d' where
  reachable hb := by
    obtain ⟨x, hx⟩ := h.reachable hb
    obtain ⟨p, hp, hpq⟩ := hsame
    rw [hr.names]
    by_cases hxq : x = .quarantine
    · subst hxq
      exact ⟨p, by rw [Function.update_of_ne hp, hpq, hx]⟩
    · exact ⟨x, by rw [Function.update_of_ne hxq, hx]⟩
  unreplaced j hj := by
    rw [hr.intact, hr.names]
    simpa using h.unreplaced j hj
  apart hquar := by
    rw [hr.names] at hquar
    simp at hquar

/-- Every allowed change of names keeps what is kept. -/
theorem Kept.step (h : Kept before record d) {op : LocalOp} {r : Except LocalExc op.Res} (hg : DiskAllowed record d op)
    (ht : d.answers d' op r) : Kept before record d' := by
  unfold DiskAllowed at hg
  split at hg
  · rcases ht with ⟨-, i, hs, hd, hr⟩ | ⟨-, rfl⟩
    · exact h.moveIn hs hd hr
    · exact h
  · rcases ht with ⟨-, i, hd, hs, hr⟩ | ⟨-, rfl⟩
    · exact h.moveBack hd hs hg hr
    · exact h
  · rcases ht with ⟨-, i, hq, hs, hr⟩ | ⟨-, rfl⟩
    · exact h.restore hq hs hr
    · exact h
  · rcases ht with ⟨-, i, hs, hq, hr⟩ | ⟨-, rfl⟩
    · exact h.setAside hs hq hg hr
    · exact h
  · rcases ht with ⟨-, i, hs, hr⟩ | ⟨-, rfl⟩
    · rw [if_neg (by rw [hg.2]; exact nofun)] at hr
      exact h.setAside hs hg.2 hg.1 hr
    · exact h
  · rcases ht with ⟨-, i, hs, hd, hr⟩ | ⟨-, rfl⟩
    · exact h.linkIn hs hd hg hr
    · exact h
  · rcases ht with ⟨-, i, -, hs, hr⟩ | ⟨-, rfl⟩
    · exact h.linkBack hs hg hr
    · exact h
  · rcases ht with ⟨-, -, hr⟩ | ⟨-, rfl⟩
    · exact h.dropQuarantine hg hr
    · exact h
  · exact hg.elim

end kept

section step
variable {before : MovePath → Option Inode} {planId : String} {record : CandidateRecord} {w w' : LocalWorld b}

/-- With the repository as it was and the same names, everything is as it was. -/
theorem Safe.same (h : Safe before planId record w) (hstore : w'.store = w.store) (hdisk : w'.disk = w.disk) :
    Safe before planId record w' := by
  obtain ⟨s, d⟩ := w
  obtain ⟨s', d'⟩ := w'
  obtain rfl : s' = s := hstore
  obtain rfl : d' = d := hdisk
  exact h

/-- Names change only under a journalled move without a result. -/
theorem Safe.renamed (h : Safe before planId record w) (hresult : b.moveResult w.store (planId, record.candidateId) = none)
    (hjournal : b.journal w.store (planId, record.candidateId) ≠ none) (hstore : w'.store = w.store)
    (hkept : Kept before record w'.disk) : Safe before planId record w' where
  kept := hkept
  fresh hnone := absurd (hstore ▸ hnone) hjournal
  reconciled j hj hstate := by
    rw [hstore] at hj ⊢
    exact h.reconciled j hj hstate
  moved result hr := by
    rw [hstore, hresult] at hr
    cases hr

theorem Safe.step (h : Safe before planId record w) {op : LocalOp} {r : Except LocalExc op.Res}
    (hg : Allowed planId record w op) (ht : LocalWorld.answers b w op r w') : Safe before planId record w' := by
  obtain ⟨hstore, hdisk⟩ := ht
  cases op with
  | renameNoReplace | rename | link | unlink => exact h.renamed hg.1 hg.2.1 hstore (h.kept.step hg.2.2 hdisk)
  | pathExists | isSymlink | stat => exact h.same hstore hdisk.1
  | getMoveResult | getMoveJournal => exact h.same hstore.1 hdisk
  | saveMoveResult p result =>
    obtain ⟨rfl, hid, hnone, hmoved⟩ := hg
    have hdisk : w'.disk = w.disk := hdisk
    replace hstore : Written w.store w'.store _ r := hstore
    -- a write that raises leaves the store alone
    rcases hstore.cases with ⟨hsame, -⟩ | hok
    · exact h.same hsame hdisk
    · have hr := Backend.recorded hok
      rw [hid] at hr
      have hresult := hr.result (p, record.candidateId)
      rw [if_pos rfl] at hresult
      refine ⟨hdisk ▸ h.kept, ?_, fun _ _ _ => by rw [hresult]; rfl, ?_⟩
      · rw [hr.journal, hdisk]
        exact h.fresh
      · rw [hresult, hdisk]
        rintro _ ⟨⟩
        exact hmoved
  | saveMoveJournal j =>
    obtain ⟨hkey, hreconciled⟩ := hg
    have hdisk : w'.disk = w.disk := hdisk
    replace hstore : Written w.store w'.store _ r := hstore
    rcases hstore.cases with ⟨hsame, -⟩ | hok
    · exact h.same hsame hdisk
    · have hj := Backend.stepped hok
      have hjournal := hj.journal (planId, record.candidateId)
      rw [if_pos hkey.symm] at hjournal
      refine ⟨hdisk ▸ h.kept, ?_, ?_, ?_⟩
      · rw [hjournal]
        exact nofun
      · rw [hjournal, hj.result]
        rintro _ ⟨⟩
        exact hreconciled
      · rw [hj.result, hdisk]
        exact h.moved
  | _ => exact h.same hstore hdisk

end step

end EmbyxManager.FillActor.Local
