import EmbyxManager.FillActor.LocalRuns
/-!
# A local move loses no file

The move and its reconciliation, from any state that `Safe` describes. What they have
looked at stays true until they write, so each program is followed name by name.
-/

namespace EmbyxManager.FillActor.Local

open Atom Prog

variable {b : Backend} {before : MovePath → Option Inode} {planId : String} {record : CandidateRecord}
  {w w' : LocalWorld b} {α : Type}

/-! ## Looks -/

/-- Changes neither names nor the repository. -/
def LocalOp.looks : LocalOp → Bool
  | renameNoReplace .. | rename .. | link .. | unlink _ | saveMoveResult .. | saveMoveJournal _ => false
  | _ => true

theorem answers_look {op : LocalOp} {r : Except LocalExc op.Res} (hl : op.looks = true) (h : LocalWorld.answers b w op r w') :
    w' = w := by
  obtain ⟨s, d⟩ := w
  obtain ⟨s', d'⟩ := w'
  have hboth : s' = s ∧ d' = d := by
    cases op with
    | renameNoReplace | rename | link | unlink | saveMoveResult | saveMoveJournal => cases hl
    | pathExists | isSymlink | stat => exact ⟨h.1, h.2.1⟩
    | getMoveResult | getMoveJournal => exact ⟨h.1.1, h.2⟩
    | _ => exact h
  rw [hboth.1, hboth.2]

theorem allowed_look {op : LocalOp} (hl : op.looks = true) : Allowed planId record w op := by
  cases op with
  | renameNoReplace | rename | link | unlink | saveMoveResult | saveMoveJournal => cases hl
  | _ => trivial

/-- A look, whatever it answers. -/
theorem wp_look {op : LocalOp} {Q : op.Res → LocalWorld b → Prop} {X : LocalExc → LocalWorld b → Prop} (hl : op.looks = true)
    (hQ : ∀ a, LocalWorld.answers b w op (.ok a) w → Q a w) (hX : ∀ e, LocalWorld.answers b w op (.error e) w → X e w) :
    op.ask.wp (LocalWorld.answers b) (Allowed planId record) Q X w := by
  refine (wp_call op).2 ⟨allowed_look hl, fun a w' ht => ?_, fun e w' ht => ?_⟩
  · obtain rfl := answers_look hl ht
    exact hQ a ht
  · obtain rfl := answers_look hl ht
    exact hX e ht

/-- A look whose failure ends the move. -/
theorem wp_ask {op : LocalOp} {Q : op.Res → LocalWorld b → Prop} (hl : op.looks = true) (hQ : ∀ a, Q a w) :
    op.ask.wp (LocalWorld.answers b) (Allowed planId record) Q (fun _ _ => True) w :=
  wp_look hl (fun a _ => hQ a) fun _ _ => trivial

theorem wp_check {c : Check} {Q : Bool → LocalWorld b → Prop} (hQ : ∀ a, Q a w) :
    (check c).wp (LocalWorld.answers b) (Allowed planId record) Q (fun _ _ => True) w :=
  wp_ask rfl hQ

theorem wp_pathExists {p : MovePath} {Q : Bool → LocalWorld b → Prop} {X : LocalExc → LocalWorld b → Prop}
    (hQ : Q (w.disk.names p).isSome w) :
    (pathExists p).wp (LocalWorld.answers b) (Allowed planId record) Q X w := by
  refine wp_look rfl (fun a ht => ?_) fun e ht => ?_
  · obtain rfl := Except.ok.inj ht.2.2
    exact hQ
  · exact absurd ht.2.2 nofun

theorem wp_isSymlink {p : MovePath} {Q : Bool → LocalWorld b → Prop} {X : LocalExc → LocalWorld b → Prop} (hQ : Q false w) :
    (isSymlink p).wp (LocalWorld.answers b) (Allowed planId record) Q X w := by
  refine wp_look rfl (fun a ht => ?_) fun e ht => ?_
  · obtain rfl := Except.ok.inj ht.2.2
    exact hQ
  · exact absurd ht.2.2 nofun

theorem wp_fingerprint {p : MovePath} {Q : FileFingerprint → LocalWorld b → Prop} {X : LocalExc → LocalWorld b → Prop}
    (hQ : ∀ i, w.disk.names p = some i → Q (w.disk.stat i) w) (hX : w.disk.names p = none → X (.os .noent) w) :
    (fingerprint p).wp (LocalWorld.answers b) (Allowed planId record) Q X w := by
  refine wp_look rfl (fun a ht => ?_) fun e ht => ?_
  · have hstat := ht.2.2
    cases hp : w.disk.names p with
    | none =>
      simp only [hp] at hstat
      cases hstat
    | some i =>
      simp only [hp] at hstat
      obtain rfl := Except.ok.inj hstat
      exact hQ i hp
  · have hstat := ht.2.2
    cases hp : w.disk.names p with
    | none =>
      simp only [hp] at hstat
      obtain rfl := Except.error.inj hstat
      exact hX hp
    | some i =>
      simp only [hp] at hstat
      cases hstat

theorem wp_exceptOS {p : LocalMove α} {Q : Except Errno α → LocalWorld b → Prop} {X : LocalExc → LocalWorld b → Prop}
    (h : p.wp (LocalWorld.answers b) (Allowed planId record) (fun a w => Q (.ok a) w)
      (fun e w => (∀ errno, e = .os errno → Q (.error errno) w) ∧ ∀ text, e = .value text → X e w) w) :
    (exceptOS p).wp (LocalWorld.answers b) (Allowed planId record) Q X w := by
  unfold exceptOS
  refine (wp_bind _ _).2 ((wp_attempt _).2 (wp_mono h (fun _ _ h => h) fun e w' he => ?_))
  cases e with
  | os errno => exact he.1 errno rfl
  | value text => exact he.2 text rfl

/-! ## Identities -/

/-- What `ifPresent` answers. -/
def Disk.passes (d : Disk) (test : FileFingerprint → Bool) (p : MovePath) : Bool := (d.names p).any fun i => test (d.stat i)

theorem wp_ifPresent {test : FileFingerprint → Bool} {p : MovePath} {Q : Bool → LocalWorld b → Prop}
    {X : LocalExc → LocalWorld b → Prop} (hQ : Q (w.disk.passes test p) w) :
    (ifPresent test p).wp (LocalWorld.answers b) (Allowed planId record) Q X w := by
  unfold ifPresent
  refine (wp_bind _ _).2 (wp_isSymlink ((wp_bind _ _).2 (wp_exceptOS (wp_fingerprint (fun i hp => ?_) fun hp => ?_))))
  · rw [Disk.passes, hp] at hQ
    exact hQ
  · rw [Disk.passes, hp] at hQ
    exact ⟨fun _ _ => hQ, nofun⟩

/-- The path has the file as it was. -/
abbrev Disk.linked (record : CandidateRecord) (d : Disk) (p : MovePath) : Bool :=
  d.passes (fun st => linkedIdentity st record.fingerprint) p

theorem linked_iff {d : Disk} {p : MovePath} :
    d.linked record p = true ↔ d.names p = some (candidateInode record) ∧ Intact record d := by
  unfold Disk.linked Disk.passes
  rw [Option.any_eq_true]
  constructor
  · rintro ⟨i, hi, htest⟩
    simp only [linkedIdentity, Bool.and_eq_true] at htest
    obtain ⟨⟨⟨hdev, hino⟩, hsize⟩, hmtime⟩ := htest
    obtain rfl : i = candidateInode record := Prod.ext (of_decide_eq_true hdev) (of_decide_eq_true hino)
    exact ⟨hi, of_decide_eq_true hsize, of_decide_eq_true hmtime⟩
  · rintro ⟨hi, hsize, hmtime⟩
    refine ⟨_, hi, ?_⟩
    simp only [linkedIdentity, Bool.and_eq_true]
    exact ⟨⟨⟨decide_eq_true rfl, decide_eq_true rfl⟩, decide_eq_true hsize⟩, decide_eq_true hmtime⟩

/-- What `sameInode` answers. -/
def Disk.same (d : Disk) (p q : MovePath) : Bool := (d.names p).any fun i => d.names q = some i

theorem same_iff {d : Disk} {p q : MovePath} : d.same p q = true ↔ ∃ i, d.names p = some i ∧ d.names q = some i := by
  unfold Disk.same
  rw [Option.any_eq_true]
  simp

theorem wp_sameInode {p q : MovePath} {Q : Bool → LocalWorld b → Prop} {X : LocalExc → LocalWorld b → Prop}
    (hQ : Q (w.disk.same p q) w) :
    (sameInode p q).wp (LocalWorld.answers b) (Allowed planId record) Q X w := by
  unfold sameInode
  refine (wp_bind _ _).2 (wp_exceptOS ((wp_bind _ _).2 (wp_fingerprint (fun i hp => ?_) fun hp => ?_)))
  · refine (wp_bind _ _).2 (wp_fingerprint (fun j hq => ?_) fun hq => ?_)
    · have hsame : w.disk.same p q = (decide ((w.disk.stat i).device = (w.disk.stat j).device) &&
          decide ((w.disk.stat i).inode = (w.disk.stat j).inode)) := by
        rw [Disk.same, hp, hq, Option.any_some, Bool.eq_iff_iff]
        rw [decide_eq_true_eq, Option.some.injEq, Prod.ext_iff, Bool.and_eq_true]
        exact ⟨fun h => ⟨decide_eq_true h.1.symm, decide_eq_true h.2.symm⟩,
          fun h => ⟨(of_decide_eq_true h.1).symm, (of_decide_eq_true h.2).symm⟩⟩
      rw [hsame] at hQ
      exact hQ
    · rw [Disk.same, hp, hq] at hQ
      exact ⟨fun _ _ => by simpa using hQ, nofun⟩
  · rw [Disk.same, hp] at hQ
    exact ⟨fun _ _ => hQ, nofun⟩

/-! ## Changes of names -/

section changes
variable {p q : MovePath} {Q : Unit → LocalWorld b → Prop} {X : LocalExc → LocalWorld b → Prop}

def LocalOp.changes : LocalOp → Bool
  | renameNoReplace .. | rename .. | link .. | unlink _ => true
  | _ => false

theorem Going.allowed (h : Going before planId record w) {op : LocalOp} (hop : op.changes = true)
    (hg : DiskAllowed record w.disk op) : Allowed planId record w op := by
  cases op with
  | renameNoReplace | rename | link | unlink => exact ⟨h.result, h.journal, hg⟩
  | _ => cases hop

theorem answers_change {op : LocalOp} {r : Except LocalExc op.Res} (hop : op.changes = true)
    (ht : LocalWorld.answers b w op r w') : w'.store = w.store := by
  cases op with
  | renameNoReplace | rename | link | unlink => exact ht.1
  | _ => cases hop

theorem Going.step (h : Going before planId record w) {op : LocalOp} {r : Except LocalExc op.Res} (hop : op.changes = true)
    (hg : DiskAllowed record w.disk op) (ht : LocalWorld.answers b w op r w') : Going before planId record w' := by
  have hstore := answers_change hop ht
  refine ⟨h.safe.step (h.allowed hop hg) ht, ?_, ?_⟩
  · rw [hstore]
    exact h.result
  · rw [hstore]
    exact h.journal

/-- A change of names that fails leaves everything as it was. -/
theorem unchanged {op : LocalOp} {r : Except LocalExc op.Res} (hop : op.changes = true) (ht : LocalWorld.answers b w op r w')
    (hdisk : w'.disk = w.disk) : w' = w := by
  have hstore := answers_change hop ht
  obtain ⟨s, d⟩ := w
  obtain ⟨s', d'⟩ := w'
  obtain rfl : s' = s := hstore
  obtain rfl : d' = d := hdisk
  rfl

theorem wp_renameNoReplace (h : Going before planId record w) (hg : DiskAllowed record w.disk (.renameNoReplace p q))
    (hQ : ∀ i w', w.disk.names p = some i → w.disk.names q = none → Going before planId record w' →
      w.disk.Renamed w'.disk (w.disk.moved p q i) → Q () w')
    (hX : ∀ e, X e w) : (renameNoReplace p q).wp (LocalWorld.answers b) (Allowed planId record) Q X w := by
  refine (wp_call (LocalOp.renameNoReplace p q)).2 ⟨h.allowed rfl hg, ?_, fun e w' ht => ?_⟩
  · rintro ⟨⟩ w' ht
    rcases ht.2 with ⟨-, i, hp, hq, hr⟩ | ⟨⟨e, he⟩, -⟩
    · exact hQ i w' hp hq (h.step rfl hg ht) hr
    · cases he
  · rcases ht.2 with ⟨hok, -⟩ | ⟨-, hdisk⟩
    · cases hok
    · obtain rfl := unchanged rfl ht hdisk
      exact hX e

theorem wp_rename (h : Going before planId record w) (hg : DiskAllowed record w.disk (.rename p q))
    (hfree : w.disk.names q = none)
    (hQ : ∀ i w', w.disk.names p = some i → Going before planId record w' →
      w.disk.Renamed w'.disk (w.disk.moved p q i) → Q () w')
    (hX : ∀ e, X e w) : (rename p q).wp (LocalWorld.answers b) (Allowed planId record) Q X w := by
  refine (wp_call (LocalOp.rename p q)).2 ⟨h.allowed rfl hg, ?_, fun e w' ht => ?_⟩
  · rintro ⟨⟩ w' ht
    rcases ht.2 with ⟨-, i, hp, hr⟩ | ⟨⟨e, he⟩, -⟩
    · rw [if_neg (by rw [hfree]; exact nofun)] at hr
      exact hQ i w' hp (h.step rfl hg ht) hr
    · cases he
  · rcases ht.2 with ⟨hok, -⟩ | ⟨-, hdisk⟩
    · cases hok
    · obtain rfl := unchanged rfl ht hdisk
      exact hX e

theorem wp_link (h : Going before planId record w) (hg : DiskAllowed record w.disk (.link p q))
    (hQ : ∀ i w', w.disk.names p = some i → w.disk.names q = none → Going before planId record w' →
      w.disk.Renamed w'.disk (Function.update w.disk.names q (some i)) → Q () w')
    (hX : ∀ e, X e w) : (link p q).wp (LocalWorld.answers b) (Allowed planId record) Q X w := by
  refine (wp_call (LocalOp.link p q)).2 ⟨h.allowed rfl hg, ?_, fun e w' ht => ?_⟩
  · rintro ⟨⟩ w' ht
    rcases ht.2 with ⟨-, i, hp, hq, hr⟩ | ⟨⟨e, he⟩, -⟩
    · exact hQ i w' hp hq (h.step rfl hg ht) hr
    · cases he
  · rcases ht.2 with ⟨hok, -⟩ | ⟨-, hdisk⟩
    · cases hok
    · obtain rfl := unchanged rfl ht hdisk
      exact hX e

theorem wp_unlink (h : Going before planId record w) (hg : DiskAllowed record w.disk (.unlink p))
    (hQ : ∀ w', Going before planId record w' → w.disk.Renamed w'.disk (Function.update w.disk.names p none) → Q () w')
    (hX : ∀ e, X e w) : (unlink p).wp (LocalWorld.answers b) (Allowed planId record) Q X w := by
  refine (wp_call (LocalOp.unlink p)).2 ⟨h.allowed rfl hg, ?_, fun e w' ht => ?_⟩
  · rintro ⟨⟩ w' ht
    rcases ht.2 with ⟨-, -, hr⟩ | ⟨⟨e, he⟩, -⟩
    · exact hQ w' (h.step rfl hg ht) hr
    · cases he
  · rcases ht.2 with ⟨hok, -⟩ | ⟨-, hdisk⟩
    · cases hok
    · obtain rfl := unchanged rfl ht hdisk
      exact hX e

end changes

/-! ## The quarantine -/

section quarantine
variable {Q : Unit → LocalWorld b → Prop} {X : LocalExc → LocalWorld b → Prop}

/-- The source is set aside once the file is at its destination; what fails changes nothing. -/
theorem wp_moveToQuarantine (h : Going before planId record w)
    (hd : w.disk.names .destination = some (candidateInode record) ∧ Intact record w.disk)
    (hQ : ∀ i w', Going before planId record w' → w'.disk.names .quarantine = some i → Q () w') (hX : ∀ e, X e w) :
    (moveToQuarantine .source).wp (LocalWorld.answers b) (Allowed planId record) Q X w := by
  have aside : ∀ i w', Going before planId record w' → w.disk.Renamed w'.disk (w.disk.moved .source .quarantine i) → Q () w' := by
    intro i w' hw' hr
    exact hQ i w' hw' (by rw [hr.names, Disk.moved, Function.update_self])
  unfold moveToQuarantine
  refine (wp_bind _ _).2 (wp_exceptOS (wp_renameNoReplace h hd (fun i w' _ _ hw' hr => aside i w' hw' hr) fun e => ?_))
  refine ⟨fun errno _ => wp_ite (fun _ => hX _) fun _ => (wp_bind _ _).2 (wp_pathExists ?_), fun _ _ => hX _⟩
  refine wp_ite (fun _ => hX _) fun hfree => ?_
  have hnone : w.disk.names .quarantine = none := by simpa using hfree
  exact wp_rename h ⟨hd, hnone⟩ hnone (fun i w' _ hw' hr => aside i w' hw' hr) hX

/-- The quarantined file goes back to the source. -/
theorem wp_restoreQuarantine (h : Going before planId record w) {z : Inode} (hq : w.disk.names .quarantine = some z)
    (hne : z = candidateInode record → w.disk.names .destination ≠ some (candidateInode record))
    (hQ : ∀ w', Going before planId record w' → w'.disk.names .quarantine = none →
      w'.disk.names .destination = w.disk.names .destination → w'.disk.names .source = some z → Q () w')
    (hX : ∀ e w', Going before planId record w' → X e w') :
    (restoreQuarantineNoReplace .source).wp (LocalWorld.answers b) (Allowed planId record) Q X w := by
  unfold restoreQuarantineNoReplace
  refine (wp_bind _ _).2 (wp_pathExists (wp_ite (fun _ => ?_) fun hnone => ?_))
  · refine (wp_bind _ _).2 (wp_sameInode (wp_ite (fun hsame => ?_) fun _ => hX _ w h))
    obtain ⟨i, hqi, hsi⟩ := same_iff.1 hsame
    obtain rfl : z = i := Option.some.inj (hq.symm.trans hqi)
    refine wp_unlink h ⟨.source, nofun, hsi.trans hqi.symm⟩ (fun w' hw' hr => ?_) fun e => hX e w h
    refine hQ w' hw' ?_ ?_ ?_
    · rw [hr.names, Function.update_self]
    · simp [hr.names]
    · simp [hr.names, hsi]
  · have hs : w.disk.names .source = none := by simpa using hnone
    refine (wp_bind _ _).2 (wp_exceptOS (wp_renameNoReplace h trivial (fun i w' hqi _ hw' hr => ?_) fun e => ?_))
    · obtain rfl : z = i := Option.some.inj (hq.symm.trans hqi)
      refine hQ w' hw' ?_ ?_ ?_
      · simp [hr.names, Disk.moved]
      · simp [hr.names, Disk.moved]
      · rw [hr.names, Disk.moved, Function.update_self]
    refine ⟨fun errno _ => wp_ite (fun _ => hX _ w h) fun _ => (wp_bind _ _).2 ?_, fun _ _ => hX _ w h⟩
    refine wp_link h (fun hfile => hne (Option.some.inj (hq.symm.trans hfile))) (fun i w₁ hqi _ hw₁ hr₁ => ?_) fun e => hX e w h
    obtain rfl : z = i := Option.some.inj (hq.symm.trans hqi)
    have hq₁ : w₁.disk.names .quarantine = some z := by simp [hr₁.names, hq]
    have hs₁ : w₁.disk.names .source = some z := by rw [hr₁.names, Function.update_self]
    have hd₁ : w₁.disk.names .destination = w.disk.names .destination := by simp [hr₁.names]
    refine (wp_bind _ _).2 (wp_sameInode (wp_ite (fun _ => hX _ w₁ hw₁) fun _ => ?_))
    refine wp_unlink hw₁ ⟨.source, nofun, hs₁.trans hq₁.symm⟩ (fun w₂ hw₂ hr₂ => ?_) fun e => hX e w₁ hw₁
    refine hQ w₂ hw₂ ?_ ?_ ?_
    · rw [hr₂.names, Function.update_self]
    · simp [hr₂.names, hd₁]
    · simp [hr₂.names, hs₁]

end quarantine

/-! ## How a move ends -/

/-- The move goes on, or it is `moved` and the file is at its destination. -/
structure Ends (before : MovePath → Option Inode) (planId : String) (record : CandidateRecord) (r : MoveResult)
    (w : LocalWorld b) : Prop where
  going : Going before planId record w
  named : r.candidateId = record.candidateId
  final : r.state = .moved → Final record w.disk

theorem Going.ends (h : Going before planId record w) {state : MoveState} {errorCode : Option String} (hne : state ≠ .moved) :
    Ends before planId record (localResult record state errorCode) w :=
  ⟨h, rfl, fun hm => absurd hm hne⟩

theorem Going.fails (h : Going before planId record w) (errorCode : String) : Ends before planId record (failed record errorCode) w :=
  h.ends nofun

theorem Going.arrives (h : Going before planId record w) (hf : Final record w.disk) :
    Ends before planId record (localResult record .moved none) w :=
  ⟨h, rfl, fun _ => hf⟩

/-- The program ends a move that is under way. -/
abbrev Finishes (before : MovePath → Option Inode) (planId : String) (record : CandidateRecord) (p : LocalMove MoveResult)
    (w : LocalWorld b) : Prop :=
  p.wp (LocalWorld.answers b) (Allowed planId record) (Ends before planId record) (fun _ _ => True) w

/-- A changed file is put back where it was taken from. -/
theorem finishes_putBack (h : Going before planId record w) {z : Inode} (hq : w.disk.names .quarantine = some z)
    (hd : w.disk.names .destination ≠ some (candidateInode record)) :
    Finishes before planId record (do
      match ← exceptOS (restoreQuarantineNoReplace .source) with
      | .error _ => pure (failed record "reconcile_quarantine_conflict")
      | .ok () => pure (localResult record .stale (some "source_changed_during_reconcile"))) w := by
  refine (wp_bind _ _).2 (wp_exceptOS (wp_restoreQuarantine h hq (fun _ => hd) (fun w' hw' _ _ _ => ?_)
    fun e w' hw' => ⟨fun _ _ => hw'.fails _, fun _ _ => trivial⟩))
  exact hw'.ends MoveState.noConfusion

theorem finishes_quarantined (h : Going before planId record w) {z : Inode} (hq : w.disk.names .quarantine = some z) :
    Finishes before planId record (finishQuarantinedReconcile record) w := by
  unfold finishQuarantinedReconcile
  refine (wp_bind _ _).2 (wp_ifPresent ((wp_bind _ _).2 (wp_ifPresent ?_)))
  refine wp_ite (fun hquar => ?_) fun hquar => ?_
  · refine wp_ite (fun _ => h.fails _) fun hdest => ?_
    -- something else is quarantined, and the file is at its destination
    obtain ⟨hd, hintact⟩ := linked_iff.1 (show w.disk.linked record .destination = true by simpa using hdest)
    have hz : z ≠ candidateInode record := by
      rintro rfl
      have hlinked := linked_iff.2 ⟨hq, hintact⟩
      rw [show w.disk.linked record .quarantine = false by simpa using hquar] at hlinked
      cases hlinked
    refine (wp_bind _ _).2 (wp_exceptOS (wp_restoreQuarantine h hq (fun he => absurd he hz) (fun w' hw' hq' hd' hs' => ?_)
      fun e w' hw' => ⟨fun _ _ => hw'.fails _, fun _ _ => trivial⟩))
    refine hw'.arrives ⟨hd'.trans hd, ?_, by rw [hq']; exact (Option.some_ne_none _).symm⟩
    rw [hs']
    exact fun he => hz (Option.some.inj he)
  · obtain ⟨hqf, hintact⟩ := linked_iff.1 (show w.disk.linked record .quarantine = true by simpa using hquar)
    refine (wp_bind _ _).2 ?_
    unfold finishQuarantinedReconcile.sameQuarantined
    refine wp_ite (fun hdest => ?_) fun hdest => ?_
    · obtain ⟨hd, -⟩ := linked_iff.1 (show w.disk.linked record .destination = true from hdest)
      refine wp_sameInode (wp_ite (fun _ => ?_) fun hdiff => ?_)
      · refine (wp_bind _ _).2 (wp_exceptOS (wp_unlink h ⟨.destination, MovePath.noConfusion, hd.trans hqf.symm⟩ (fun w' hw' hr => ?_)
          fun e => ⟨fun _ _ => h.fails _, fun _ _ => trivial⟩))
        refine hw'.arrives ⟨?_, ?_, ?_⟩
        · simp [hr.names, hd]
        · have hs : w'.disk.names .source = w.disk.names .source := by simp [hr.names]
          rw [hs]
          exact fun hs => h.safe.kept.apart hqf hs hd
        · rw [hr.names, Function.update_self]
          exact (Option.some_ne_none _).symm
      · exact absurd (same_iff.2 ⟨_, hqf, hd⟩) hdiff
    · refine wp_ite (fun hfalse => absurd hfalse Bool.false_ne_true) fun _ => finishes_putBack h hq fun hd => ?_
      exact hdest (linked_iff.2 ⟨hd, hintact⟩)

theorem finishes_removeSource (h : Going before planId record w)
    (hd : w.disk.names .destination = some (candidateInode record) ∧ Intact record w.disk) (errorCode : String) :
    Finishes before planId record (removeSource record errorCode) w := by
  unfold removeSource
  refine (wp_bind _ _).2 (wp_exceptOS (wp_moveToQuarantine h hd (fun i w' hw' hq => ?_) fun e => ⟨fun _ _ => h.fails _, fun _ _ => trivial⟩))
  exact finishes_quarantined hw' hq

/-! ## Moving -/

/-- After the link both names are the file's. -/
theorem finishes_checkLinked (h : Going before planId record w) (hs : w.disk.names .source = some (candidateInode record))
    (hd : w.disk.names .destination = some (candidateInode record)) (hintact : Intact record w.disk) :
    Finishes before planId record (checkLinked record) w := by
  have hdest : w.disk.linked record .destination = true := linked_iff.2 ⟨hd, hintact⟩
  have hsrc : w.disk.linked record .source = true := linked_iff.2 ⟨hs, hintact⟩
  unfold checkLinked
  refine (wp_bind _ _).2 (wp_ifPresent ((wp_bind _ _).2 (wp_ifPresent ?_)))
  refine wp_ite (fun hne => ?_) fun _ => (wp_bind _ _).2 (wp_pathExists (wp_ite (fun hne => ?_) fun _ => ?_))
  · rw [show w.disk.passes _ .destination = true from hdest] at hne
    cases hne
  · rw [hs] at hne
    cases hne
  · refine wp_ite (fun hne => ?_) fun _ => finishes_removeSource h ⟨hd, hintact⟩ _
    rw [show w.disk.passes _ .source = true from hsrc] at hne
    cases hne

theorem finishes_applyHardlinkFallback (h : Going before planId record w)
    (hs : w.disk.names .source = some (candidateInode record)) (hintact : Intact record w.disk) :
    Finishes before planId record (applyHardlinkFallback record) w := by
  unfold applyHardlinkFallback
  refine (wp_bind _ _).2 (wp_pathExists (wp_ite (fun _ => h.fails _) fun hfree => ?_))
  have hq : w.disk.names .quarantine = none := by simpa using hfree
  refine (wp_bind _ _).2 (wp_exceptOS (wp_link h hq (fun i w' hi _ hw' hr => ?_) fun e => ⟨fun errno _ => ?_, fun _ _ => trivial⟩))
  · obtain rfl : candidateInode record = i := Option.some.inj (hs.symm.trans hi)
    refine finishes_checkLinked hw' ?_ ?_ (hr.intact.2 hintact)
    · simp [hr.names, hs]
    · simp [hr.names]
  · cases errno with
    | exist => exact h.ends nofun
    | _ => exact h.fails _

/-- After the rename nothing stands at the source. -/
theorem finishes_checkRenamed (h : Going before planId record w) (hs : w.disk.names .source = none)
    (hq : w.disk.names .quarantine ≠ some (candidateInode record)) :
    Finishes before planId record (checkRenamed record) w := by
  unfold checkRenamed
  refine (wp_bind _ _).2 (wp_ifPresent (wp_ite (fun hdest => ?_) fun hdest => ?_))
  · exact h.arrives ⟨(linked_iff.1 hdest).1, by rw [hs]; exact nofun, hq⟩
  · refine (wp_bind _ _).2 (wp_exceptOS (wp_renameNoReplace h (fun hd => hdest (linked_iff.2 hd)) (fun i w' _ _ hw' _ => ?_)
      fun e => ⟨fun _ _ => h.fails _, fun _ _ => trivial⟩))
    exact hw'.ends nofun

theorem finishes_renameIn (h : Going before planId record w) (hs : w.disk.names .source = some (candidateInode record))
    (hintact : Intact record w.disk) (hq : w.disk.names .quarantine ≠ some (candidateInode record)) :
    Finishes before planId record (renameIn record) w := by
  have fallback : ∀ errno : Errno, errno ≠ .exist → Finishes before planId record
      (if errno.renameUnsupported then applyHardlinkFallback record
        else pure (failed record (if errno = .xdev then "cross_device_move" else "move_failed"))) w :=
    fun errno _ => wp_ite (fun _ => finishes_applyHardlinkFallback h hs hintact) fun _ => h.fails _
  unfold renameIn
  refine (wp_bind _ _).2 (wp_exceptOS (wp_renameNoReplace h trivial (fun i w' _ _ hw' hr => ?_)
    fun e => ⟨fun errno _ => ?_, fun _ _ => trivial⟩))
  · refine finishes_checkRenamed hw' ?_ ?_
    · simp [hr.names, Disk.moved]
    · simpa [hr.names, Disk.moved] using hq
  · cases errno with
    | exist => exact h.ends MoveState.noConfusion
    | noent => exact fallback .noent Errno.noConfusion
    | inval => exact fallback .inval Errno.noConfusion
    | nosys => exact fallback .nosys Errno.noConfusion
    | opnotsupp => exact fallback .opnotsupp Errno.noConfusion
    | perm => exact fallback .perm Errno.noConfusion
    | xdev => exact fallback .xdev Errno.noConfusion
    | other => exact fallback .other Errno.noConfusion

/-- A fingerprint that agrees is the file's, as it was. -/
theorem file_of_fingerprint {i : Inode} (h : w.disk.stat i = record.fingerprint) :
    i = candidateInode record ∧ Intact record w.disk := by
  have hi : i = candidateInode record := by
    rw [candidateInode, ← h]
    rfl
  refine ⟨hi, ?_⟩
  unfold Intact
  rw [← hi, ← h]
  exact ⟨rfl, rfl⟩

theorem finishes_applyOne (h : Going before planId record w) (hq : w.disk.names .quarantine ≠ some (candidateInode record)) :
    Finishes before planId record (applyOne record) w := by
  unfold applyOne
  refine (wp_bind _ _).2 (wp_check fun _ => wp_ite (fun _ => h.ends nofun) fun _ => ?_)
  refine (wp_bind _ _).2 (wp_check fun _ => wp_ite (fun _ => h.ends nofun) fun _ => ?_)
  refine (wp_bind _ _).2 (wp_check fun _ => wp_ite (fun _ => h.ends nofun) fun _ => ?_)
  refine (wp_bind _ _).2 (wp_check fun _ => wp_ite (fun _ => h.ends nofun) fun _ => ?_)
  refine (wp_bind _ _).2 (wp_check fun _ => wp_ite (fun _ => h.ends nofun) fun _ => ?_)
  refine (wp_bind _ _).2 (wp_check fun _ => wp_ite (fun _ => h.ends nofun) fun _ => ?_)
  refine (wp_bind _ _).2 (wp_fingerprint (fun i hs => wp_ite (fun _ => h.ends nofun) fun hsame => ?_) fun _ => trivial)
  obtain ⟨rfl, hintact⟩ := file_of_fingerprint (not_not.1 hsame)
  refine (wp_bind _ _).2 (wp_pathExists (wp_ite (fun _ => h.ends nofun) fun _ => ?_))
  refine (wp_bind _ _).2 (wp_check fun _ => wp_ite (fun _ => h.ends nofun) fun _ => ?_)
  refine (wp_bind _ _).2 (wp_check fun _ => wp_ite (fun _ => h.ends nofun) fun _ => ?_)
  exact finishes_renameIn h hs hintact hq

/-! ## Reconciling -/

/-- What `lookAround` answers. -/
def Disk.shape (record : CandidateRecord) (d : Disk) : Shape :=
  ⟨d.passes (fun st => st = record.fingerprint) .source, d.linked record .source, d.linked record .destination,
    (d.names .source).isSome, (d.names .destination).isSome⟩

theorem wp_lookAround {Q : Shape → LocalWorld b → Prop} (hQ : Q (w.disk.shape record) w) :
    (lookAround record).wp (LocalWorld.answers b) (Allowed planId record) Q (fun _ _ => True) w := by
  unfold lookAround
  refine (wp_bind _ _).2 (wp_ifPresent ((wp_bind _ _).2 (wp_ifPresent ((wp_bind _ _).2 (wp_ifPresent ?_)))))
  exact (wp_bind _ _).2 (wp_pathExists ((wp_bind _ _).2 (wp_pathExists hQ)))

theorem finishes_reconcileShape (h : Going before planId record w) (hq : w.disk.names .quarantine = none) (state : MoveJournalState) :
    Finishes before planId record (reconcileShape record state (w.disk.shape record)) w := by
  have hquar : w.disk.names .quarantine ≠ some (candidateInode record) := by
    rw [hq]
    exact nofun
  unfold reconcileShape
  refine wp_ite (fun harrived => ?_) fun _ => ?_
  · simp only [Disk.shape, Bool.and_eq_true, Bool.or_eq_true, Bool.not_eq_true'] at harrived
    obtain ⟨hdest, hsrc⟩ := harrived
    obtain ⟨hd, hintact⟩ := linked_iff.1 hdest
    refine h.arrives ⟨hd, fun hs => ?_, hquar⟩
    rcases hsrc with hnone | hother
    · rw [hs] at hnone
      cases hnone
    · rw [linked_iff.2 ⟨hs, hintact⟩] at hother
      cases hother
  refine wp_ite (fun _ => finishes_applyOne h hquar) fun _ => ?_
  refine wp_ite (fun hback => wp_ite (fun _ => h.fails _) fun _ => ?_) fun _ => ?_
  · simp only [Disk.shape, Bool.and_eq_true, Bool.not_eq_true'] at hback
    have hnot : ¬(w.disk.names .destination = some (candidateInode record) ∧ Intact record w.disk) := by
      intro hd
      rw [linked_iff.2 hd] at hback
      cases hback.2
    unfold renameBack
    refine (wp_bind _ _).2 (wp_exceptOS (wp_renameNoReplace h hnot (fun i w' _ _ hw' _ => hw'.ends nofun)
      fun e => ⟨fun errno _ => ?_, fun _ _ => trivial⟩))
    cases errno with
    | exist => exact h.fails _
    | _ => exact h.fails _
  refine wp_ite (fun _ => h.ends nofun) fun _ => wp_ite (fun _ => h.ends nofun) fun _ => ?_
  exact wp_ite (fun _ => h.fails _) fun _ => h.ends nofun

theorem finishes_reconcileFilesystem (h : Going before planId record w) (state : MoveJournalState) :
    Finishes before planId record (reconcileFilesystem record state) w := by
  unfold reconcileFilesystem
  refine (wp_bind _ _).2 (wp_check fun _ => wp_ite (fun _ => h.ends nofun) fun _ => ?_)
  refine (wp_bind _ _).2 (wp_check fun _ => wp_ite (fun _ => h.ends nofun) fun _ => ?_)
  refine (wp_bind _ _).2 (wp_check fun _ => wp_ite (fun _ => h.ends nofun) fun _ => ?_)
  refine (wp_bind _ _).2 (wp_check fun _ => wp_ite (fun _ => h.ends nofun) fun _ => ?_)
  unfold reconcileFiles
  refine (wp_bind _ _).2 (wp_lookAround ((wp_bind _ _).2 (wp_pathExists (wp_ite (fun hsome => ?_) fun hnone => ?_))))
  · obtain ⟨z, hz⟩ := Option.isSome_iff_exists.1 hsome
    exact finishes_quarantined h hz
  · have hq : w.disk.names .quarantine = none := by simpa using hnone
    refine (wp_bind _ _).2 ?_
    unfold twoLinks
    refine wp_ite (fun hboth => wp_sameInode (wp_ite (fun _ => ?_) fun _ => finishes_reconcileShape h hq state)) fun _ => ?_
    · simp only [Disk.shape, Bool.and_eq_true] at hboth
      exact finishes_removeSource h (linked_iff.1 hboth.2) _
    · exact wp_ite (fun hfalse => nomatch hfalse) fun _ => finishes_reconcileShape h hq state

/-! ## The journal and the result -/

theorem wp_saveJournal (h : Safe before planId record w) {state : MoveJournalState} {Q : Unit → LocalWorld b → Prop}
    (hstate : state = .reconciled → (b.moveResult w.store (planId, record.candidateId)).isSome = true)
    (hQ : ∀ w', Safe before planId record w' → w'.disk = w.disk →
      b.moveResult w'.store (planId, record.candidateId) = b.moveResult w.store (planId, record.candidateId) →
      b.journal w'.store (planId, record.candidateId) ≠ none → Q () w') :
    (saveJournal planId record.candidateId state).wp (LocalWorld.answers b) (Allowed planId record) Q (fun _ _ => True) w := by
  unfold saveJournal
  refine (wp_bind _ _).2 (wp_ask rfl fun time => ?_)
  have hg : Allowed planId record w (.saveMoveJournal ⟨planId, record.candidateId, state, time⟩) := ⟨rfl, hstate⟩
  refine (wp_call (LocalOp.saveMoveJournal _)).2 ⟨hg, ?_, fun _ _ _ => trivial⟩
  rintro ⟨⟩ w' ht
  have hans : Written w.store w'.store _ _ := ht.1
  rcases hans with ⟨-, hok⟩ | ⟨⟨e, he⟩, -⟩
  · have hj := Backend.stepped hok
    have hjournal := hj.journal (planId, record.candidateId)
    rw [if_pos rfl] at hjournal
    refine hQ w' (h.step hg ht) ht.2 (hj.result _) ?_
    rw [hjournal]
    exact nofun
  · cases he

theorem Going.journalled (h : Going before planId record w) (hs : Safe before planId record w')
    (hresult : b.moveResult w'.store (planId, record.candidateId) = b.moveResult w.store (planId, record.candidateId))
    (hjournal : b.journal w'.store (planId, record.candidateId) ≠ none) : Going before planId record w' :=
  ⟨hs, hresult.trans h.result, hjournal⟩

/-- The move has ended, and it is `moved` only with the file at its destination. -/
abbrev Ended (before : MovePath → Option Inode) (planId : String) (record : CandidateRecord) (r : MoveResult)
    (w : LocalWorld b) : Prop :=
  Safe before planId record w ∧ (r.state = .moved → Final record w.disk)

theorem Ends.ended {r : MoveResult} (h : Ends before planId record r w) : Ended before planId record r w :=
  ⟨h.going.safe, h.final⟩

theorem wp_persist {r : MoveResult} (h : Ends before planId record r w) {state : MoveJournalState} :
    (persistMoveCompletion planId record r state).wp (LocalWorld.answers b) (Allowed planId record)
      (fun _ w' => Ended before planId record r w') (fun _ _ => True) w := by
  have persist : ∀ w : LocalWorld b, Ends before planId record r w →
      (persistMoveCompletion.persist planId record r).wp (LocalWorld.answers b) (Allowed planId record)
        (fun _ w' => Ended before planId record r w') (fun _ _ => True) w := by
    intro w h
    unfold persistMoveCompletion.persist
    have hg : Allowed planId record w (.saveMoveResult planId r) := ⟨rfl, h.named, h.going.result, h.final⟩
    refine (wp_bind _ _).2 ((wp_call (LocalOp.saveMoveResult _ _)).2 ⟨hg, ?_, fun _ _ _ => trivial⟩)
    rintro ⟨⟩ w₁ ht
    have hs₁ := h.going.safe.step hg ht
    have hdisk₁ : w₁.disk = w.disk := ht.2
    have hans : Written w.store w₁.store _ _ := ht.1
    rcases hans with ⟨-, hok⟩ | ⟨⟨e, he⟩, -⟩
    · have hr := (Backend.recorded hok).result (planId, record.candidateId)
      rw [h.named, if_pos rfl] at hr
      refine wp_saveJournal hs₁ (fun _ => by rw [hr]; rfl) fun w₂ hs₂ hdisk₂ _ _ => ⟨hs₂, fun hm => ?_⟩
      rw [hdisk₂, hdisk₁]
      exact h.final hm
    · cases he
  unfold persistMoveCompletion
  refine wp_ite (fun hm => (wp_bind _ _).2 ?_) fun _ => persist w h
  have later : ∀ {w'}, Safe before planId record w' → w'.disk = w.disk →
      b.moveResult w'.store (planId, record.candidateId) = b.moveResult w.store (planId, record.candidateId) →
      b.journal w'.store (planId, record.candidateId) ≠ none → Ends before planId record r w' :=
    fun hs hdisk hresult hjournal => ⟨h.going.journalled hs hresult hjournal, h.named, hdisk ▸ h.final⟩
  cases state with
  | prepared =>
    refine (wp_bind _ _).2 (wp_saveJournal h.going.safe nofun fun w₁ hs₁ hdisk₁ hresult₁ hjournal₁ => ?_)
    refine wp_saveJournal hs₁ nofun fun w₂ hs₂ hdisk₂ hresult₂ hjournal₂ => ?_
    exact persist w₂ (later hs₂ (hdisk₂.trans hdisk₁) (hresult₂.trans hresult₁) hjournal₂)
  | linked =>
    refine wp_saveJournal h.going.safe nofun fun w₁ hs₁ hdisk₁ hresult₁ hjournal₁ => ?_
    exact persist w₁ (later hs₁ hdisk₁ hresult₁ hjournal₁)
  | sourceRemoved | reconciled => exact persist w h

theorem wp_conclude {r : MoveResult} (h : Ends before planId record r w) {state : MoveJournalState} {undecided : String → Bool} :
    (conclude planId record r state undecided).wp (LocalWorld.answers b) (Allowed planId record) (Ended before planId record)
      (fun _ _ => True) w := by
  have completed : (conclude.completed planId record r state).wp (LocalWorld.answers b) (Allowed planId record)
      (Ended before planId record) (fun _ _ => True) w :=
    (wp_bind _ _).2 (wp_mono (wp_persist h) (fun _ _ hended => hended) fun _ _ _ => trivial)
  unfold conclude
  refine wp_ite (fun _ => (wp_bind _ _).2 (wp_check fun _ => wp_ite (fun _ => h.ended) fun _ => ?_)) fun _ => ?_
  · exact wp_ite (fun _ => h.ended) fun _ => completed
  · exact wp_ite (fun _ => h.ended) fun _ => completed

/-- A move or a reconciliation, from its start. -/
abbrev Concludes (before : MovePath → Option Inode) (planId : String) (record : CandidateRecord) (p : LocalMove MoveResult)
    (w : LocalWorld b) : Prop :=
  p.wp (LocalWorld.answers b) (Allowed planId record) (Ended before planId record) (fun _ _ => True) w

theorem Safe.fails (h : Safe before planId record w) (errorCode : String) : Ended before planId record (failed record errorCode) w :=
  ⟨h, nofun⟩

/-- The stored result of the candidate, as a look finds it. -/
theorem wp_getMoveResult {Q : Option MoveResult → LocalWorld b → Prop}
    (hQ : Q (b.moveResult w.store (planId, record.candidateId)) w) :
    (LocalOp.ask (.getMoveResult planId record.candidateId)).wp (LocalWorld.answers b) (Allowed planId record) Q
      (fun _ _ => True) w := by
  refine wp_look rfl (fun a ht => ?_) fun _ _ => trivial
  rw [Backend.getMoveResult_ok (ht.1.2 _ rfl)]
  exact hQ

theorem wp_getMoveJournal {Q : Option MoveJournalRecord → LocalWorld b → Prop}
    (hQ : Q (b.journal w.store (planId, record.candidateId)) w) :
    (LocalOp.ask (.getMoveJournal planId record.candidateId)).wp (LocalWorld.answers b) (Allowed planId record) Q
      (fun _ _ => True) w := by
  refine wp_look rfl (fun a ht => ?_) fun _ _ => trivial
  rw [Backend.getMoveJournal_ok (ht.1.2 _ rfl)]
  exact hQ

theorem concludes_reconcileCandidate (h : Safe before planId record w) {journal : MoveJournalRecord}
    (hjournal : b.journal w.store (planId, record.candidateId) = some journal) :
    Concludes before planId record (reconcileCandidate planId record journal) w := by
  unfold reconcileCandidate
  refine (wp_bind _ _).2 (wp_check fun _ => wp_ite (fun _ => h.fails _) fun _ => (wp_bind _ _).2 (wp_getMoveResult ?_))
  cases hresult : b.moveResult w.store (planId, record.candidateId) with
  | some cached =>
    refine (wp_bind _ _).2 (wp_saveJournal h (fun _ => by rw [hresult]; rfl) fun w' hs hdisk _ _ => ⟨hs, fun hm => ?_⟩)
    rw [hdisk]
    exact h.moved cached hresult hm
  | none =>
    have hgoing : Going before planId record w := ⟨h, hresult, by rw [hjournal]; exact nofun⟩
    refine (wp_bind _ _).2 (wp_mono (finishes_reconcileFilesystem hgoing journal.state) (fun r w' hends => ?_) fun _ _ _ => trivial)
    exact wp_conclude hends

theorem concludes_startMove (h : Safe before planId record w)
    (hresult : b.moveResult w.store (planId, record.candidateId) = none)
    (hq : w.disk.names .quarantine ≠ some (candidateInode record)) :
    Concludes before planId record (startMove planId record) w := by
  unfold startMove
  refine (wp_bind _ _).2 (wp_saveJournal h nofun fun w₁ hs₁ hdisk₁ hresult₁ hjournal₁ => (wp_bind _ _).2 ?_)
  have hgoing : Going before planId record w₁ := ⟨hs₁, hresult₁.trans hresult, hjournal₁⟩
  refine wp_mono (finishes_applyOne hgoing (by rw [hdisk₁]; exact hq)) (fun r w' hends => ?_) fun _ _ _ => trivial
  exact wp_conclude hends

theorem concludes_runLocked (h : Safe before planId record w) : Concludes before planId record (runLocked planId record) w := by
  unfold runLocked
  refine (wp_bind _ _).2 (wp_check fun _ => wp_ite (fun _ => h.fails _) fun _ => (wp_bind _ _).2 (wp_getMoveResult ?_))
  cases hresult : b.moveResult w.store (planId, record.candidateId) with
  | some cached => exact ⟨h, h.moved cached hresult⟩
  | none =>
    refine (wp_bind _ _).2 (wp_getMoveJournal ?_)
    cases hjournal : b.journal w.store (planId, record.candidateId) with
    | none => exact concludes_startMove h hresult (h.fresh hjournal)
    | some journal =>
      refine wp_ite (fun _ => concludes_reconcileCandidate h hjournal) fun hdone => ?_
      have hsome := h.reconciled journal hjournal (not_not.1 hdone)
      rw [hresult] at hsome
      cases hsome

theorem concludes_runMove (h : Safe before planId record w) : Concludes before planId record (runMove planId record) w := by
  unfold runMove
  refine (wp_bind _ _).2 (wp_check fun _ => wp_ite (fun _ => h.fails _) fun _ => (wp_bind _ _).2 ((wp_attempt _).2 ?_))
  refine wp_mono (wp_inv (fun _ _ _ _ hs hg ht => hs.step hg ht) (concludes_runLocked h) h) (fun r w' hr => hr.1) fun e w' he => ?_
  exact he.2.fails _

theorem wp_reconcileLocked (h : Safe before planId record w) :
    (reconcileLocked planId record).wp (LocalWorld.answers b) (Allowed planId record)
      (fun r w' => ∀ result, r = some result → Ended before planId record result w') (fun _ _ => True) w := by
  unfold reconcileLocked
  refine (wp_bind _ _).2 (wp_getMoveJournal ?_)
  cases hjournal : b.journal w.store (planId, record.candidateId) with
  | none => exact nofun
  | some journal =>
    refine wp_ite (fun _ => nofun) fun _ => (wp_bind _ _).2 ?_
    refine wp_mono (concludes_reconcileCandidate h hjournal) (fun r w' hr => ?_) fun _ _ _ => trivial
    rintro _ ⟨⟩
    exact hr

/-! ## Every run -/

/-- What moves and reconciliations of the candidate reach, each of which may stop at any action. -/
inductive LocalReach (planId : String) (record : CandidateRecord) (w₀ : LocalWorld b) : LocalWorld b → Prop
  | start : LocalReach planId record w₀ w₀
  | move {w w' : LocalWorld b} : LocalReach planId record w₀ w → Stops (LocalWorld.answers b) w (runMove planId record) w' →
      LocalReach planId record w₀ w'
  | reconcile {w w' : LocalWorld b} : LocalReach planId record w₀ w → Stops (LocalWorld.answers b) w (reconcileLocked planId record) w' →
      LocalReach planId record w₀ w'

section runs
variable {w₀ : LocalWorld b}

theorem safe_start (hjournal : b.journal w₀.store (planId, record.candidateId) = none)
    (hresult : b.moveResult w₀.store (planId, record.candidateId) = none)
    (hq : w₀.disk.names .quarantine ≠ some (candidateInode record)) : Safe w₀.disk.names planId record w₀ where
  kept := {
    reachable := id
    unreplaced := fun i hi => .inl ⟨hi, fun hne hnone => absurd hnone hne⟩
    apart := fun hquar => absurd hquar hq }
  fresh _ := hq
  reconciled j hj := by
    rw [hjournal] at hj
    cases hj
  moved r hr := by
    rw [hresult] at hr
    cases hr

theorem safe_reach (h₀ : Safe before planId record w₀) (h : LocalReach planId record w₀ w) : Safe before planId record w := by
  have keeps : ∀ (w : LocalWorld b) op r w', Safe before planId record w → Allowed planId record w op →
      LocalWorld.answers b w op r w' → Safe before planId record w' := fun _ _ _ _ hs hg ht => hs.step hg ht
  induction h with
  | start => exact h₀
  | move _ hstop ih => exact wp_stops keeps (concludes_runMove ih) ih hstop
  | reconcile _ hstop ih => exact wp_stops keeps (wp_reconcileLocked ih) ih hstop

/-- Wherever moves and reconciliations stop, the file that was at one of the three paths is at
one of them; what stood at the destination stands there, or was put at the source where nothing
was; and a run that ends `moved` has the file at its destination alone. -/
theorem move_loses_nothing (hjournal : b.journal w₀.store (planId, record.candidateId) = none)
    (hresult : b.moveResult w₀.store (planId, record.candidateId) = none)
    (hq : w₀.disk.names .quarantine ≠ some (candidateInode record)) (h : LocalReach planId record w₀ w) :
    ((∃ p, w₀.disk.names p = some (candidateInode record)) → ∃ p, w.disk.names p = some (candidateInode record)) ∧
    (∀ i, w₀.disk.names .destination = some i → w.disk.names .destination = some i ∨
      (w₀.disk.names .source = none ∧ w.disk.names .destination = none ∧ w.disk.names .source = some i)) ∧
    (∀ r w', Runs (LocalWorld.answers b) w (runMove planId record) (.ok r) w' → r.state = .moved → Final record w'.disk) ∧
    ∀ r w', Runs (LocalWorld.answers b) w (reconcileLocked planId record) (.ok (some r)) w' → r.state = .moved →
      Final record w'.disk := by
  have hs := safe_reach (safe_start hjournal hresult hq) h
  refine ⟨hs.kept.reachable, fun i hi => (hs.kept.unreplaced i hi).imp (·.1) id, fun r w' hr => ?_, fun r w' hr => ?_⟩
  · exact (wp_runs_ok (concludes_runMove hs) hr).2
  · exact (wp_runs_ok (wp_reconcileLocked hs) hr r rfl).2

end runs

/-! ## Through the quarantine -/

namespace Example

def candidate : CandidateRecord := ⟨"c", "ABC-001", "/s/a.mp4", "/s", "/lib/x/a.mp4", ⟨1, 2, 3, 4, 5⟩, none⟩

def plan : PlanRecord := ⟨⟨"p", "r", 0, 100, [("c", "ABC-001")], ""⟩, [candidate], 1, by decide⟩

/-- The file is at its source. -/
def start : LocalWorld .memory :=
  ⟨Memory.empty.savePlan plan, ⟨fun p => if p = .source then some (1, 2) else none, fun _ => 3, fun _ => 4, fun _ => 5⟩⟩

def wrote (s : Memory) : Except RepositoryError Memory → Except LocalExc Unit × Memory
  | .ok s' => (.ok (), s')
  | .error _ => (.error (.value ""), s)

/-- A name that is given or taken where that can be done. -/
def change (w : LocalWorld .memory) (possible : Bool) (names : MovePath → Option Inode) : Except LocalExc Unit × LocalWorld .memory :=
  if possible then (.ok (), { w with disk := { w.disk with names } }) else (.error (.os .noent), w)

/-- A file system without `RENAME_NOREPLACE`. -/
def answer (w : LocalWorld .memory) : (op : LocalOp) → Except LocalExc op.Res × LocalWorld .memory
  | .now => (.ok (7 : Time), w)
  | .check (.hasSymlinkComponent _) => (.ok false, w)
  | .check _ => (.ok true, w)
  | .pathExists p => (.ok (w.disk.names p).isSome, w)
  | .isSymlink _ => (.ok false, w)
  | .stat p => (match w.disk.names p with
    | some i => .ok (w.disk.stat i)
    | none => .error (.os .noent), w)
  | .renameNoReplace .. => (.error (.os .inval), w)
  | .rename p q =>
    match w.disk.names p with
    | some i => change w true (if w.disk.names q = some i then w.disk.names else w.disk.moved p q i)
    | none => change w false w.disk.names
  | .link p q =>
    match w.disk.names p with
    | some i => change w (w.disk.names q).isNone (Function.update w.disk.names q (some i))
    | none => change w false w.disk.names
  | .unlink p => change w (w.disk.names p).isSome (Function.update w.disk.names p none)
  | .getMoveResult planId candidateId => (.ok (Memory.getMoveResult planId candidateId w.store), w)
  | .getMoveJournal planId candidateId => (.ok (Memory.getMoveJournal planId candidateId w.store), w)
  | .saveMoveResult planId result =>
    let (r, s) := wrote w.store (Memory.saveMoveResult planId result w.store)
    (r, { w with store := s })
  | .saveMoveJournal j =>
    let (r, s) := wrote w.store (Memory.saveMoveJournal j w.store)
    (r, { w with store := s })

theorem wrote_written {s : Memory} (write : Except RepositoryError Memory) :
    Written (b := .memory) s (wrote s write).2 write (wrote s write).1 := by
  cases write with
  | ok s' => exact .inl ⟨rfl, rfl⟩
  | error e => exact .inr ⟨⟨_, rfl⟩, .inl rfl⟩

theorem answers_answer (w : LocalWorld .memory) (op : LocalOp) :
    LocalWorld.answers .memory w op (answer w op).1 (answer w op).2 := by
  cases op with
  | check c => cases c <;> exact ⟨rfl, rfl⟩
  | pathExists | isSymlink | stat => exact ⟨rfl, rfl, rfl⟩
  | renameNoReplace => exact ⟨rfl, .inr ⟨⟨_, rfl⟩, rfl⟩⟩
  | rename p q =>
    simp only [answer]
    cases hp : w.disk.names p with
    | none => exact ⟨rfl, .inr ⟨⟨_, rfl⟩, rfl⟩⟩
    | some i => exact ⟨rfl, .inl ⟨rfl, i, hp, rfl, rfl, rfl⟩⟩
  | link p q =>
    simp only [answer]
    cases hp : w.disk.names p with
    | none => exact ⟨rfl, .inr ⟨⟨_, rfl⟩, rfl⟩⟩
    | some i =>
      cases hq : w.disk.names q with
      | none => exact ⟨rfl, .inl ⟨rfl, i, hp, hq, rfl, rfl, rfl⟩⟩
      | some j => exact ⟨rfl, .inr ⟨⟨_, rfl⟩, rfl⟩⟩
  | unlink p =>
    simp only [answer]
    cases hp : w.disk.names p with
    | none => exact ⟨rfl, .inr ⟨⟨_, rfl⟩, rfl⟩⟩
    | some i => exact ⟨rfl, .inl ⟨rfl, by rw [hp]; rfl, rfl, rfl, rfl⟩⟩
  | getMoveResult | getMoveJournal =>
    refine ⟨⟨rfl, ?_⟩, rfl⟩
    rintro _ ⟨⟩
    rfl
  | saveMoveResult | saveMoveJournal => exact ⟨wrote_written _, rfl⟩
  | _ => exact ⟨rfl, rfl⟩

/-- The move, to its end. -/
def moved : Except LocalExc MoveResult × LocalWorld .memory := exec answer start (runMove "p" candidate)

end Example

theorem move_loses_nothing_linked : Example.moved.1 = .ok (localResult Example.candidate .moved none) ∧
    Final Example.candidate Example.moved.2.disk := by
  have hok : Example.moved.1 = .ok (localResult Example.candidate .moved none) := by decide
  have hruns := exec_runs Example.answers_answer Example.start (runMove "p" Example.candidate)
  rw [show (exec Example.answer Example.start (runMove "p" Example.candidate)).1 = _ from hok] at hruns
  exact ⟨hok, (move_loses_nothing rfl rfl (by decide) .start).2.2.1 _ _ hruns rfl⟩

end EmbyxManager.FillActor.Local
