import EmbyxManager.Monitor.Claims
import EmbyxManager.Monitor.Replaced
/-!
# Which download replaces a copy

A replacement re-opens a row and leaves its attempts alone, and the tracker goes by the
row's state. So an attempt that was live before the replacement began brings the old
download back in the place of the copy it was to replace.

Where a replacement begins only on a row nobody downloads for, and a poll takes a download
only after its magnet was handed over, the copy gives way to a new download alone.
-/

namespace EmbyxManager
open Atom Prog AcquisitionRepository Archive

/-! ## What a replacement is about -/

/-- The replaced copy is deleted, or a folder filed. -/
def Op.givesWay : Op → Bool
  | .ask (.deleteFiles _) | .ask (.moveIntoLibrary ..) => true
  | _ => false

def Op.deletes : Op → Bool
  | .ask (.deleteFiles _) => true
  | _ => false

/-- What the attempt's row said it replaces when it was last read since the claim. -/
def replacingFor (k : AttemptKey) : List Event → List String
  | [] => []
  | ⟨.sql (.getAcquisition avid), .ok row⟩ :: h =>
    if avid = k.1 then (row.map (·.replacePaths)).getD [] else replacingFor k h
  | ⟨.sql (.casAttempt avid no .finished .archiving _ _), .ok true⟩ :: h =>
    if (avid, no) = k then [] else replacingFor k h
  | _ :: h => replacingFor k h

/-- A poll deletes and files while it holds a claim, and deletes only for a replacement. -/
def OnBehalf (h : List Event) (op : Op) : Prop :=
  op.givesWay = true → ∃ k, holds h k = true ∧ (op.deletes = true → replacingFor k h ≠ [])

theorem onBehalf_aside {h : List Event} {op : Op} (hop : Aside op) : OnBehalf h op := by
  cases op with
  | ask q =>
    cases q with
    | deleteFiles | moveIntoLibrary => cases hop
    | _ => exact fun hg => by cases hg
  | _ => exact fun hg => by cases hg

theorem replacingFor_asks {k : AttemptKey} {op : Op} {r : Except Exn op.Res} {h : List Event} (hop : Asks op) :
    replacingFor k (⟨op, r⟩ :: h) = replacingFor k h := by
  cases op with
  | ask q => rfl
  | _ => cases hop

section Within
variable {K : Policy} {k : AttemptKey} {replacing : List String} {α : Type} {p : M α}

/-- What `file` knows once it has read the row. -/
def Knows (k : AttemptKey) (replacing : List String) (h : List Event) : Prop :=
  holds h k = true ∧ replacingFor k h = replacing

theorem knows_keeps {C : Op → Prop} (hp : Uses C p) (hC : ∀ op, C op → Asks op ∧ (op.deletes = true → replacing ≠ [])) :
    p.Keeps (recorded K) OnBehalf (Knows k replacing) fun _ => Knows k replacing := by
  refine keeps_of_uses hp (fun h op hop hk _ => ⟨k, hk.1, fun hd => ?_⟩) ?_
  · rw [hk.2]
    exact (hC op hop).2 hd
  · rintro h op r _ hop ⟨hh, hr⟩ ⟨-, rfl⟩
    exact ⟨holds_mild (hC op hop).1.still.1 hh, (replacingFor_asks (hC op hop).1).trans hr⟩

theorem uses_spares_inspectFolder (arch : Archiver) (folder : Folder) (expected : Avid) :
    Uses (fun op => Asks op ∧ op.deletes = false) (inspectFolder arch folder expected) := by
  unfold inspectFolder selectVideos
  refine uses_bind (uses_attempt (uses_bind (uses_ok ⟨rfl, rfl⟩) fun dir => uses_ite ?_ trivial)) fun r => ?_
  · refine uses_bind (uses_ok ⟨rfl, rfl⟩) fun videos => uses_bind (uses_forEach fun v _ => ?_) fun _ => trivial
    exact uses_discard (uses_attempt (uses_ok ⟨rfl, rfl⟩))
  · cases r with
    | ok selection => trivial
    | error e => cases e <;> trivial

theorem uses_spares_fileSelection (folder : Folder) (selection : VideoSet) (dst : String) (priority : Bool) :
    Uses (fun op => Asks op ∧ op.deletes = false) (fileSelection folder selection dst priority) := by
  unfold fileSelection
  refine uses_bind (uses_attempt (uses_ok ⟨rfl, rfl⟩)) fun r => ?_
  rcases r with e | _ | ⟨path, paths⟩
  · cases e <;> trivial
  · trivial
  · exact uses_bind (uses_discard (uses_attempt (uses_ok ⟨rfl, rfl⟩))) fun _ => trivial

theorem spared {op : Op} (h : Asks op ∧ op.deletes = false) : Asks op ∧ (op.deletes = true → replacing ≠ []) :=
  ⟨h.1, fun hd => by rw [h.2] at hd; cases hd⟩

end Within

/-- Deleting and filing happen for the attempt whose claim is held. -/
theorem Tracker.filesWithin_onBehalf (t : Tracker) (K : Policy) : t.FilesWithin K OnBehalf := by
  intro attempt folder route h hh hl
  unfold file
  rw [wp_bind, wp_call_recorded]
  refine ⟨onBehalf_aside rfl, fun row _ => ?_, fun _ _ => trivial⟩
  have knows : Knows attempt.key ((row.map (·.replacePaths)).getD []) (⟨.sql (.getAcquisition attempt.avid), .ok row⟩ :: h) :=
    ⟨holds_mild (rfl : Mild (.sql (.getAcquisition attempt.avid))) hh, if_pos rfl⟩
  dsimp only
  generalize (row.map (·.replacePaths)).getD [] = replacing at knows ⊢
  have filed : ∀ (selection : VideoSet) h, Knows attempt.key replacing h →
      (fileSelection folder selection route.dst route.priority).wp (recorded K) OnBehalf (fun _ _ => True)
        (fun _ _ => True) h := fun selection h hk =>
    wp_mono (knows_keeps (uses_spares_fileSelection _ _ _ _) (fun _ => spared) h hk) (fun _ _ _ => trivial) fun _ _ _ => trivial
  have inspected : (inspectFolder t.archiver folder attempt.avid).Keeps (recorded K) OnBehalf (Knows attempt.key replacing)
      fun _ => Knows attempt.key replacing := knows_keeps (uses_spares_inspectFolder _ _ _) fun _ => spared
  refine wp_ite (fun _ => ?_) fun hne => ?_
  · unfold archiveFolder
    rw [wp_bind]
    refine wp_mono (inspected _ knows) (fun r h hk => ?_) fun _ _ _ => trivial
    cases r with
    | error result => trivial
    | ok selection => exact filed selection h hk
  · rw [wp_bind]
    refine wp_mono (inspected _ knows) (fun r h hk => ?_) fun _ _ _ => trivial
    cases r with
    | error result => trivial
    | ok selection =>
      have removed := knows_keeps (K := K) (k := attempt.key) (uses_mono (t.uses_removeReplaced attempt.avid replacing) fun _ h => h.1)
        (fun _ hop => ⟨hop, fun _ => hne⟩) h hk
      rw [wp_bind, wp_attempt]
      refine wp_mono removed (fun problem h hk => ?_) fun _ _ _ => trivial
      cases problem with
      | none => exact filed selection h hk
      | some problem => trivial

/-! ## What a run keeps -/

section Renewed
variable {ι : Type}

/-- The action began the replacement of an AVID: it took the row. -/
def Entry.begins (avid : Avid) (after : Ledger) (e : Entry ι) : Bool :=
  match e.event.op with
  | .sql (.beginReplacement a ..) => a = avid && after.acq avid ≠ e.before.acq avid
  | _ => false

/-- The magnet is handed to CloudDrive. -/
def Entry.hands (magnet : String) (_ : Ledger) (e : Entry ι) : Bool :=
  match e.event.op with
  | .ask (.addOfflineFiles links _) => links = [magnet]
  | _ => false

variable [DecidableEq ι]

/-- The magnet was handed over since the row's replacement began. -/
def HandedSinceBegin (w : World ι) (k : AttemptKey) (magnet : String) : Prop :=
  Since (Entry.hands magnet) (Entry.begins k.1) w.ledger w.log = true

/-- A poll about to delete a replaced copy or to file a folder does it for an attempt whose
claim it holds; when the row it read for it is a replacement's, the attempt's magnet was
handed to CloudDrive after that replacement began. -/
def OnlyForNew (component : ι → Component) (c : Pool Op.Res Exn Unit (World ι) ι) : Prop :=
  ∀ i op next, component i = .poll → c.prog i = .act op next → op.givesWay = true →
    ∃ k r, holds (c.world.history i) k = true ∧ c.world.ledger.att k = some r ∧
      (op.deletes = true → replacingFor k (c.world.history i) ≠ []) ∧
      (replacingFor k (c.world.history i) ≠ [] → HandedSinceBegin c.world k r.magnet)

/-- A replacement takes a row only while no attempt of it is live or claimed by a poll that
has yet to settle it; and a poll claims a download of a row under replacement only when its
magnet was handed over since the attempt was claimed. -/
def Renews (w : World ι) : Op → Prop
  | .sql (.beginReplacement avid ..) =>
    (∀ row, w.ledger.acq avid = some row → row.state ∈ AcquisitionState.replaceable) →
      ∀ k, k.1 = avid → (∀ r, w.ledger.att k = some r → ¬ r.Live) ∧ ∀ j, holds (w.history j) k = false
  | .sql (.casAttempt avid no .finished .archiving _ _) =>
    ∀ row r, w.ledger.acq avid = some row → row.replacePaths ≠ [] → w.ledger.att (avid, no) = some r →
      Since (Entry.hands r.magnet) (Entry.claims (avid, no)) w.ledger w.log = true
  | _ => True

def RenewingStep (i : ι) : Env Op.Res Exn (World ι) := fun w op r w' =>
  World.Step (fun _ _ => True) i w op r w' ∧ Renews w op

structure Renewed (w : World ι) : Prop where
  landed : ∀ i k, holds (w.history i) k = true → ∃ r, w.ledger.att k = some r ∧ r.state.landed
  /-- An attempt in play was claimed since the row's replacement began, if it ever did. -/
  claimed : ∀ k r, w.ledger.att k = some r → (r.Live ∨ ∃ i, holds (w.history i) k = true) →
    Since (Entry.claims k) (Entry.begins k.1) w.ledger w.log = true
  handed : ∀ i k r, holds (w.history i) k = true → w.ledger.att k = some r →
    ((∃ row, w.ledger.acq k.1 = some row ∧ row.replacePaths ≠ []) ∨ replacingFor k (w.history i) ≠ []) →
      Since (Entry.hands r.magnet) (Entry.claims k) w.ledger w.log = true

/-- A row comes to replace something only by `begin_replacement`. -/
theorem replacePaths_before {s : Sql} {l l' : Ledger} {a : s.Res} {avid : Avid} {row' : AcquisitionRecord}
    (h : s.Gives l a l') (hrow' : l'.acq avid = some row') (hne : row'.replacePaths ≠ []) :
    (∃ row, l.acq avid = some row ∧ row.replacePaths ≠ []) ∨
      ∃ source dir paths now, s = .beginReplacement avid source dir paths now ∧ l'.acq avid ≠ l.acq avid := by
  have unchanged : l'.acq avid = l.acq avid → ∃ row, l.acq avid = some row ∧ row.replacePaths ≠ [] :=
    fun he => ⟨row', he ▸ hrow', hne⟩
  -- only a statement on this row counts, and of those one starts a replacement
  by_cases hs : s.row = some avid
  · cases s with
    | insertAcquisition own =>
      obtain rfl := Option.some.inj hs
      simp only [Sql.Gives, Sql.run, Except.ok.injEq] at h
      rw [← show _ = l' from congrArg Prod.snd h, Ledger.acq_insertAcquisition] at hrow'
      split at hrow'
      · cases hrow'
        exact absurd rfl hne
      · exact .inl ⟨row', hrow', hne⟩
    | setReleaseDate own | casAcquisition own =>
      obtain rfl := Option.some.inj hs
      simp only [Sql.Gives, Sql.run, Except.ok.injEq] at h
      rw [← show _ = l' from congrArg Prod.snd h] at hrow'
      simp only [Ledger.acq_setReleaseDate, Ledger.acq_casAcquisition, Option.map_eq_some_iff] at hrow'
      obtain ⟨row, hrow, rfl⟩ := hrow'
      refine .inl ⟨row, hrow, fun he => hne ?_⟩
      split <;> simp [he]
    | setTaskDir own | setNextActionAt own =>
      obtain rfl := Option.some.inj hs
      simp only [Sql.Gives, Sql.run, Except.ok.injEq, Prod.mk.injEq] at h
      rw [← h.2] at hrow'
      simp only [Ledger.acq_setTaskDir, Ledger.acq_setNextActionAt, Option.map_eq_some_iff] at hrow'
      obtain ⟨row, hrow, rfl⟩ := hrow'
      refine .inl ⟨row, hrow, fun he => hne ?_⟩
      split <;> simp [he]
    | beginReplacement own source dir paths now =>
      obtain rfl := Option.some.inj hs
      by_cases he : l'.acq own = l.acq own
      · exact .inl (unchanged he)
      · exact .inr ⟨source, dir, paths, now, rfl, he⟩
    | _ => cases hs
  · exact .inl (unchanged (Sql.acq_frame h hs))

/-- `begin_replacement` takes only a replaceable row. -/
theorem replaceable_of_begins {l l' : Ledger} {avid : Avid} {source dir : String} {paths : List String} {now : Time} {a : Bool}
    (h : (Sql.beginReplacement avid source dir paths now).Gives l a l') (hne : l'.acq avid ≠ l.acq avid) :
    ∀ row, l.acq avid = some row → row.state ∈ AcquisitionState.replaceable := by
  intro row hrow
  by_contra hstate
  refine hne ?_
  simp only [Sql.Gives, Sql.run, Except.ok.injEq] at h
  rw [← show _ = l' from congrArg Prod.snd h]
  simp [Ledger.beginReplacement, hrow, hstate]

omit [DecidableEq ι] in
theorem replacingFor_cons {k : AttemptKey} {e : Event} {h : List Event} (hne : replacingFor k (e :: h) ≠ []) :
    (replacingFor k h ≠ [] ∧ ¬ Claims k e) ∨
      ∃ row : AcquisitionRecord, e = ⟨.sql (.getAcquisition k.1), .ok (some row)⟩ ∧ row.replacePaths ≠ [] := by
  unfold replacingFor at hne
  split at hne
  · exact absurd rfl hne
  · rename_i avid row h' heq
    cases heq
    by_cases ha : avid = k.1
    · subst ha
      rw [if_pos rfl] at hne
      cases row with
      | none => exact absurd rfl hne
      | some row => exact .inr ⟨row, rfl, hne⟩
    · rw [if_neg ha] at hne
      refine .inl ⟨hne, ?_⟩
      rintro ⟨at_, error, hc⟩
      cases hc
  · rename_i avid no at_ error h' heq
    cases heq
    by_cases hk : (avid, no) = k
    · rw [if_pos hk] at hne
      exact absurd rfl hne
    · rw [if_neg hk] at hne
      refine .inl ⟨hne, ?_⟩
      rintro ⟨at_, error, hc⟩
      cases hc
      exact hk rfl
  · rename_i e' h' hget hcas heq
    cases heq
    refine .inl ⟨hne, ?_⟩
    rintro ⟨at_, error, rfl⟩
    exact hcas _ _ _ _ rfl

section Step
variable {i : ι} {w : World ι} {l' : Ledger} {clock : Time} {op : Op} {a : Except Exn op.Res}

/-- Whoever holds a claim after an action won it just now, or held it before. -/
theorem holds_after {j : ι} {k : AttemptKey}
    (hh : holds (World.history ⟨l', clock, ⟨i, clock, w.ledger, op, a⟩ :: w.log⟩ j) k = true) :
    (j = i ∧ Claims k ⟨op, a⟩) ∨ holds (w.history j) k = true := by
  rw [World.history_cons] at hh
  by_cases hij : i = j
  · subst hij
    rw [if_pos rfl] at hh
    exact (holds_cons hh).imp (fun hc => ⟨rfl, hc⟩) fun hh => hh.1
  · rw [if_neg hij] at hh
    exact .inr hh

/-- No replacement begins on the row of an attempt in play. -/
theorem begins_false (hans : Answers clock w.ledger op a l') (hok : Renews w op) {k : AttemptKey} {r : MagnetAttemptRecord}
    (hr : w.ledger.att k = some r) (hplay : r.Live ∨ ∃ j, holds (w.history j) k = true) :
    (⟨i, clock, w.ledger, op, a⟩ : Entry ι).begins k.1 l' = false := by
  by_contra hb
  rw [Bool.not_eq_false] at hb
  unfold Entry.begins at hb
  split at hb
  · rename_i avid source dir paths now hop
    dsimp only at hop
    subst hop
    simp only [Bool.and_eq_true, decide_eq_true_eq] at hb
    obtain ⟨rfl, hne⟩ := hb
    have hrow : ∀ row, w.ledger.acq k.1 = some row → row.state ∈ AcquisitionState.replaceable := by
      rcases answers_ledger hans with rfl | ⟨s, b, hs, hg⟩
      · exact absurd rfl hne
      · cases hs
        exact replaceable_of_begins hg hne
    obtain ⟨hlive, hheld⟩ := hok hrow k rfl
    rcases hplay with hl | ⟨j, hj⟩
    · exact hlive r hr hl
    · rw [hheld j] at hj
      cases hj
  · cases hb

omit [DecidableEq ι] in
/-- An attempt that left the flight is not claimed again. -/
theorem claims_false (hans : Answers clock w.ledger op a l') {k : AttemptKey} {r : MagnetAttemptRecord}
    (hr : w.ledger.att k = some r) (hst : r.state.landed) : (⟨i, clock, w.ledger, op, a⟩ : Entry ι).claims k l' = false := by
  by_contra hc
  rw [Bool.not_eq_false] at hc
  unfold Entry.claims at hc
  split at hc
  · rename_i s hop
    dsimp only at hop
    subst hop
    simp only [Bool.and_eq_true, decide_eq_true_eq] at hc
    obtain ⟨hclaims, hne⟩ := hc
    rcases answers_ledger hans with rfl | ⟨s', b, hs, hg⟩
    · exact hne rfl
    · cases hs
      obtain ⟨r', hr', heff⟩ := Sql.att_effect hg hr
      cases heff with
      | same => exact hne (hr'.trans hr.symm)
      | claimed now _ hp => exact hst.1 hp
      | moved he _ =>
        subst he
        cases hclaims
      | progressed he _ =>
        subst he
        cases hclaims
  · cases hc

omit [DecidableEq ι] in
/-- A claim that was won takes a finished attempt over to archiving. -/
theorem archiving_of_claims (hans : Answers clock w.ledger op a l') {k : AttemptKey} (hc : Claims k ⟨op, a⟩) :
    ∃ r, w.ledger.att k = some r ∧ r.state = .finished ∧
      ∃ r', l'.att k = some r' ∧ r'.state = .archiving ∧ r'.magnet = r.magnet := by
  obtain ⟨at_, error, he⟩ := hc
  cases he
  obtain ⟨-, hatt, hwon⟩ := Ledger.casAttempt_spec hans
  obtain ⟨r, hr, hs⟩ := hwon.1 rfl
  refine ⟨r, hr, hs, ?_⟩
  rw [hatt, hr]
  exact ⟨_, rfl, by simp [hs], by simp [hs]⟩

omit [DecidableEq ι] in
theorem landed_stays (hop : Lawful op) (hans : Answers clock w.ledger op a l') {k : AttemptKey} {r : MagnetAttemptRecord}
    (hr : w.ledger.att k = some r) (hst : r.state.landed) : ∃ r', l'.att k = some r' ∧ r'.state.landed ∧ r'.magnet = r.magnet := by
  rcases answers_ledger hans with rfl | ⟨s, b, rfl, hg⟩
  · exact ⟨r, hr, hst, rfl⟩
  · obtain ⟨r', hr', hst', hm, -⟩ := landed_after hg hop hr hst
    exact ⟨r', hr', hst', hm⟩

/-- A row that replaces something did so before an action, where an attempt of it is in play: no replacement begins then. -/
theorem replaces_before (i : ι) (hans : Answers clock w.ledger op a l') (hok : Renews w op) {k : AttemptKey} {r : MagnetAttemptRecord}
    (hr : w.ledger.att k = some r) (hplay : r.Live ∨ ∃ j, holds (w.history j) k = true)
    (hreplaces : ∃ row, l'.acq k.1 = some row ∧ row.replacePaths ≠ []) :
    ∃ row, w.ledger.acq k.1 = some row ∧ row.replacePaths ≠ [] := by
  obtain ⟨row', hrow', hne⟩ := hreplaces
  rcases answers_ledger hans with rfl | ⟨s, b, rfl, hg⟩
  · exact ⟨row', hrow', hne⟩
  · rcases replacePaths_before hg hrow' hne with h | ⟨source, dir, paths, now, rfl, hchanged⟩
    · exact h
    · have hb := begins_false (i := i) hans hok hr hplay
      simp [Entry.begins, hchanged] at hb

/-- An attempt in play was claimed since the last replacement, and is still. -/
theorem since_claimed_step (hi : Renewed w) (hop : Lawful op) (hans : Answers clock w.ledger op a l') (hok : Renews w op)
    {k : AttemptKey} {r' : MagnetAttemptRecord} (hr' : l'.att k = some r')
    (hplay : r'.Live ∨ ∃ j, holds (World.history ⟨l', clock, ⟨i, clock, w.ledger, op, a⟩ :: w.log⟩ j) k = true) :
    Since (Entry.claims k) (Entry.begins k.1) l' (⟨i, clock, w.ledger, op, a⟩ :: w.log) = true := by
  have kept : ∀ r, w.ledger.att k = some r → (r.Live ∨ ∃ j, holds (w.history j) k = true) →
      Since (Entry.claims k) (Entry.begins k.1) l' (⟨i, clock, w.ledger, op, a⟩ :: w.log) = true := fun r hr hplay =>
    since_cons.2 (.inr ⟨begins_false hans hok hr hplay, hi.claimed k r hr hplay⟩)
  rcases hplay with hl | ⟨j, hh⟩
  · rcases answers_ledger hans with rfl | ⟨s, b, rfl, hg⟩
    · exact kept r' hr' (.inl hl)
    · rcases live_before hg hop hr' hl with ⟨r, hr, hlive, -⟩ | ⟨r, hr, hp, hc, hs', -⟩
      · exact kept r hr (.inl hlive)
      · refine since_cons.2 (.inl ?_)
        have hne : l'.att k ≠ w.ledger.att k := by
          rw [hr', hr]
          intro he
          cases he
          rw [hp] at hs'
          cases hs'
        simp [Entry.claims, hc, hne]
  · rcases holds_after hh with ⟨-, hc⟩ | hh
    · obtain ⟨r, hr, hs, -⟩ := archiving_of_claims hans hc
      exact kept r hr (.inl (by rw [MagnetAttemptRecord.Live, hs]; decide))
    · obtain ⟨r, hr, -⟩ := hi.landed j k hh
      exact kept r hr (.inr ⟨j, hh⟩)

theorem renewed_step (hi : Renewed w) (hop : Lawful op) (hans : Answers clock w.ledger op a l') (hok : Renews w op) :
    Renewed (⟨l', clock, ⟨i, clock, w.ledger, op, a⟩ :: w.log⟩ : World ι) := by
  refine ⟨fun j k hh => ?_, fun k r' hr' hplay => since_claimed_step hi hop hans hok hr' hplay, fun j k r' hh hr' hreplacing => ?_⟩
  · rcases holds_after hh with ⟨-, hc⟩ | hh
    · obtain ⟨-, -, -, r', hr', hs', -⟩ := archiving_of_claims hans hc
      exact ⟨r', hr', by rw [hs']; exact ⟨by decide, by decide⟩⟩
    · obtain ⟨r, hr, hst⟩ := hi.landed j k hh
      obtain ⟨r', hr', hst', -⟩ := landed_stays hop hans hr hst
      exact ⟨r', hr', hst'⟩
  · have hnot : ∀ r, w.ledger.att k = some r → r.state.landed →
        Since (Entry.hands r'.magnet) (Entry.claims k) w.ledger w.log = true →
        Since (Entry.hands r'.magnet) (Entry.claims k) l' (⟨i, clock, w.ledger, op, a⟩ :: w.log) = true :=
      fun r hr hst h => since_cons.2 (.inr ⟨claims_false hans hr hst, h⟩)
    rcases holds_after hh with ⟨rfl, hc⟩ | hheld
    · obtain ⟨r, hr, hs, r'', hr'', -, hm⟩ := archiving_of_claims hans hc
      cases hr'.symm.trans hr''
      rw [World.history_cons, if_pos rfl] at hreplacing
      have hlive : r.Live := by rw [MagnetAttemptRecord.Live, hs]; decide
      obtain ⟨row, hrow, hne⟩ : ∃ row, w.ledger.acq k.1 = some row ∧ row.replacePaths ≠ [] := by
        refine replaces_before j hans hok hr (.inl hlive) (hreplacing.resolve_right fun hne => ?_)
        rcases replacingFor_cons hne with ⟨-, hn⟩ | ⟨row, he, -⟩
        · exact hn hc
        · obtain ⟨at_, error, he'⟩ := hc
          rw [he] at he'
          cases he'
      refine hnot r hr (by rw [hs]; exact ⟨by decide, by decide⟩) ?_
      obtain ⟨at_, error, he⟩ := hc
      cases he
      rw [hm]
      exact hok row r hrow hne hr
    · obtain ⟨r, hr, hst⟩ := hi.landed j k hheld
      obtain ⟨r'', hr'', -, hm⟩ := landed_stays hop hans hr hst
      cases hr'.symm.trans hr''
      refine hnot r hr hst (hm ▸ hi.handed j k r hheld hr ?_)
      rcases hreplacing with hrow | hread
      · exact .inl (replaces_before i hans hok hr (.inr ⟨j, hheld⟩) hrow)
      · rw [World.history_cons] at hread
        by_cases hij : i = j
        · subst hij
          rw [if_pos rfl] at hread
          rcases replacingFor_cons hread with ⟨hread, -⟩ | ⟨row, he, hne⟩
          · exact .inr hread
          · cases he
            simp only [Answers, Sql.Gives, Sql.run, Except.ok.injEq, Prod.mk.injEq] at hans
            exact .inl ⟨row, hans.1, hne⟩
        · rw [if_neg hij] at hread
          exact .inr hread

end Step

/-- From the empty ledger, whatever the components do at the same time: where replacements
begin on rows nobody downloads for, and downloads of rows under replacement are taken after
they were handed over, a replaced copy gives way only to a magnet handed over since. -/
theorem replaced_by_new {s : Setup} {component : ι → Component} {polls : ι → Nat} {start : Time}
    {c : Pool Op.Res Exn Unit (World ι) ι}
    (h : Pool.Reach RenewingStep ⟨⟨.empty, start, []⟩, fun i => (component i).thread s (polls i)⟩ c) :
    OnlyForNew component c := by
  have step : ∀ (i : ι) w op a w', RenewingStep i w op a w' → World.Step known i w op a w' := by
    rintro i w op a w' ⟨⟨clock, l', hc, -, ha, hw⟩, -⟩
    exact ⟨clock, l', hc, answers_known ha, ha, hw⟩
  have nothing : Renewed (⟨.empty, start, []⟩ : World ι) := by
    refine ⟨fun i k hh => ?_, fun k r hr => ?_, fun i k r hh => ?_⟩
    · simp [World.history, holds] at hh
    · cases hr
    · simp [World.history, holds] at hh
  have guarded : ∀ i, ((component i).thread s (polls i)).wp (recorded known)
      (fun h op => Lawful op ∧ (component i = .poll → OnBehalf h op)) (fun _ _ => True) (fun _ _ => True) [] := by
    intro i
    have lawful := keeps_of_uses (T := recorded known) (G := fun _ op => Lawful op) (I := Anyway)
      (Component.lawful_thread s (polls i) (component i)) (fun _ _ hop _ => hop) fun _ _ _ _ _ _ _ => trivial
    by_cases hi : component i = .poll
    · rw [hi] at lawful ⊢
      have onBehalf := Tracker.clear_replica (K := known) (fun _ _ hop => onBehalf_aside hop)
        (s.tracker.filesWithin_onBehalf known) (polls i)
      exact wp_guards (onBehalf [] trivial) (lawful [] trivial) fun h op hb hop => ⟨hop, fun _ => hb⟩
    · exact wp_env (wp_mono (lawful [] trivial) (fun _ _ _ => trivial) fun _ _ _ => trivial) (fun _ _ _ _ ht => ht)
        fun h op hop => ⟨hop, fun hp => absurd hp hi⟩
  obtain ⟨hr, hnext⟩ := World.reach_inv step (fun i h op => Lawful op ∧ (component i = .poll → OnBehalf h op)) Renewed
    (fun w i op a w' hi hG ht => by
      obtain ⟨⟨clock, l', -, -, hans, rfl⟩, hok⟩ := ht
      exact renewed_step hi hG.1 hans hok) nothing rfl guarded h
  intro i op next hi hop hg
  obtain ⟨k, hh, hdel⟩ := (hnext i op next hop).2 hi hg
  obtain ⟨r, hr', hst⟩ := hr.landed i k hh
  refine ⟨k, r, hh, hr', hdel, fun hne => ?_⟩
  exact Since.trans (hr.handed i k r hh hr' (.inr hne)) (hr.claimed k r hr' (.inr ⟨i, hh⟩))

end Renewed

/-! ## Two replacements -/

namespace NewCopyExample

def setup : Setup := { smallSetup with
  tracker := { oneDirTracker with
    libraryMountPrefix := "/mnt/cloud"
    archiver := ⟨fun name => if name = "ABC-123.mp4" then "ABC-123" else "", id, fun _ _ => none⟩ }
  replacement := { smallSetup.replacement with routeForTaskDir := fun _ => some ("/mnt/library", false) } }

/-- The library holds `ABC-123`; the tasks of these magnets are complete. -/
def outside (finished : List InfoHash) : World.Outside
  | .sukebei _ => .ok (some "magnet:AA")
  | .addOfflineFiles .. => .ok true
  | .libraryHoldings .. => .ok ["ABC/ABC-123.mp4"]
  | .listOfflineFiles _ => .ok (finished.map fun h => ⟨"ABC-123", h, .finished, 100⟩)
  | .listDirectory "/library/ABC" => .ok [⟨"/library/ABC/ABC-123.mp4", false⟩]
  | .listDirectory _ => .ok []
  | .locate _ _ => .ok (some (⟨"/mnt/inbox/ABC-123", "ABC-123"⟩, ⟨"/mnt/inbox", "/mnt/library", false⟩))
  | .isDir _ => .ok true
  | .largeVideos _ => .ok [⟨"/mnt/inbox/ABC-123/ABC-123.mp4", "ABC-123.mp4", 1⟩]
  | .replacedCopies .. => .ok ["/mnt/cloud/library/ABC/ABC-123.mp4"]
  | _ => .error ⟨.failure "unreachable", trivial⟩

def replaced : Fin 2 → Component
  | 0 => .replace "ABC-123" (some "magnet:BB")
  | 1 => .poll

/-- A title nobody ever downloaded is replaced, and the download completes. -/
def replacedTurns : List (Fin 2 × (Nat × World.Outside)) :=
  List.replicate 20 (0, (1, outside ["magnet:BB"])) ++ List.replicate 16 (1, (1, outside ["magnet:BB"]))

def replacedStart : Pool Op.Res Exn Unit (World (Fin 2)) (Fin 2) :=
  ⟨⟨.empty, 0, []⟩, fun i => (replaced i).thread setup 1⟩

def ignored : Fin 4 → Component
  | 0 => .enqueue "ABC-123" "manual" "/inbox" none none
  | 1 => .ignore "ABC-123"
  | 2 => .replace "ABC-123" (some "magnet:BB")
  | 3 => .poll

/-- A download is ignored while it runs, and the title replaced; then the ignored download completes. -/
def ignoredTurns : List (Fin 4 × (Nat × World.Outside)) :=
  (([0, 1, 2] : List (Fin 4)).flatMap fun i => List.replicate 20 (i, (1, outside ["magnet:AA"]))) ++
    List.replicate 16 (3, (1, outside ["magnet:AA"]))

def ignoredStart : Pool Op.Res Exn Unit (World (Fin 4)) (Fin 4) :=
  ⟨⟨.empty, 0, []⟩, fun i => (ignored i).thread setup 1⟩

/-- A replacement starts where nobody ever moved an attempt and the row has none; a poll
takes a download that was handed over. -/
def renews {ι : Type} (w : World ι) : Op → Bool
  | .sql (.beginReplacement avid ..) =>
    (w.ledger.attempts.rows.all fun r => r.avid ≠ avid) && w.log.all fun e => !e.event.op.movesAttempt
  | .sql (.casAttempt avid no .finished .archiving _ _) =>
    (w.ledger.att (avid, no)).all fun r => Since (Entry.hands r.magnet) (Entry.claims (avid, no)) w.ledger w.log
  | _ => true

theorem claims_of_holds {h : List Event} {k : AttemptKey} (hh : holds h k = true) : ∃ e ∈ h, e.op.movesAttempt = true := by
  induction h with
  | nil => cases hh
  | cons e h ih =>
    rcases holds_cons hh with ⟨at_, error, rfl⟩ | ⟨hh, -⟩
    · exact ⟨_, List.mem_cons_self, rfl⟩
    · obtain ⟨e', he', hm⟩ := ih hh
      exact ⟨e', List.mem_cons_of_mem _ he', hm⟩

theorem renews_of {ι : Type} [DecidableEq ι] {w : World ι} {op : Op} (h : renews w op = true) : Renews w op := by
  unfold renews at h
  split at h
  · intro _ k hk
    rw [Bool.and_eq_true] at h
    refine ⟨fun r hr _ => ?_, fun j => ?_⟩
    · have := List.all_eq_true.1 h.1 r (Ledger.mem_of_att hr)
      simp only [decide_eq_true_eq] at this
      exact this ((congrArg Prod.fst (Ledger.att_key hr)).trans hk)
    · by_contra hh
      rw [Bool.not_eq_false] at hh
      obtain ⟨e, he, hm⟩ := claims_of_holds hh
      obtain ⟨entry, hentry, hwho⟩ := List.mem_filterMap.1 he
      split at hwho
      · obtain rfl := Option.some.inj hwho
        have := List.all_eq_true.1 h.2 entry hentry
        rw [hm] at this
        cases this
      · cases hwho
  · intro row r _ _ hr
    rw [hr] at h
    exact h
  · rename_i hbegin hclaim
    unfold Renews
    split
    · exact (hbegin _ _ _ _ _ rfl).elim
    · exact (hclaim _ _ _ _ rfl).elim
    · trivial

end NewCopyExample

open NewCopyExample in
theorem replaced_by_new_submitted :
    OnlyForNew replaced (World.schedule replacedTurns replacedStart) ∧
      HandedSinceBegin (World.schedule replacedTurns replacedStart).world ("ABC-123", 1) "magnet:BB" := by
  refine ⟨?_, by unfold HandedSinceBegin; decide⟩
  have hreach : Pool.Reach RenewingStep replacedStart (World.schedule replacedTurns replacedStart) := by
    refine Pool.reach_turnsOk (fun _ w op _ _ => renews w op) (fun i d w op h => ?_) (by decide)
    exact ⟨World.turn_step trivial, renews_of h⟩
  exact replaced_by_new hreach

set_option maxRecDepth 4000 in
/-- The download of an ignored AVID is filed in the place of the copy that is being replaced. -/
theorem replaced_by_ignored :
    ∃ c, Pool.Reach (World.Step fun _ _ => True) NewCopyExample.ignoredStart c ∧ ¬ OnlyForNew NewCopyExample.ignored c := by
  refine ⟨_, World.reach_schedule NewCopyExample.ignoredTurns NewCopyExample.ignoredStart, fun h => ?_⟩
  generalize hc : World.schedule NewCopyExample.ignoredTurns NewCopyExample.ignoredStart = c at h
  have hdeletes : ReplacedExample.deletes (c.prog 3) = some ["/library/ABC/ABC-123.mp4"] := by
    rw [← hc]
    with_unfolding_all decide
  obtain ⟨next, hnext⟩ := ReplacedExample.deletes_eq_some hdeletes
  obtain ⟨k, r, hh, hr, hreplacing, hnew⟩ := h 3 _ next rfl hnext rfl
  have old : c.world.ledger.attempts.rows.all (fun r => !holds (c.world.history 3) r.key ||
      !Since (Entry.hands r.magnet) (Entry.begins r.avid) c.world.ledger c.world.log) = true := by
    rw [← hc]
    with_unfolding_all decide
  have hold := List.all_eq_true.1 old r (Ledger.mem_of_att hr)
  obtain rfl := Ledger.att_key hr
  have hsince : Since (Entry.hands r.magnet) (Entry.begins r.avid) c.world.ledger c.world.log = true :=
    hnew (hreplacing rfl)
  rw [hh, hsince] at hold
  cases hold

end EmbyxManager
