import EmbyxManager.Monitor.Exclusive
/-!
# What a poll files

A poll touches folders, the library and replaced copies only in `file`, and comes there
holding the claim of its attempt, the folder found. So a guard on those actions has to be
checked for `file` alone: whatever holds of it from there holds of every run of a replica.
-/

namespace EmbyxManager
open Atom Prog AcquisitionRepository Archive

/-- The folder of a download, found by its task or, without one, by its AVID. -/
def Located (avid : Avid) (folder : Folder) (route : TrackerRoute) (h : List Event) : Prop :=
  (∃ name, (⟨.ask (.locate name avid), .ok (some (folder, route))⟩ : Event) ∈ h) ∨
    (⟨.ask (.findFolderFor avid), .ok (some (folder, route))⟩ : Event) ∈ h

theorem Located.cons {avid : Avid} {folder : Folder} {route : TrackerRoute} {h : List Event} (e : Event)
    (hl : Located avid folder route h) : Located avid folder route (e :: h) :=
  hl.imp (fun ⟨name, hm⟩ => ⟨name, List.mem_cons_of_mem _ hm⟩) fun hm => List.mem_cons_of_mem _ hm

/-- The action is not about a folder, the library or a replaced copy. -/
abbrev Aside (op : Op) : Prop := op.archives = false

theorem Quiet.aside {op : Op} (h : Quiet op) : Aside op := h.2.1

namespace Tracker
variable {t : Tracker} {K : Policy} {G : List Event → Op → Prop} {α : Type} {p : M α}

/-- The program keeps to the guard, whatever it has seen. -/
abbrev Clear (K : Policy) (G : List Event → Op → Prop) (p : M α) : Prop :=
  p.Keeps (recorded K) G Anyway fun _ _ => True

/-- The guard is only about what is archived. -/
abbrev OnArchiving (G : List Event → Op → Prop) : Prop := ∀ h op, Aside op → G h op

theorem clear_aside (hG : OnArchiving G) (hp : Uses Aside p) : Clear K G p :=
  keeps_mono (keeps_of_uses hp (fun h op hop _ => hG h op hop) fun _ _ _ _ _ _ _ => trivial) fun _ _ _ => trivial

theorem clear_quiet (hG : OnArchiving G) (hp : Uses Quiet p) : Clear K G p :=
  clear_aside hG (uses_mono hp fun _ => Quiet.aside)

theorem clear_ok (hG : OnArchiving G) {op : Op} (hop : Aside op) : Clear K G (call op : M op.Res) :=
  clear_aside hG (uses_ok hop)

theorem aside_transitionAttempt {avid : Avid} {no : Nat} {expected target : AttemptState} {at_ : Time}
    {error : Option String} : Uses Aside (transitionAttempt avid no expected target at_ error) := uses_transitionAttempt rfl

theorem clear_settle (hG : OnArchiving G) (attempt : MagnetAttemptRecord) (result : ArchiveResult) :
    Clear K G (t.settle attempt result) := by
  have moved : ∀ {target : AttemptState} {at_ : Time},
      Uses Aside (discard (transitionAttempt attempt.avid attempt.attemptNo .archiving target at_)) :=
    uses_discard aside_transitionAttempt
  refine clear_aside hG ?_
  unfold settle
  refine uses_bind (uses_ok rfl) fun at_ => ?_
  split
  · exact uses_bind moved fun _ => uses_discard (uses_transition rfl)
  · exact uses_bind moved fun _ => uses_mono (t.uses_tryNext _ _) fun _ => Quiet.aside
  · exact uses_bind moved fun _ => uses_runIf (uses_discard (uses_transition rfl))

theorem clear_giveUp (hG : OnArchiving G) (attempt : MagnetAttemptRecord) (state : AttemptState) (reason : String) :
    Clear K G (t.giveUp attempt state reason) :=
  clear_aside hG (t.uses_giveUp (fun _ => Quiet.aside) attempt reason fun _ => rfl)

section Claim
variable {attempt : MagnetAttemptRecord} {at_ : Time} {f : Bool → M α} {I : List Event → Prop} {h : List Event}

/-- What comes after winning the claim starts with the claim held. -/
theorem wp_won (hG : OnArchiving G) (hI : ∀ e h, I h → I (e :: h)) (hlost : Clear K G (f false))
    (hwon : ∀ h, I h → Holding attempt.key h → (f true).wp (recorded K) G (fun _ _ => True) (fun _ _ => True) h) (hh : I h) :
    (transitionAttempt attempt.avid attempt.attemptNo .finished .archiving at_ >>= f).wp (recorded K) G (fun _ _ => True)
      (fun _ _ => True) h := by
  rw [wp_bind, transitionAttempt, if_pos (by decide), wp_call_recorded]
  refine ⟨hG _ _ rfl, fun won _ => ?_, fun _ _ => trivial⟩
  cases won with
  | false => exact hlost _ trivial
  | true => exact hwon _ (hI _ _ hh) (holds_claimed (k := attempt.key))

theorem wp_claimFinished (hG : OnArchiving G) (hlost : Clear K G (f false))
    (hwon : ∀ h, Holding attempt.key h → (f true).wp (recorded K) G (fun _ _ => True) (fun _ _ => True) h) :
    Clear K G (claimFinished attempt at_ >>= f) := by
  have hwon' : ∀ h, Anyway h → Holding attempt.key h → (f true).wp (recorded K) G (fun _ _ => True) (fun _ _ => True) h :=
    fun h _ => hwon h
  intro h _
  unfold claimFinished
  split
  · exact wp_won hG (fun _ _ _ => trivial) hlost hwon' trivial
  · rw [wp_bind, wp_bind]
    refine wp_mono (clear_aside hG aside_transitionAttempt h trivial) (fun finished h' _ => ?_) fun _ _ _ => trivial
    cases finished with
    | false => exact hlost h' trivial
    | true => exact (wp_bind _ _).1 (wp_won hG (I := Anyway) (fun _ _ _ => trivial) hlost hwon' trivial)

end Claim

/-- `file` keeps to the guard once the claim is held and the folder found. -/
def FilesWithin (t : Tracker) (K : Policy) (G : List Event → Op → Prop) : Prop :=
  ∀ (attempt : MagnetAttemptRecord) (folder : Folder) (route : TrackerRoute) h, Holding attempt.key h →
    Located attempt.avid folder route h →
    (t.file attempt folder route).wp (recorded K) G (fun _ _ => True) (fun _ _ => True) h

section Poll
variable (hG : OnArchiving G) (hF : t.FilesWithin K G)
include hG hF

theorem clear_archiveFinished (attempt : MagnetAttemptRecord) (task : OfflineTask) (taskDir : String) :
    Clear K G (t.archiveFinished attempt task taskDir) := by
  unfold archiveFinished
  refine keeps_bind (clear_ok hG rfl) fun at_ => keeps_bind (clear_ok hG rfl) fun record => ?_
  split
  · exact keeps_pure _
  · split
    · exact keeps_pure _
    · refine wp_claimFinished hG (keeps_pure _) fun h hh => ?_
      have refreshed := keeps_of_uses (T := recorded K) (G := G) (I := Holding attempt.key)
        (uses_refreshMount (fun _ => ⟨rfl, rfl, rfl⟩) task taskDir : Uses Quiet _) (fun h op hop _ => hG h op hop.aside) fun h op r _ hop hh ht => by
          obtain ⟨-, rfl⟩ := ht
          exact holds_mild hop.1 hh
      rw [if_pos rfl, wp_bind]
      refine wp_mono (refreshed h hh) (fun _ h hh => ?_) fun _ _ _ => trivial
      rw [wp_bind, wp_call_recorded]
      refine ⟨hG _ _ rfl, fun located _ => ?_, fun _ _ => trivial⟩
      cases located with
      | none => exact keeps_bind (clear_ok hG rfl) (fun _ => clear_aside hG (uses_discard aside_transitionAttempt)) _ trivial
      | some place =>
        have held : Holding attempt.key (⟨.ask (.locate task.name attempt.avid), .ok (some place)⟩ :: h) :=
          holds_mild (rfl : Mild (.ask (.locate task.name attempt.avid))) hh
        rw [wp_bind]
        refine wp_mono (hF attempt _ _ _ held (.inl ⟨task.name, List.mem_cons_self⟩)) (fun result h _ => ?_)
          fun _ _ _ => trivial
        exact keeps_bind (clear_settle hG _ _) (fun _ => clear_quiet hG (uses_runIf (uses_removeTask _ _))) h trivial

theorem clear_consider (byHash : Listing) (joined : InfoHash × MagnetAttemptRecord) : Clear K G (t.consider byHash joined) := by
  have dropped : ∀ (task : OfflineTask) taskDir gaveUp, Clear K G (runIf gaveUp (removeTask task.infoHash taskDir)) :=
    fun _ _ _ => clear_quiet hG (uses_runIf (uses_removeTask _ _))
  unfold consider
  split
  · refine keeps_bind (clear_ok hG rfl) fun _ => ?_
    unfold advance
    split
    · exact clear_archiveFinished hG hF _ _ _
    · exact keeps_bind (clear_giveUp hG _ _ _) (dropped _ _)
    · split
      · unfold refreshProgress
        refine keeps_bind (clear_ok hG rfl) fun at_ => keeps_bind (clear_aside hG (uses_recordProgress rfl)) fun moved => ?_
        split
        · exact keeps_pure _
        · dsimp only
          split
          · exact keeps_bind (clear_giveUp hG _ _ _) (dropped _ _)
          · exact keeps_pure _
      · exact keeps_pure _
  · exact keeps_raise fun _ _ => trivial

theorem wp_archiveOrphaned (attempt : MagnetAttemptRecord) {folder : Folder} {route : TrackerRoute} {h : List Event}
    (hl : Located attempt.avid folder route h) :
    (t.archiveOrphaned attempt folder route).wp (recorded K) G (fun _ _ => True) (fun _ _ => True) h := by
  have kept : ∀ {β : Type} {p : M β}, Uses Aside p →
      p.Keeps (recorded K) G (Located attempt.avid folder route) fun _ _ => True := by
    intro β p hp
    refine keeps_mono (keeps_of_uses hp (fun h op hop _ => hG h op hop) ?_) fun _ _ _ => trivial
    rintro h op r _ - hl ⟨-, rfl⟩
    exact hl.cons _
  unfold archiveOrphaned
  rw [wp_bind]
  refine wp_mono (kept (uses_ok rfl) h hl) (fun at_ h hl => ?_) fun _ _ _ => trivial
  rw [wp_bind]
  refine wp_mono (kept aside_transitionAttempt h hl) (fun finished h hl => ?_) fun _ _ _ => trivial
  refine wp_ite (fun _ => ?_) fun _ => trivial
  refine wp_won hG (fun e h => Located.cons e) (keeps_pure _) (fun h hl hh => ?_) hl
  rw [if_pos rfl, wp_bind]
  exact wp_mono (hF attempt _ _ h hh hl) (fun result h _ => clear_settle hG _ _ h trivial) fun _ _ _ => trivial

theorem clear_sweepOne (byHash : Listing) (at_ : Time) (attempt : MagnetAttemptRecord) :
    Clear K G (t.sweepOne byHash at_ attempt) := by
  unfold sweepOne
  refine keeps_bind (clear_ok hG rfl) fun _ => ?_
  split
  · exact keeps_pure _
  · split
    · exact keeps_pure _
    · intro h _
      rw [wp_bind, wp_call_recorded]
      refine ⟨hG _ _ rfl, fun located _ => ?_, fun _ _ => trivial⟩
      cases located with
      | none => exact keeps_discard (clear_giveUp hG _ _ _) _ trivial
      | some place => exact wp_archiveOrphaned hG hF attempt (.inr List.mem_cons_self)

theorem clear_poll : Clear K G t.poll := by
  unfold poll
  split
  · exact keeps_pure _
  · unfold listTasks AcquisitionRepository.attemptsByInfoHash sweepLost
    refine keeps_bind (keeps_foldEach (fun taskDir _ byHash => ?_) _) fun byHash => keeps_bind ?_ fun joined =>
      keeps_bind (keeps_forEach fun j _ => clear_consider hG hF byHash j) fun _ => keeps_bind ?_ fun _ => ?_
    · exact keeps_bind (clear_ok hG rfl) fun _ => keeps_bind (clear_ok hG rfl) fun _ => keeps_pure _
    · split
      · exact keeps_pure _
      · exact keeps_bind (clear_ok hG rfl) fun _ => keeps_pure _
    · refine keeps_bind (clear_ok hG rfl) fun at_ => keeps_bind (clear_ok hG rfl) fun attempts => ?_
      exact keeps_forEach fun attempt _ => clear_sweepOne hG hF byHash at_ attempt
    · exact clear_quiet hG (uses_clearArchived _)

theorem clear_replica (polls : Nat) : Clear K G (t.replica polls) := by
  refine keeps_forEach fun t' ht => ?_
  rw [List.eq_of_mem_replicate ht]
  exact keeps_discard (keeps_attempt (clear_poll hG hF) fun _ _ _ => trivial)

end Poll

end Tracker

end EmbyxManager
