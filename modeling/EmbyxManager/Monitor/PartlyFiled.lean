import EmbyxManager.Monitor.AllOrNothing
/-!
# A folder filed in part

Where something is touched before the last rename into the library, one failure is enough:
the rename after it fails, and the folder is neither archived nor what it was. So to be filed
by one rename is all there is to a folder that is filed as a whole whatever call fails. A call
fails for no reason here: the file at a brand directory's path that `mkdir` would always
raise over cannot be written down.
-/

namespace EmbyxManager.FolderFiling
open Atom Prog

/-! ## What is touched -/

/-- A video is gone, or the library holds a file or a directory that is new. -/
def Touched (w w' : FolderState) : Prop :=
  (∃ v ∈ w.videos, v ∉ w'.videos) ∨ (∃ f ∈ w'.library.files, f ∉ w.library.files) ∨
    ∃ d, w'.library.isDir d = true ∧ w.library.isDir d = false

theorem Touched.not_same {w w' : FolderState} (h : Touched w w') : ¬w.Same w' := by
  intro hs
  rcases h with ⟨v, hv, hgone⟩ | ⟨f, hf, hnew⟩ | ⟨d, hd, hnew⟩
  · exact hgone ((hs.videos v).2 hv)
  · exact hnew ((hs.files f).1 hf)
  · rw [hs.dirs d, hnew] at hd
    cases hd

/-- With one more directory. -/
def FolderState.made (w : FolderState) (d : BrandDir) : FolderState :=
  { w with library := { w.library with dirs := d :: w.library.dirs } }

/-- A new directory takes nothing back. -/
theorem Touched.made {w w' : FolderState} {d : BrandDir} (h : Touched w w') : Touched w (w'.made d) := by
  rcases h with hgone | hnew | ⟨d', hd', hnew⟩
  · exact .inl hgone
  · exact .inr (.inl hnew)
  · refine .inr (.inr ⟨d', ?_, hnew⟩)
    simp only [FolderState.made, Library.isDir, decide_eq_true_eq, List.mem_cons] at hd' ⊢
    exact hd'.imp_left .inr

/-! ## The call that fails -/

def FolderOp.movesIn : FolderOp → Bool
  | .call (.moveIn ..) => true
  | _ => false

/-- The first rename into the library after something was touched. -/
def Breaks (w : FolderState) (s : Tried) (op : FolderOp) : Prop :=
  s.failed = false ∧ op.movesIn = true ∧ Touched w s.state

/-- That one fails, and no other call does. -/
def breaksLate (w : FolderState) : Env FolderOp.Res Exn Tried := fun s op r s' =>
  (Breaks w s op ∧ r = .error (.failure "") ∧ s' = ⟨s.state, true⟩) ∨
    (¬Breaks w s op ∧ r = (s.state.run op).1 ∧ s' = ⟨(s.state.run op).2, s.failed⟩)

section late
variable {arch : Arranger} {routes : LibraryRoutes} {folder : Folder} {dst : String} {priority : Bool} {expected : Avid}
  {w : FolderState} {s : Tried} {selection : VideoSet} {own : BrandDir} {avid : Avid} {X : Exn → Tried → Prop}

theorem oneFails_of_late {op : FolderOp} {r : Except Exn op.Res} {s' : Tried} (ht : breaksLate w s op r s') :
    oneFails s op r s' := by
  rcases ht with ⟨⟨hfailed, -, -⟩, rfl, rfl⟩ | ⟨-, rfl, rfl⟩
  · exact .inr ⟨hfailed, trivial, rfl, rfl, _, rfl, trivial⟩
  · exact .inl ⟨rfl, rfl⟩

theorem admits_late : Admits (breaksLate w) fun _ op => op.movesIn = true := by
  rintro s op r s' (⟨⟨hfailed, hop, -⟩, rfl, rfl⟩ | ⟨-, rfl, rfl⟩)
  · exact .inr ⟨hfailed, hop, rfl, rfl, _, rfl, trivial⟩
  · exact .inl ⟨rfl, rfl⟩

/-- No look is a rename. -/
theorem tolerates_late : Tolerates (fun _ op => op.movesIn = true) X s.state := by
  intro op e s' hlooks hmoves
  cases op with
  | size => cases hmoves
  | call op =>
    cases op with
    | moveIn => cases hlooks
    | _ => cases hmoves

theorem late_answers (s : Tried) (op : FolderOp) : ∃ r s', breaksLate w s op r s' := by
  by_cases h : Breaks w s op
  · exact ⟨_, _, .inl ⟨h, rfl, rfl⟩⟩
  · exact ⟨_, _, .inr ⟨h, rfl, rfl⟩⟩

theorem late_run {op : FolderOp} {r : Except Exn op.Res} {s' : Tried} (hop : ¬Breaks w s op) (ht : breaksLate w s op r s') :
    r = (s.state.run op).1 ∧ s' = ⟨(s.state.run op).2, s.failed⟩ := by
  rcases ht with ⟨h, -, -⟩ | ⟨-, hr, hs⟩
  · exact absurd h hop
  · exact ⟨hr, hs⟩

/-- A call that is answered. -/
theorem wp_answered {op : LibraryOp} {a : op.Res} {w' : FolderState} (hop : ¬Breaks w s (.call op))
    (hrun : s.state.run (.call op) = (.ok a, w')) {Q : op.Res → Tried → Prop} (h : Q a ⟨w', s.failed⟩) :
    (Prog.call op : LibraryM op.Res).wp (inLibrary (breaksLate w)) Always Q X s := by
  refine (wp_call _).2 ⟨trivial, fun a' s' ht => ?_, fun e s' ht => ?_⟩
  · obtain ⟨hr, rfl⟩ := late_run hop ht
    rw [hrun] at hr ⊢
    cases hr
    exact h
  · obtain ⟨hr, -⟩ := late_run hop ht
    rw [hrun] at hr
    cases hr

theorem not_breaks {op : FolderOp} (hop : op.movesIn = false) : ¬Breaks w s op := by
  rintro ⟨-, hmoves, -⟩
  rw [hop] at hmoves
  cases hmoves

/-! ## Once something is touched -/

/-- Nothing is filed, and something is touched. -/
abbrev Late (w : FolderState) : List String → Tried → Prop := fun paths s' => paths = [] ∧ Touched w s'.state

abbrev LateError (w : FolderState) : Exn → Tried → Prop := fun _ s' => Touched w s'.state

theorem wp_moveIn_late {ts : List (Video × LibraryFile)} (hs : s.failed = false) (ht : Touched w s.state) :
    (Prog.forEach ts fun t => Prog.call (LibraryOp.moveIn t.1 t.2) : LibraryM Unit).wp (inLibrary (breaksLate w)) Always
      (fun _ s' => ts = [] ∧ Touched w s'.state) (LateError w) s := by
  cases ts with
  | nil => exact ⟨rfl, ht⟩
  | cons t ts =>
    have hbreaks : Breaks w s (.call (.moveIn t.1 t.2)) := ⟨hs, rfl, ht⟩
    refine (wp_bind _ _).2 ((wp_call _).2 ⟨trivial, ?_, ?_⟩)
    · rintro ⟨⟩ s' (⟨-, he, -⟩ | ⟨hnot, -, -⟩)
      · cases he
      · exact absurd hbreaks hnot
    · rintro e s' (⟨-, -, rfl⟩ | ⟨hnot, -, -⟩)
      · exact ht
      · exact absurd hbreaks hnot

theorem wp_fileTargets_late {ts : List (Video × LibraryFile)} (hs : s.failed = false) (ht : Touched w s.state) :
    (Archive.fileTargets own ts).wp (inLibrary (breaksLate w)) Always (Late w) (LateError w) s := by
  unfold Archive.fileTargets
  refine (wp_bind _ _).2 (wp_taken admits_late tolerates_late (wp_ite (fun _ => ⟨rfl, ht⟩) fun _ => ?_))
  refine (wp_bind _ _).2 (wp_answered (not_breaks rfl) rfl ?_)
  refine (wp_bind _ _).2 (wp_mono (wp_moveIn_late hs ht.made) ?_ fun _ _ h => h)
  rintro ⟨⟩ s' ⟨rfl, ht'⟩
  exact ⟨rfl, ht'⟩

/-- What the routes do before leaves something touched. -/
theorem wp_moveIntoLibrary_late (hown : Archive.findDstDir routes avid dst = some own) {videos : List Video}
    (hguard : (Archive.guardRoutes routes avid own priority).wp (inLibrary (breaksLate w)) Always
      (fun _ s' => s'.failed = false ∧ Touched w s'.state) (LateError w) s) :
    (Archive.moveIntoLibrary routes avid videos dst priority).wp (inLibrary (breaksLate w)) Always (Late w) (LateError w) s := by
  unfold Archive.moveIntoLibrary
  rw [hown]
  refine (wp_bind _ _).2 (wp_mono hguard ?_ fun _ _ h => h)
  rintro held s' ⟨hs', ht⟩
  exact wp_ite (fun _ => ⟨rfl, ht⟩) fun _ => wp_fileTargets_late hs' ht

theorem wp_fileSelection_late
    (h : (Archive.moveIntoLibrary routes selection.avid selection.videos dst priority).wp (inLibrary (breaksLate w)) Always
      (Late w) (LateError w) s) :
    (fileSelection routes folder selection dst priority).wp (breaksLate w) Always
      (fun result s' => result.outcome ≠ .archived ∧ Touched w s'.state) (fun _ _ => True) s := by
  unfold fileSelection
  refine (wp_bind _ _).2 ((wp_attempt _).2 (wp_onLibrary (wp_mono h ?_ ?_)))
  · rintro _ s' ⟨rfl, ht⟩
    exact ⟨by simp, ht⟩
  · rintro e s' ht
    cases e with
    | runCancelled => trivial
    | _ => exact ⟨by simp, ht⟩

/-! ## A copy is dropped -/

/-- Nothing has failed yet, and the video is gone. -/
abbrev Gone (v : Video) (s : Tried) : Prop := s.failed = false ∧ v ∉ s.state.videos

theorem run_videos (w : FolderState) (op : FolderOp) : (w.run op).2.videos ⊆ w.videos := by
  cases op with
  | size => exact List.Subset.refl _
  | call op =>
    cases op with
    | moveIn =>
      simp only [FolderState.run]
      split
      · exact List.Subset.refl _
      · exact List.filter_subset_self _
    | outside op =>
      cases op with
      | ask q =>
        cases q with
        | unlink => exact List.filter_subset_self _
        | discard => exact List.nil_subset _
        | _ => exact List.Subset.refl _
      | _ => exact List.Subset.refl _
    | _ => exact List.Subset.refl _

theorem gone_step {v : Video} {op : FolderOp} {r : Except Exn op.Res} {s' : Tried} (hop : op.movesIn = false)
    (hs : Gone v s) (ht : breaksLate w s op r s') : Gone v s' := by
  obtain ⟨-, rfl⟩ := late_run (not_breaks hop) ht
  exact ⟨hs.1, fun hv => hs.2 (run_videos _ _ hv)⟩

/-- The guards rename nothing into the library from outside it. -/
theorem uses_guardRoutes :
    (Archive.guardRoutes routes avid own priority).Uses fun op => FolderOp.movesIn (.call op) = false := by
  have uses_matching : ∀ d, (Archive.matchingArchived avid d).Uses fun op => FolderOp.movesIn (.call op) = false :=
    fun d => uses_bind ((uses_call _).2 rfl) fun _ => uses_ite ((uses_call _).2 rfl) (uses_pure _)
  have uses_held : ∀ dsts, (Archive.heldBy avid own dsts).Uses fun op => FolderOp.movesIn (.call op) = false := by
    intro dsts
    induction dsts with
    | nil => trivial
    | cons dst dsts ih => exact uses_ite ih (uses_bind (uses_matching _) fun _ => uses_ite ih (uses_pure _))
  have uses_promote : ∀ source name, (Archive.promoteFile source own name).Uses
      fun op => FolderOp.movesIn (.call op) = false :=
    fun source name => uses_bind ((uses_call _).2 rfl) fun _ =>
      uses_ite (uses_pure _) (uses_bind ((uses_call _).2 rfl) fun _ => (uses_call _).2 rfl)
  unfold Archive.guardRoutes
  refine uses_ite (uses_pure _) (uses_ite (uses_bind (uses_forEach fun dst _ => ?_) fun _ => uses_pure _) (uses_held _))
  exact uses_ite (uses_pure _) (uses_bind (uses_matching _) fun _ => uses_forEach fun name _ => uses_promote _ name)

theorem wp_fileSelection_gone {v : Video} (hv : v ∈ w.videos) (hs : Gone v s) :
    (fileSelection routes folder selection dst priority).wp (breaksLate w) Always
      (fun result s' => result.outcome ≠ .archived ∧ Touched w s'.state) (fun _ _ => True) s := by
  have touched : ∀ {s' : Tried}, Gone v s' → Touched w s'.state := fun h => .inl ⟨v, hv, h.2⟩
  refine wp_fileSelection_late ?_
  cases hown : Archive.findDstDir routes selection.avid dst with
  | none =>
    unfold Archive.moveIntoLibrary
    rw [hown]
    exact ⟨rfl, touched hs⟩
  | some own =>
    have guarded : Keeps (inLibrary (breaksLate w)) Always (Gone v) (fun _ => Gone v)
        (Archive.guardRoutes routes selection.avid own priority) :=
      keeps_of_uses uses_guardRoutes (fun _ _ _ _ => trivial) fun _ _ _ _ hop => gone_step hop
    exact wp_moveIntoLibrary_late hown (wp_mono (guarded s hs) (fun _ _ h => ⟨h.1, touched h⟩) fun _ _ => touched)

/-- The copy is gone when the selection is decided. -/
theorem wp_inspectFolder_gone {v : Video} (hs : s = ⟨w, false⟩) (hdir : w.isDir = true) (hv : v ∈ w.videos)
    (hcopy : v ∉ arch.dropCopies w.videos) :
    (inspectFolder arch folder expected).wp (breaksLate w) Always
      (fun r s' => r = Archive.select arch.toArchiver folder.name w.videos expected ∧ Gone v s') (fun _ _ => True) s := by
  subst hs
  unfold inspectFolder selectVideos
  refine (wp_bind _ _).2 ((wp_attempt _).2 ((wp_bind _ _).2 (wp_look admits_late tolerates_late rfl ?_)))
  rintro _ ⟨⟩
  refine wp_ite (fun _ => ?_) fun hno => absurd hdir hno
  refine (wp_bind _ _).2 (wp_look admits_late tolerates_late rfl ?_)
  rintro _ ⟨⟩
  refine (wp_bind _ _).2 (wp_weigh admits_late tolerates_late ((wp_bind _ _).2 ?_))
  refine wp_foldEach (fun rest _ s' => s'.failed = false ∧ (v ∈ rest ∨ v ∉ s'.state.videos)) ?_ ?_ ⟨rfl, .inl ?_⟩
  · rintro v' rest ⟨⟩ s' ⟨hs', hrest⟩
    have unlinked : ∀ {r s''}, breaksLate w s' (.call (.outside (.ask (.unlink v'.path)))) r s'' →
        s''.failed = false ∧ (v ∈ rest ∨ v ∉ s''.state.videos) := by
      intro r s'' ht
      obtain ⟨-, rfl⟩ := late_run (not_breaks rfl) ht
      refine ⟨hs', ?_⟩
      rcases hrest with hmem | hgone
      · rcases List.mem_cons.1 hmem with rfl | hmem
        · exact .inr (by simp [FolderState.run])
        · exact .inl hmem
      · exact .inr fun hv => hgone (List.mem_of_mem_filter hv)
    exact (wp_discard _).2 ((wp_attempt _).2 ((wp_call _).2 ⟨trivial, fun _ _ => unlinked, fun _ _ => unlinked⟩))
  · rintro ⟨⟩ s' ⟨hs', hrest⟩
    have hgone : Gone v s' := ⟨hs', hrest.resolve_left List.not_mem_nil⟩
    exact (wp_bind _ _).2 (wp_weighAgain admits_late tolerates_late ⟨rfl, hgone⟩)
  · simpa using ⟨hv, hcopy⟩

/-! ## A file is taken over -/

/-- A name that is free is given to the file that stands elsewhere. -/
theorem wp_promoteFile_late {source : BrandDir} {name : String} {Q : Unit → Tried → Prop}
    (hsource : s.state.library.pathExists ⟨own, name⟩ = false → ⟨source, name⟩ ∈ s.state.library.files)
    (hthere : s.state.library.pathExists ⟨own, name⟩ = true → Q () s)
    (hmoved : ∀ s' : Tried, s'.failed = s.failed → s'.state.library.others = s.state.library.others →
      (∀ f, f ∈ s'.state.library.files ↔ f = ⟨own, name⟩ ∨ (f ∈ s.state.library.files ∧ f ≠ ⟨source, name⟩)) → Q () s') :
    (Archive.promoteFile source own name).wp (inLibrary (breaksLate w)) Always Q X s := by
  unfold Archive.promoteFile
  refine (wp_bind _ _).2 (wp_lookup admits_late tolerates_late rfl ?_)
  rintro b ⟨⟩
  refine wp_ite hthere fun hfree => ?_
  have hfree : s.state.library.pathExists ⟨own, name⟩ = false := by simpa using hfree
  have hother : ⟨own, name⟩ ∉ s.state.library.others := fun h => by
    rw [Library.pathExists_iff.2 (.inr h)] at hfree
    cases hfree
  refine (wp_bind _ _).2 (wp_answered (not_breaks rfl) rfl ?_)
  have hrun : ∀ w' : FolderState, ⟨source, name⟩ ∈ w'.library.files → ⟨own, name⟩ ∉ w'.library.others →
      w'.run (.call (.promote ⟨source, name⟩ ⟨own, name⟩)) =
        (.ok (), { w' with library := (w'.library.remove ⟨source, name⟩).add ⟨own, name⟩ }) := by
    intro w' hin hnot
    simp [FolderState.run, Library.run, hin, hnot]
  change Prog.wp _ _ _ _ _ (⟨s.state.made own, s.failed⟩ : Tried)
  refine wp_answered (not_breaks rfl) (hrun (s.state.made own) (hsource hfree) hother) ?_
  refine hmoved _ rfl rfl fun f => ?_
  simp [FolderState.made]

/-- The file that will be taken over is under its new name, or waits in a directory still to be looked through. -/
structure Awaited (w : FolderState) (own : BrandDir) (d name : String) (dsts : List String) (s : Tried) : Prop where
  sound : s.failed = false
  others : s.state.library.others = w.library.others
  file : ⟨own, name⟩ ∈ s.state.library.files ∨ (d ∈ dsts ∧ ⟨⟨d, own.brand⟩, name⟩ ∈ s.state.library.files)

/-- The same while the names of one directory are gone through. -/
structure Passed (w : FolderState) (own : BrandDir) (d name dst : String) (dsts names : List String) (s : Tried) : Prop where
  sound : s.failed = false
  others : s.state.library.others = w.library.others
  sources : ∀ n ∈ names, s.state.library.pathExists ⟨own, n⟩ = true ∨ ⟨⟨dst, own.brand⟩, n⟩ ∈ s.state.library.files
  file : ⟨own, name⟩ ∈ s.state.library.files ∨ (d = dst ∧ name ∈ names) ∨
    (d ≠ dst ∧ d ∈ dsts ∧ ⟨⟨d, own.brand⟩, name⟩ ∈ s.state.library.files)

theorem wp_pass {d name dst n : String} {dsts names : List String} (hfree : w.library.pathExists ⟨own, name⟩ = false)
    (hne : (⟨dst, own.brand⟩ : BrandDir) ≠ own) (h : Passed w own d name dst dsts (n :: names) s) :
    (Archive.promoteFile ⟨dst, own.brand⟩ own n).wp (inLibrary (breaksLate w)) Always
      (fun _ s' => Passed w own d name dst dsts names s') X s := by
  have hnew : ⟨own, name⟩ ∉ w.library.others := fun h => by
    rw [Library.pathExists_iff.2 (.inr h)] at hfree
    cases hfree
  refine wp_promoteFile_late ?_ ?_ ?_
  · intro hno
    exact (h.sources n List.mem_cons_self).resolve_left (by rw [hno]; exact Bool.false_ne_true)
  · intro hthere
    refine ⟨h.sound, h.others, fun m hm => h.sources m (List.mem_cons_of_mem _ hm), ?_⟩
    rcases h.file with hfile | ⟨rfl, hname⟩ | hlater
    · exact .inl hfile
    · rcases List.mem_cons.1 hname with rfl | hname
      · exact .inl ((Library.pathExists_iff.1 hthere).resolve_right (by rw [h.others]; exact hnew))
      · exact .inr (.inl ⟨rfl, hname⟩)
    · exact .inr (.inr hlater)
  · intro s' hsound hothers hfiles
    refine ⟨hsound.trans h.sound, hothers.trans h.others, fun m hm => ?_, ?_⟩
    · by_cases hmn : m = n
      · subst hmn
        exact .inl (Library.pathExists_iff.2 (.inl ((hfiles _).2 (.inl rfl))))
      · rcases h.sources m (List.mem_cons_of_mem _ hm) with hthere | hsource
        · left
          rw [Library.pathExists_iff, hothers]
          refine (Library.pathExists_iff.1 hthere).imp_left fun hin => (hfiles _).2 (.inr ⟨hin, ?_⟩)
          exact fun he => hne (congrArg LibraryFile.dir he).symm
        · exact .inr ((hfiles _).2 (.inr ⟨hsource, fun he => hmn (congrArg LibraryFile.name he)⟩))
    · rcases h.file with hfile | ⟨rfl, hname⟩ | ⟨hd, hmem, hsource⟩
      · exact .inl ((hfiles _).2 (.inr ⟨hfile, fun he => hne (congrArg LibraryFile.dir he).symm⟩))
      · rcases List.mem_cons.1 hname with rfl | hname
        · exact .inl ((hfiles _).2 (.inl rfl))
        · exact .inr (.inl ⟨rfl, hname⟩)
      · refine .inr (.inr ⟨hd, hmem, (hfiles _).2 (.inr ⟨hsource, fun he => hd ?_⟩)⟩)
        exact congrArg (fun f : LibraryFile => f.dir.dst) he

/-- A priority route that takes a file over leaves it under a name that was free. -/
theorem wp_promoteFromNormal_late {d name : String} (hs : s = ⟨w, false⟩) (hd : d ∈ Archive.destinations routes.mapping)
    (hne : (⟨d, own.brand⟩ : BrandDir) ≠ own) (hname : name ∈ w.library.matching avid ⟨d, own.brand⟩)
    (hfree : w.library.pathExists ⟨own, name⟩ = false) :
    (Archive.promoteFromNormal routes avid own).wp (inLibrary (breaksLate w)) Always
      (fun _ s' => s'.failed = false ∧ Touched w s'.state) X s := by
  subst hs
  obtain ⟨hfile, hb⟩ := Library.mem_matching.1 hname
  unfold Archive.promoteFromNormal
  refine wp_foldEach (fun dsts _ s' => Awaited w own d name dsts s') ?_ ?_ ⟨rfl, rfl, .inr ⟨hd, hfile⟩⟩
  · rintro dst dsts ⟨⟩ s' h
    refine wp_ite (fun he => ?_) fun hne' => (wp_bind _ _).2 (wp_matching admits_late tolerates_late ?_)
    · refine ⟨h.sound, h.others, h.file.imp_right fun ⟨hmem, hsource⟩ => ⟨?_, hsource⟩⟩
      exact (List.mem_cons.1 hmem).resolve_left fun hdd => hne (hdd ▸ he)
    · refine wp_foldEach (fun names _ s'' => Passed w own d name dst dsts names s'') ?_ ?_ ⟨h.sound, h.others, ?_, ?_⟩
      · rintro n names ⟨⟩ s'' h'
        exact wp_pass hfree hne' h'
      · rintro ⟨⟩ s'' h'
        refine ⟨h'.sound, h'.others, ?_⟩
        rcases h'.file with hin | ⟨-, hnil⟩ | ⟨-, hmem, hsource⟩
        · exact .inl hin
        · cases hnil
        · exact .inr ⟨hmem, hsource⟩
      · exact fun n hn => .inr (Library.mem_matching.1 hn).1
      · rcases h.file with hin | ⟨hmem, hsource⟩
        · exact .inl hin
        · by_cases hdd : d = dst
          · subst hdd
            exact .inr (.inl ⟨rfl, Library.mem_matching.2 ⟨hsource, hb⟩⟩)
          · exact .inr (.inr ⟨hdd, (List.mem_cons.1 hmem).resolve_left hdd, hsource⟩)
  · rintro ⟨⟩ s' h
    refine ⟨h.sound, .inr (.inl ⟨_, h.file.resolve_right fun hno => List.not_mem_nil hno.1, fun hin => ?_⟩)⟩
    rw [Library.pathExists_iff.2 (.inl hin)] at hfree
    cases hfree

/-! ## More than one change -/

/-- A new directory is a change, and so is each rename but the last. -/
theorem wp_fileTargets_first {ts : List (Video × LibraryFile)} (hs : s = ⟨w, false⟩)
    (hfree : ts.any (fun t => w.library.pathExists t.2) = false) (hmore : 1 < ts.length ∨ w.library.isDir own = false) :
    (Archive.fileTargets own ts).wp (inLibrary (breaksLate w)) Always (Late w) (LateError w) s := by
  subst hs
  unfold Archive.fileTargets
  refine (wp_bind _ _).2 (wp_taken admits_late tolerates_late (wp_ite (fun hany => ?_) fun _ => ?_))
  · rw [hfree] at hany
    cases hany
  refine (wp_bind _ _).2 (wp_answered (not_breaks rfl) rfl ?_)
  change Prog.wp _ _ _ _ _ (⟨w.made own, false⟩ : Tried)
  have finish : ∀ (_ : Unit) (s' : Tried), (ts = [] ∧ Touched w s'.state) →
      Late w (ts.map fun t => Archive.LibraryFile.display t.2) s' := by
    rintro ⟨⟩ s' ⟨rfl, ht⟩
    exact ⟨rfl, ht⟩
  by_cases ht : Touched w (w.made own)
  · exact (wp_bind _ _).2 (wp_mono (wp_moveIn_late rfl ht) finish fun _ _ h => h)
  -- the directory was there: the first rename goes through
  have hdir : w.library.isDir own = true := by
    by_contra hno
    exact ht (.inr (.inr ⟨own, by simp [FolderState.made, Library.isDir], by simpa using hno⟩))
  have hlen : 1 < ts.length := hmore.resolve_right (by rw [hdir]; exact Bool.noConfusion)
  obtain ⟨t, t', rest, rfl⟩ : ∃ t t' rest, ts = t :: t' :: rest := by
    cases ts with
    | nil => exact absurd hlen (Nat.not_lt_zero 1)
    | cons t ts =>
      cases ts with
      | nil => exact absurd hlen (Nat.lt_irrefl 1)
      | cons t' rest => exact ⟨t, t', rest, rfl⟩
  have hnew := List.any_eq_false.1 hfree t List.mem_cons_self
  have hother : t.2 ∉ w.library.others := fun h => hnew (Library.pathExists_iff.2 (.inr h))
  have hrun : (w.made own).run (.call (.moveIn t.1 t.2)) = (.ok (), { w.made own with
      videos := (w.made own).videos.filter (·.path ≠ t.1.path), library := (w.made own).library.add t.2 }) := if_neg hother
  have moved : Touched w { w.made own with
      videos := (w.made own).videos.filter (·.path ≠ t.1.path), library := (w.made own).library.add t.2 } :=
    .inr (.inl ⟨t.2, Library.mem_add.2 (.inl rfl), fun h => hnew (Library.pathExists_iff.2 (.inl h))⟩)
  refine (wp_bind _ _).2 ((wp_forEach_cons _ _).2 (wp_answered (fun hb => ht hb.2.2) hrun ?_))
  refine wp_mono (wp_moveIn_late rfl moved) ?_ fun _ _ h => h
  rintro _ _ ⟨hnil, -⟩
  cases hnil

/-- What is not one rename is touched before the last one. -/
theorem wp_fileSelection_first (hs : s = ⟨w, false⟩) (hmany : ¬OneRename routes w.library selection dst priority) :
    (fileSelection routes folder selection dst priority).wp (breaksLate w) Always
      (fun result s' => result.outcome ≠ .archived ∧ Touched w s'.state) (fun _ _ => True) s := by
  subst hs
  refine wp_fileSelection_late ?_
  by_cases htakes : TakesOver routes w.library selection.avid dst priority
  · obtain ⟨own, hown, hr, hp, d, hd, hne, name, hname, hfree⟩ := htakes
    refine wp_moveIntoLibrary_late hown ?_
    unfold Archive.guardRoutes
    refine wp_ite (fun hr' => ?_) fun _ => wp_ite (fun _ => ?_) fun hnot => absurd hp hnot
    · rw [hr] at hr'
      cases hr'
    · exact (wp_bind _ _).2 (wp_promoteFromNormal_late rfl hd hne hname hfree)
  have hmany : ¬(Archive.refuses routes w.library selection.avid selection.videos dst priority = true ∨
      (selection.videos.length ≤ 1 ∧
        ∀ own, Archive.findDstDir routes selection.avid dst = some own → w.library.isDir own = true)) :=
    fun h => hmany ⟨htakes, h⟩
  obtain ⟨hno, hmore⟩ := not_or.1 hmany
  cases hown : Archive.findDstDir routes selection.avid dst with
  | none => exact absurd (by simp [Archive.refuses, hown]) hno
  | some own =>
    have hno' : Archive.refuses routes w.library selection.avid selection.videos dst priority = _ :=
      refuses_of_not_takesOver hown htakes
    rw [Bool.eq_false_iff.2 hno] at hno'
    obtain ⟨hheld, hfree⟩ := Bool.or_eq_false_iff.1 hno'.symm
    unfold Archive.moveIntoLibrary
    rw [hown]
    refine (wp_bind _ _).2 (wp_guardRoutes_idle admits_late tolerates_late hown htakes ?_)
    refine wp_ite (fun hh => ?_) fun _ => wp_fileTargets_first rfl hfree ?_
    · exact absurd hh (by rw [hheld]; exact Bool.noConfusion)
    · rw [targets_length]
      by_contra hfew
      obtain ⟨hlen, hdir⟩ := not_or.1 hfew
      refine hmore ⟨Nat.le_of_not_lt hlen, fun own' hown' => ?_⟩
      rw [hown] at hown'
      cases hown'
      simpa using hdir

theorem wp_archiveFolder_first (hs : s = ⟨w, false⟩)
    (hmany : ¬FiledByOneRename arch routes folder dst priority expected w) :
    (archiveFolder arch routes folder dst priority expected).wp (breaksLate w) Always
      (fun result s' => result.outcome ≠ .archived ∧ Touched w s'.state) (fun _ _ => True) s := by
  obtain ⟨hdir, hsome⟩ := Classical.not_imp.1 hmany
  unfold archiveFolder
  by_cases hcopies : ∀ v ∈ w.videos, v ∈ arch.dropCopies w.videos
  · subst hs
    obtain ⟨selection, hsel⟩ := not_forall.1 fun h => hsome ⟨hcopies, h⟩
    obtain ⟨hsel, hmany⟩ := Classical.not_imp.1 hsel
    have inspected : (inspectFolder arch folder expected).wp (breaksLate w) Always
        (fun r s' => r = .ok selection ∧ s' = ⟨w, false⟩) (fun _ _ => False) ⟨w, false⟩ :=
      wp_inspectFolder admits_late tolerates_late (fun _ => hcopies)
        (fun hno => absurd hdir (by rw [hno]; exact Bool.noConfusion)) fun _ => ⟨hsel, rfl⟩
    refine (wp_bind _ _).2 (wp_mono inspected ?_ fun _ _ h => h.elim)
    rintro _ s' ⟨rfl, rfl⟩
    exact wp_fileSelection_first rfl hmany
  · obtain ⟨v, hv⟩ := not_forall.1 hcopies
    obtain ⟨hv, hcopy⟩ := Classical.not_imp.1 hv
    refine (wp_bind _ _).2 (wp_mono (wp_inspectFolder_gone hs hdir hv hcopy) ?_ fun _ _ _ => trivial)
    rintro r s' ⟨hr, hgone⟩
    cases r with
    | error result => exact ⟨Archive.select_error hr.symm, .inl ⟨v, hv, hgone.2⟩⟩
    | ok selection => exact wp_fileSelection_gone hv hgone

/-! ## The condition -/

/-- Whatever one call fails, a folder is filed as a whole or not at all exactly where filing it is one rename. -/
theorem filed_whole_iff (arch : Arranger) (routes : LibraryRoutes) (folder : Folder) (dst : String) (priority : Bool)
    (expected : Avid) (w : FolderState) :
    (∀ out s', Runs oneFails ⟨w, false⟩ (archiveFolder arch routes folder dst priority expected) out s' →
        AllOrNothing routes (Archive.select arch.toArchiver folder.name w.videos expected) dst w s'.state out) ↔
      FiledByOneRename arch routes folder dst priority expected w := by
  constructor
  · intro h
    by_contra hmany
    obtain ⟨out, s', hrun⟩ := exists_runs late_answers (archiveFolder arch routes folder dst priority expected)
      (⟨w, false⟩ : Tried)
    obtain ⟨result, rfl, hwhole⟩ := h out s' (hrun.mono fun _ _ _ _ ht => oneFails_of_late (w := w) ht)
    obtain ⟨hne, htouched⟩ := wp_runs_ok (wp_archiveFolder_first rfl hmany) hrun
    rcases hwhole with ⟨harchived, -⟩ | ⟨-, hsame⟩
    · exact hne harchived
    · exact htouched.not_same hsame
  · intro hone out s' hrun
    have hwp := wp_runs (wp_archiveFolder_once rfl hone) hrun
    cases out with
    | ok result => exact ⟨result, rfl, hwp.1 result rfl⟩
    | error e => exact (hwp.2 e rfl).elim

end late

/-! ## Runs on a given folder -/

namespace FolderExample

def arch : Arranger :=
  { Parts.pipeline (fun c => [c.toLower]) fun _ => "ABC-123" with weighed := weighedRips fun c => [c.toLower] }

def folder : Folder := ⟨"intake/abc-123", "abc-123"⟩

def part (name : String) (size : Nat) : Video := ⟨"intake/abc-123/" ++ name, name, size⟩

def empty : Library := { files := [] }

/-- Two parts of one video. -/
def parts : FolderState := ⟨true, [part "ABC-123-1.mp4" 900, part "ABC-123-2.mp4" 800], empty⟩

/-- A video, a copy of it and one that is no part of it. -/
def copied : FolderState :=
  ⟨true, [part "ABC-123.mp4" 900, part "ABC-123 (1).mp4" 900, part "trailer.mp4" 700], empty⟩

/-- The rename to this name fails. -/
def renameFails (name : String) (s : Tried) : (op : FolderOp) → Except Exn op.Res × Tried
  | .call (.moveIn video target) =>
    if s.failed = false ∧ target.name = name then (.error (.failure ""), ⟨s.state, true⟩)
    else ((s.state.run (.call (.moveIn video target))).1, ⟨(s.state.run (.call (.moveIn video target))).2, s.failed⟩)
  | op => ((s.state.run op).1, ⟨(s.state.run op).2, s.failed⟩)

theorem renameFails_oneFails (name : String) (s : Tried) (op : FolderOp) :
    oneFails s op (renameFails name s op).1 (renameFails name s op).2 := by
  cases op with
  | size => exact .inl ⟨rfl, rfl⟩
  | call op =>
    cases op with
    | moveIn video target =>
      by_cases h : s.failed = false ∧ target.name = name
      · simp only [renameFails, if_pos h]
        exact .inr ⟨h.1, trivial, rfl, rfl, _, rfl, trivial⟩
      · simp only [renameFails, if_neg h]
        exact .inl ⟨rfl, rfl⟩
    | _ => exact .inl ⟨rfl, rfl⟩

def filed (name : String) (w : FolderState) : Except Exn ArchiveResult × Tried :=
  (archiveFolder arch LibraryExample.routes folder "sorted" false "").exec (renameFails name) ⟨w, false⟩

end FolderExample

open FolderExample in
/-- The second of two renames fails: the first part is in the library, and the second in the folder. -/
theorem parts_torn_apart :
    ¬∀ (arch : Arranger) (routes : LibraryRoutes) (folder : Folder) (dst : String) (priority : Bool) (expected : Avid)
      (w : FolderState) (out : Except Exn ArchiveResult) (s' : Tried),
      Runs oneFails ⟨w, false⟩ (archiveFolder arch routes folder dst priority expected) out s' →
        AllOrNothing routes (Archive.select arch.toArchiver folder.name w.videos expected) dst w s'.state out := by
  intro h
  obtain ⟨result, hout, hwhole⟩ := h arch LibraryExample.routes folder "sorted" false "" parts _ _
    (exec_runs (renameFails_oneFails "ABC-123-cd2.mp4") _ _)
  change (filed "ABC-123-cd2.mp4" parts).1 = _ at hout
  have hfailed : (filed "ABC-123-cd2.mp4" parts).1 = .ok { outcome := .failed, avid := "ABC-123" } := by decide
  rw [hfailed] at hout
  cases hout
  rcases hwhole with ⟨harchived, -⟩ | ⟨-, hsame⟩
  · cases harchived
  · have hmoved : (filed "ABC-123-cd2.mp4" parts).2.state.library.files = [⟨⟨"sorted", "ABC"⟩, "ABC-123-cd1.mp4"⟩] := by
      decide
    have hin : (⟨⟨"sorted", "ABC"⟩, "ABC-123-cd1.mp4"⟩ : LibraryFile) ∈
        (filed "ABC-123-cd2.mp4" parts).2.state.library.files := by
      rw [hmoved]
      exact List.mem_singleton_self _
    exact List.not_mem_nil ((hsame.files _).1 hin)

/-- Tried again, the part that is left is taken for the whole video. -/
example : (FolderExample.filed "" (FolderExample.filed "ABC-123-cd2.mp4" FolderExample.parts).2.state).1 =
    .ok { outcome := .archived, avid := "ABC-123", archivedPaths := ["sorted/ABC/ABC-123.mp4"] } := by decide

/-- No call fails: the folder is left for an operator, without the copy that was in it. -/
example : (FolderExample.filed "" FolderExample.copied).1 =
      .ok { outcome := .needsAttention, avid := "ABC-123", reason := "several unrelated videos in one folder" } ∧
    (FolderExample.filed "" FolderExample.copied).2.state.videos =
      [FolderExample.part "ABC-123.mp4" 900, FolderExample.part "trailer.mp4" 700] := by decide

end EmbyxManager.FolderFiling
