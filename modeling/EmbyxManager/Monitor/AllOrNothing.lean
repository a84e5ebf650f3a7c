import EmbyxManager.Monitor.FolderFiling
/-!
# All of a folder or nothing

`archive_folder` in a world where at most one call fails. A run that archives has every
video under its target. One that does not may have deleted a copy, taken a file over from a
normal route, made a brand's directory or moved the first parts in by then: nothing is taken
back. So a folder is filed as a whole whatever call fails only where none of that comes before
the one rename there is.
-/

namespace EmbyxManager.FolderFiling
open Atom Prog

/-! ## The folder and the library -/

structure FolderState where
  isDir : Bool
  /-- What the folder holds above the size threshold. -/
  videos : List Video
  library : Library

namespace FolderState

/-- What a call answers and leaves when it does not fail. -/
def run (w : FolderState) : (op : FolderOp) → Except Exn op.Res × FolderState
  | .size _ => (.ok (), w)
  | .call (.outside (.ask (.isDir _))) => (.ok w.isDir, w)
  | .call (.outside (.ask (.largeVideos _))) => (.ok w.videos, w)
  | .call (.outside (.ask (.unlink path))) => (.ok (), { w with videos := w.videos.filter (·.path ≠ path) })
  | .call (.outside (.ask (.discard _))) => (.ok (), { w with isDir := false, videos := [] })
  | .call (.moveIn video target) =>
    if target ∈ w.library.others then (.error (.failure "is a directory"), w)
    else (.ok (), { w with videos := w.videos.filter (·.path ≠ video.path), library := w.library.add target })
  | .call op => ((w.library.run op).1, { w with library := (w.library.run op).2 })

/-- The folder holds the same videos, the library the same files and directories. -/
structure Same (w w' : FolderState) : Prop where
  videos : ∀ v, v ∈ w'.videos ↔ v ∈ w.videos
  files : ∀ f, f ∈ w'.library.files ↔ f ∈ w.library.files
  others : ∀ f, f ∈ w'.library.others ↔ f ∈ w.library.others
  dirs : ∀ d, w'.library.isDir d = w.library.isDir d

theorem Same.refl (w : FolderState) : w.Same w := ⟨fun _ => .rfl, fun _ => .rfl, fun _ => .rfl, fun _ => rfl⟩

end FolderState

/-- A run so far. -/
structure Tried where
  state : FolderState
  failed : Bool

/-- One call at most fails, of those that may, and then does nothing. -/
def fails (may : FolderState → FolderOp → Prop) : Env FolderOp.Res Exn Tried := fun s op r s' =>
  ((r, s'.state) = s.state.run op ∧ s'.failed = s.failed) ∨
    (s.failed = false ∧ may s.state op ∧ s'.failed = true ∧ s'.state = s.state ∧ ∃ e : Exn, r = .error e ∧ e.External)

/-- Any one call may fail. -/
abbrev oneFails : Env FolderOp.Res Exn Tried := fails fun _ _ => True

/-! ## What is claimed of a run -/

/-- Archived with every video under its target, or not archived and nothing has changed. -/
def Whole (routes : LibraryRoutes) (selected : Except ArchiveResult VideoSet) (dst : String) (w w' : FolderState)
    (result : ArchiveResult) : Prop :=
  (result.outcome = .archived ∧ ∃ s own, selected = .ok s ∧ Archive.findDstDir routes s.avid dst = some own ∧
      ∀ t ∈ Archive.targets s.avid s.videos own, t.2 ∈ w'.library.files) ∨
    (result.outcome ≠ .archived ∧ w.Same w')

/-- The call returns, and the folder is filed as a whole or not at all. -/
def AllOrNothing (routes : LibraryRoutes) (selected : Except ArchiveResult VideoSet) (dst : String) (w w' : FolderState)
    (out : Except Exn ArchiveResult) : Prop :=
  ∃ result, out = .ok result ∧ Whole routes selected dst w w' result

/-- A priority route takes a file over from a normal one: its name is free in the directory of the brand. -/
def TakesOver (routes : LibraryRoutes) (L : Library) (avid : Avid) (dst : String) (priority : Bool) : Prop :=
  ∃ own, Archive.findDstDir routes avid dst = some own ∧ Archive.brandRouted routes own.brand = false ∧ priority = true ∧
    ∃ d ∈ Archive.destinations routes.mapping, ⟨d, own.brand⟩ ≠ own ∧
      ∃ name ∈ L.matching avid ⟨d, own.brand⟩, L.pathExists ⟨own, name⟩ = false

/-- Filing the selection changes nothing before its one rename: nothing is taken over, and the
selection is refused, or is one video at most and goes into a directory that is there. -/
def OneRename (routes : LibraryRoutes) (L : Library) (s : VideoSet) (dst : String) (priority : Bool) : Prop :=
  ¬ TakesOver routes L s.avid dst priority ∧
    (Archive.refuses routes L s.avid s.videos dst priority = true ∨
      (s.videos.length ≤ 1 ∧ ∀ own, Archive.findDstDir routes s.avid dst = some own → L.isDir own = true))

/-- No copy is dropped, and what is selected is filed by one rename. -/
def FiledByOneRename (arch : Arranger) (routes : LibraryRoutes) (folder : Folder) (dst : String) (priority : Bool)
    (expected : Avid) (w : FolderState) : Prop :=
  w.isDir = true → (∀ v ∈ w.videos, v ∈ arch.dropCopies w.videos) ∧
    ∀ s, Archive.select arch.toArchiver folder.name w.videos expected = .ok s → OneRename routes w.library s dst priority

/-! ## Looks -/

/-- Calls that change nothing and are always answered. -/
def FolderOp.looks : FolderOp → Bool
  | .size _ | .call (.isDir _) | .call (.listMatching ..) | .call (.pathExists _) | .call (.outside (.ask (.isDir _)))
  | .call (.outside (.ask (.largeVideos _))) => true
  | _ => false

theorem run_of_looks {op : FolderOp} (w : FolderState) (hop : op.looks = true) :
    (w.run op).2 = w ∧ ∃ a, (w.run op).1 = .ok a := by
  cases op with
  | size v => exact ⟨rfl, (), rfl⟩
  | call op =>
    cases op with
    | isDir | listMatching | pathExists => exact ⟨rfl, _, rfl⟩
    | outside op =>
      cases op with
      | ask q =>
        cases q with
        | isDir | largeVideos => exact ⟨rfl, _, rfl⟩
        | _ => cases hop
      | _ => cases hop
    | _ => cases hop

/-- A world in which looks are looks, and only these calls may fail. -/
abbrev Admits (T : Env FolderOp.Res Exn Tried) (may : FolderState → FolderOp → Prop) : Prop :=
  ∀ s op r s', T s op r s' → fails may s op r s'

/-- What a failed look leads to. -/
def Tolerates (may : FolderState → FolderOp → Prop) (X : Exn → Tried → Prop) (w : FolderState) : Prop :=
  ∀ op e s', FolderOp.looks op = true → may w op → e.External → s'.state = w → X e s'

/-- The world as a program on the library meets it. -/
abbrev inLibrary (T : Env FolderOp.Res Exn Tried) : Env LibraryOp.Res Exn Tried := fun s op r s' => T s (.call op) r s'

abbrev Always {σ Op : Type} : σ → Op → Prop := fun _ _ => True

section looks
variable {T : Env FolderOp.Res Exn Tried} {may : FolderState → FolderOp → Prop} {X : Exn → Tried → Prop} {s : Tried}
  {avid : Avid} {d own : BrandDir} {routes : LibraryRoutes}

theorem wp_onLibrary {α : Type} {p : LibraryM α} {Q : α → Tried → Prop} (h : p.wp (inLibrary T) Always Q X s) :
    (onLibrary p).wp T Always Q X s := by
  refine wp_handle (T := inLibrary T) (fun s op _ => ?_) h
  exact (wp_call _).2 ⟨trivial, fun a s' ht => ht, fun e s' ht => ht⟩

theorem look_answers (hT : Admits T may) (hX : Tolerates may X s.state) {op : FolderOp} (hop : op.looks = true)
    {r : Except Exn op.Res} {s' : Tried} (ht : T s op r s') :
    (r = (s.state.run op).1 ∧ s' = s) ∨ ∃ e, r = .error e ∧ X e s' := by
  rcases hT _ _ _ _ ht with ⟨hrun, hfailed⟩ | ⟨-, hmay, -, hstate, e, rfl, he⟩
  · have hr : r = (s.state.run op).1 := congrArg Prod.fst hrun
    have hw : s'.state = (s.state.run op).2 := congrArg Prod.snd hrun
    rw [(run_of_looks s.state hop).1] at hw
    obtain ⟨w, b⟩ := s
    obtain ⟨w', b'⟩ := s'
    obtain rfl : w' = w := hw
    obtain rfl : b' = b := hfailed
    exact .inl ⟨hr, rfl⟩
  · exact .inr ⟨e, rfl, hX op e s' hop hmay he hstate⟩

theorem wp_look (hT : Admits T may) (hX : Tolerates may X s.state) {op : FolderOp} (hop : op.looks = true)
    {Q : op.Res → Tried → Prop} (hQ : ∀ a, (s.state.run op).1 = .ok a → Q a s) :
    (Prog.call op : FolderM op.Res).wp T Always Q X s := by
  refine (wp_call _).2 ⟨trivial, fun a s' ht => ?_, fun e s' ht => ?_⟩
  · rcases look_answers hT hX hop ht with ⟨hr, rfl⟩ | ⟨e, he, -⟩
    · exact hQ a hr.symm
    · cases he
  · rcases look_answers hT hX hop ht with ⟨hr, -⟩ | ⟨e', he, hXe⟩
    · obtain ⟨a, ha⟩ := (run_of_looks s.state hop).2
      rw [ha] at hr
      cases hr
    · cases he
      exact hXe

/-- The same of a call within a program on the library. -/
theorem wp_lookup (hT : Admits T may) (hX : Tolerates may X s.state) {op : LibraryOp}
    (hop : FolderOp.looks (.call op) = true) {Q : op.Res → Tried → Prop}
    (hQ : ∀ a, (s.state.run (.call op)).1 = .ok a → Q a s) : (Prog.call op : LibraryM op.Res).wp (inLibrary T) Always Q X s := by
  refine (wp_call _).2 ⟨trivial, fun a s' ht => ?_, fun e s' ht => ?_⟩
  · rcases look_answers hT hX hop ht with ⟨hr, rfl⟩ | ⟨e, he, -⟩
    · exact hQ a hr.symm
    · cases he
  · rcases look_answers hT hX hop ht with ⟨hr, -⟩ | ⟨e', he, hXe⟩
    · obtain ⟨a, ha⟩ := (run_of_looks s.state hop).2
      rw [ha] at hr
      cases hr
    · cases he
      exact hXe

theorem wp_matching (hT : Admits T may) (hX : Tolerates may X s.state) {Q : List String → Tried → Prop}
    (h : Q (s.state.library.matching avid d) s) : (Archive.matchingArchived avid d).wp (inLibrary T) Always Q X s := by
  refine (wp_bind _ _).2 (wp_lookup hT hX rfl ?_)
  rintro b ⟨⟩
  refine wp_ite (fun _ => wp_lookup hT hX rfl ?_) fun hd => ?_
  · rintro names ⟨⟩
    exact h
  · rwa [Library.matching_of_not_isDir (by simpa using hd)] at h

theorem wp_held (hT : Admits T may) (hX : Tolerates may X s.state) {Q : Bool → Tried → Prop} {dsts : List String}
    (h : Q (decide (∃ dst ∈ dsts, ⟨dst, own.brand⟩ ≠ own ∧ s.state.library.matching avid ⟨dst, own.brand⟩ ≠ [])) s) :
    (Archive.heldBy avid own dsts).wp (inLibrary T) Always Q X s := by
  induction dsts with
  | nil =>
    simp only [List.not_mem_nil, false_and, exists_false, decide_false] at h
    exact h
  | cons dst dsts ih =>
    rw [Archive.heldBy]
    refine wp_ite (fun he => ih ?_) fun hne => (wp_bind _ _).2 (wp_matching hT hX ?_)
    · simpa [he] using h
    · refine wp_ite (fun hnil => ih ?_) fun hsome => ?_
      · simpa [hnil] using h
      · simpa [hne, hsome] using h

theorem wp_taken (hT : Admits T may) (hX : Tolerates may X s.state) {Q : Bool → Tried → Prop} {ts : List (Video × LibraryFile)}
    (h : Q (ts.any fun t => s.state.library.pathExists t.2) s) : (Archive.anyExists ts).wp (inLibrary T) Always Q X s := by
  induction ts with
  | nil => exact h
  | cons t ts ih =>
    rw [Archive.anyExists]
    refine (wp_bind _ _).2 (wp_lookup hT hX rfl ?_)
    rintro b ⟨⟩
    refine wp_ite (fun ht => ?_) fun hf => ih ?_
    · rw [List.any_cons, ht] at h
      exact h
    · rw [List.any_cons, Bool.eq_false_iff.2 hf] at h
      exact h

/-- Where every name is taken, a priority route takes nothing over. -/
theorem wp_promote_nothing (hT : Admits T may) (hX : Tolerates may X s.state) {Q : Unit → Tried → Prop} (h : Q () s)
    (hnone : ∀ dst ∈ Archive.destinations routes.mapping, ⟨dst, own.brand⟩ ≠ own →
      ∀ name ∈ s.state.library.matching avid ⟨dst, own.brand⟩, s.state.library.pathExists ⟨own, name⟩ = true) :
    (Archive.promoteFromNormal routes avid own).wp (inLibrary T) Always Q X s := by
  unfold Archive.promoteFromNormal
  refine wp_foldEach (fun dsts _ s' => dsts ⊆ Archive.destinations routes.mapping ∧ s = s') ?_ ?_ ⟨fun _ h => h, rfl⟩
  · rintro dst dsts ⟨⟩ _ ⟨hsub, rfl⟩
    have hdst := hsub List.mem_cons_self
    have hsub' : dsts ⊆ Archive.destinations routes.mapping := fun _ h => hsub (List.mem_cons_of_mem _ h)
    refine wp_ite (fun _ => ⟨hsub', rfl⟩) fun hne => (wp_bind _ _).2 (wp_matching hT hX ?_)
    refine wp_foldEach (fun names _ s' => names ⊆ s.state.library.matching avid ⟨dst, own.brand⟩ ∧
      dsts ⊆ Archive.destinations routes.mapping ∧ s = s') ?_ (fun _ _ h => h.2) ⟨fun _ h => h, hsub', rfl⟩
    rintro name names ⟨⟩ _ ⟨hsubn, -, rfl⟩
    unfold Archive.promoteFile
    refine (wp_bind _ _).2 (wp_lookup hT hX rfl ?_)
    rintro b ⟨⟩
    refine wp_ite (fun _ => ⟨fun _ h => hsubn (List.mem_cons_of_mem _ h), hsub', rfl⟩) fun hfree => ?_
    exact absurd (hnone dst hdst hne name (hsubn List.mem_cons_self)) hfree
  · rintro ⟨⟩ _ ⟨-, rfl⟩
    exact h

/-- What is promotable has a name that is taken. -/
theorem taken_of_not_takesOver {L : Library} {dst : String} {priority : Bool}
    (hown : Archive.findDstDir routes avid dst = some own) (hkeeps : ¬TakesOver routes L avid dst priority)
    (hr : Archive.brandRouted routes own.brand = false) (hp : priority = true) :
    ∀ d ∈ Archive.destinations routes.mapping, ⟨d, own.brand⟩ ≠ own →
      ∀ name ∈ L.matching avid ⟨d, own.brand⟩, L.pathExists ⟨own, name⟩ = true := by
  intro d hd hne name hn
  by_contra hfree
  exact hkeeps ⟨own, hown, hr, hp, d, hd, hne, name, hn, by simpa using hfree⟩

/-- Where nothing is taken over the guards only look. -/
theorem wp_guardRoutes_idle (hT : Admits T may) (hX : Tolerates may X s.state) {dst : String} {priority : Bool}
    {Q : Bool → Tried → Prop} (hown : Archive.findDstDir routes avid dst = some own)
    (hkeeps : ¬TakesOver routes s.state.library avid dst priority)
    (h : Q (!Archive.brandRouted routes own.brand && !priority && Archive.heldElsewhere routes s.state.library own avid) s) :
    (Archive.guardRoutes routes avid own priority).wp (inLibrary T) Always Q X s := by
  unfold Archive.guardRoutes
  refine wp_ite (fun hr => ?_) fun hr => wp_ite (fun hp => ?_) fun hp => wp_held hT hX ?_
  · simpa [hr] using h
  · have taken := taken_of_not_takesOver hown hkeeps (by simpa using hr) hp
    refine (wp_bind _ _).2 (wp_promote_nothing hT hX ?_ taken)
    simpa [hr, hp] using h
  · simpa [hr, hp, Archive.heldElsewhere] using h

theorem refuses_of_not_takesOver {L : Library} {videos : List Video} {dst : String} {priority : Bool}
    (hown : Archive.findDstDir routes avid dst = some own) (hkeeps : ¬TakesOver routes L avid dst priority) :
    Archive.refuses routes L avid videos dst priority =
      ((!Archive.brandRouted routes own.brand && !priority && Archive.heldElsewhere routes L own avid) ||
        (Archive.targets avid videos own).any fun t => L.pathExists t.2) := by
  have already : (Archive.targets avid videos own).any (fun t => L.pathExists t.2 ||
        (!Archive.brandRouted routes own.brand && priority && Archive.promotable routes L own avid t.2.name)) =
      (Archive.targets avid videos own).any fun t => L.pathExists t.2 := by
    apply Bool.eq_iff_iff.2
    rw [List.any_eq_true, List.any_eq_true]
    refine exists_congr fun t => and_congr_right fun ht => ?_
    cases hr : Archive.brandRouted routes own.brand with
    | true => simp
    | false =>
      cases hp : priority with
      | false => simp
      | true =>
        cases hpromo : Archive.promotable routes L own avid t.2.name with
        | false => simp
        | true =>
          obtain ⟨d, hd, hne, hn⟩ := promotable_iff.1 hpromo
          have hexists := taken_of_not_takesOver hown hkeeps hr hp d hd hne _ hn
          rw [← target_eq ht] at hexists
          simp [hexists]
  unfold Archive.refuses
  rw [hown]
  dsimp only
  rw [already]

theorem wp_weigh (hT : Admits T may) (hX : Tolerates may X s.state) {Q : Unit → Tried → Prop} {videos : List Video}
    (h : Q () s) : (weigh videos).wp T Always Q X s := by
  unfold weigh
  refine wp_foldEach (fun _ _ s' => s' = s) ?_ ?_ rfl
  · rintro v vs ⟨⟩ _ rfl
    exact wp_look hT hX rfl fun _ _ => rfl
  · rintro ⟨⟩ _ rfl
    exact h

theorem wp_weighAgain (hT : Admits T may) (hX : Tolerates may X s.state) {Q : Unit → Tried → Prop} {arch : Arranger}
    {folder : Folder} {kept : List Video} {expected : Avid} (h : Q () s) :
    (weighAgain arch folder kept expected).wp T Always Q X s := by
  unfold weighAgain
  split
  · exact h
  · exact wp_ite (fun _ => h) fun _ => wp_weigh hT hX h

/-- Without a copy to drop, inspecting only looks. -/
theorem wp_inspectFolder {arch : Arranger} {folder : Folder} {expected : Avid}
    {Q : Except ArchiveResult VideoSet → Tried → Prop} (hT : Admits T may)
    (hX : Tolerates may (fun e s' => e.External ∧ ∀ result : ArchiveResult, result.outcome ≠ .archived → Q (.error result) s')
      s.state)
    (hcopies : s.state.isDir = true → ∀ v ∈ s.state.videos, v ∈ arch.dropCopies s.state.videos)
    (hno : s.state.isDir = false → ∀ result : ArchiveResult, result.outcome ≠ .archived → Q (.error result) s)
    (h : s.state.isDir = true → Q (Archive.select arch.toArchiver folder.name s.state.videos expected) s) :
    (inspectFolder arch folder expected).wp T Always Q (fun _ _ => False) s := by
  have selected : (selectVideos arch folder expected).wp T Always Q
      (fun e s' => e.External ∧ ∀ result : ArchiveResult, result.outcome ≠ .archived → Q (.error result) s') s := by
    unfold selectVideos
    refine (wp_bind _ _).2 (wp_look hT hX rfl ?_)
    intro b hb
    obtain rfl : s.state.isDir = b := Except.ok.inj hb
    refine wp_ite (fun hdir => ?_) fun hdir => hno (by simpa using hdir) _ (by simp)
    refine (wp_bind _ _).2 (wp_look hT hX rfl ?_)
    intro videos hv
    obtain rfl : s.state.videos = videos := Except.ok.inj hv
    have none_dropped : s.state.videos.filter (· ∉ arch.dropCopies s.state.videos) = [] := by
      rw [List.filter_eq_nil_iff]
      intro v hv
      simpa using hcopies hdir v hv
    rw [none_dropped]
    refine (wp_bind _ _).2 (wp_weigh hT hX ((wp_bind _ _).2 ((wp_pure _).2 ?_)))
    exact (wp_bind _ _).2 (wp_weighAgain hT hX (h hdir))
  unfold inspectFolder
  refine (wp_bind _ _).2 ((wp_attempt _).2 (wp_mono selected (fun r s' h => h) ?_))
  rintro e s' ⟨hext, hfailed⟩
  cases e with
  | runCancelled => exact hext.elim
  | _ => exact hfailed _ (by simp)

end looks

/-! ## One rename -/

section once
variable {arch : Arranger} {routes : LibraryRoutes} {folder : Folder} {dst : String} {priority : Bool} {expected : Avid}
  {w : FolderState} {s : Tried} {selection : VideoSet} {own : BrandDir}

/-- The call has failed, and nothing has changed. -/
abbrev Unchanged (w : FolderState) : Exn → Tried → Prop := fun e s' => e.External ∧ w.Same s'.state

theorem tolerates_unchanged {w₁ : FolderState} (h : w.Same w₁) : Tolerates (fun _ _ => True) (Unchanged w) w₁ := by
  rintro op e s' - - he rfl
  exact ⟨he, h⟩

theorem admits_oneFails : Admits oneFails fun _ _ => True := fun _ _ _ _ ht => ht

/-- One video at most: moved in, or nothing has changed. -/
theorem wp_moveIn_once {ts : List (Video × LibraryFile)} (hone : ts.length ≤ 1)
    (hfree : ∀ t ∈ ts, t.2 ∉ s.state.library.others) (hs : w.Same s.state) :
    (Prog.forEach ts fun t => Prog.call (LibraryOp.moveIn t.1 t.2) : LibraryM Unit).wp (inLibrary oneFails) Always
      (fun _ s' => (ts = [] ∧ w.Same s'.state) ∨ (ts ≠ [] ∧ ∀ t ∈ ts, t.2 ∈ s'.state.library.files)) (Unchanged w) s := by
  cases ts with
  | nil => exact .inl ⟨rfl, hs⟩
  | cons t ts =>
    obtain rfl : ts = [] := by
      cases ts with
      | nil => rfl
      | cons t' ts =>
        simp only [List.length_cons] at hone
        omega
    have hrun : s.state.run (.call (.moveIn t.1 t.2)) = (.ok (), { s.state with
        videos := s.state.videos.filter (·.path ≠ t.1.path), library := s.state.library.add t.2 }) :=
      if_neg (hfree t List.mem_cons_self)
    refine (wp_bind _ _).2 ((wp_call _).2 ⟨trivial, ?_, ?_⟩)
    · rintro ⟨⟩ s' (⟨hmoved, -⟩ | ⟨-, -, -, -, e, he, -⟩)
      · have hstate := (congrArg Prod.snd hmoved).trans (congrArg Prod.snd hrun)
        refine .inr ⟨List.cons_ne_nil _ _, fun t' ht' => ?_⟩
        obtain rfl := List.mem_singleton.1 ht'
        change s'.state = _ at hstate
        rw [hstate]
        exact Library.mem_add.2 (.inl rfl)
      · cases he
    · rintro e s' (⟨hmoved, -⟩ | ⟨-, -, -, hstate, e', he, hext⟩)
      · have hr := (congrArg Prod.fst hmoved).trans (congrArg Prod.fst hrun)
        cases hr
      · cases he
        exact ⟨hext, by rw [hstate]; exact hs⟩

/-- What filing a selection comes to. -/
def FiledOrKept (routes : LibraryRoutes) (s : VideoSet) (dst : String) (w : FolderState) (paths : List String) (s' : Tried) :
    Prop :=
  (paths = [] ∧ w.Same s'.state) ∨ (paths ≠ [] ∧ ∃ own, Archive.findDstDir routes s.avid dst = some own ∧
    ∀ t ∈ Archive.targets s.avid s.videos own, t.2 ∈ s'.state.library.files)

theorem targets_length {avid : Avid} {videos : List Video} : (Archive.targets avid videos own).length = videos.length := by
  simp [Archive.targets]

theorem wp_fileTargets_once (hs : s.state = w) (hown : Archive.findDstDir routes selection.avid dst = some own)
    (hone : (Archive.targets selection.avid selection.videos own).any (fun t => w.library.pathExists t.2) = false →
      selection.videos.length ≤ 1 ∧ w.library.isDir own = true) :
    (Archive.fileTargets own (Archive.targets selection.avid selection.videos own)).wp (inLibrary oneFails) Always
      (FiledOrKept routes selection dst w) (Unchanged w) s := by
  subst hs
  unfold Archive.fileTargets
  have htol := tolerates_unchanged (FolderState.Same.refl s.state)
  refine (wp_bind _ _).2 (wp_taken admits_oneFails htol (wp_ite (fun _ => .inl ⟨rfl, .refl _⟩) fun hnone => ?_))
  have hnone : (Archive.targets selection.avid selection.videos own).any (fun t => s.state.library.pathExists t.2) = false := by
    simpa using hnone
  obtain ⟨hlen, hdir⟩ := hone hnone
  -- the brand directory is there already, so making it changes nothing
  have made : s.state.Same { s.state with library := { s.state.library with dirs := own :: s.state.library.dirs } } := by
    refine ⟨fun _ => .rfl, fun _ => .rfl, fun _ => .rfl, fun d => ?_⟩
    by_cases hd : d = own
    · subst hd
      rw [hdir]
      simp [Library.isDir]
    · simp [Library.isDir, hd]
  refine (wp_bind _ _).2 ((wp_call _).2 ⟨trivial, ?_, ?_⟩)
  · rintro ⟨⟩ s' (⟨hmade, -⟩ | ⟨-, -, -, -, e, he, -⟩)
    · have hstate := congrArg Prod.snd hmade
      change s'.state = _ at hstate
      have hfree : ∀ t ∈ Archive.targets selection.avid selection.videos own, t.2 ∉ s'.state.library.others := by
        intro t ht hother
        rw [hstate] at hother
        have hexists := List.any_eq_false.1 hnone t ht
        exact hexists (Library.pathExists_iff.2 (.inr hother))
      refine (wp_bind _ _).2 (wp_mono (wp_moveIn_once (w := s.state) ?_ hfree ?_) ?_ fun _ _ h => h)
      · rw [targets_length]
        exact hlen
      · rw [hstate]
        exact made
      · rintro ⟨⟩ s'' (⟨hnil, hsame⟩ | ⟨hne, hin⟩)
        · exact .inl ⟨by rw [hnil]; rfl, hsame⟩
        · exact .inr ⟨fun hnil => hne (List.map_eq_nil_iff.1 hnil), own, hown, hin⟩
    · cases he
  · -- mkdir was the call that failed
    rintro e s' (⟨hmade, -⟩ | ⟨-, -, -, hstate, e', he, hext⟩)
    · cases congrArg Prod.fst hmade
    · cases he
      exact ⟨hext, by rw [hstate]; exact .refl _⟩

theorem wp_moveIntoLibrary_once (hs : s.state = w) (hone : OneRename routes w.library selection dst priority) :
    (Archive.moveIntoLibrary routes selection.avid selection.videos dst priority).wp (inLibrary oneFails) Always
      (FiledOrKept routes selection dst w) (Unchanged w) s := by
  obtain ⟨hkeeps, hrefused⟩ := hone
  have htol : Tolerates (fun _ _ => True) (Unchanged w) s.state := by
    rw [hs]
    exact tolerates_unchanged (.refl w)
  have hsame : w.Same s.state := by
    rw [hs]
    exact .refl w
  unfold Archive.moveIntoLibrary
  cases hown : Archive.findDstDir routes selection.avid dst with
  | none => exact .inl ⟨rfl, hsame⟩
  | some own =>
    subst hs
    refine (wp_bind _ _).2 (wp_guardRoutes_idle admits_oneFails htol hown hkeeps ?_)
    refine wp_ite (fun _ => .inl ⟨rfl, hsame⟩) fun hheld => wp_fileTargets_once rfl hown fun hnone => ?_
    have hno : Archive.refuses routes s.state.library selection.avid selection.videos dst priority = false := by
      rw [refuses_of_not_takesOver hown hkeeps, hnone, Bool.or_false]
      simpa using hheld
    obtain ⟨hlen, hdir⟩ := hrefused.resolve_left (by rw [hno]; exact Bool.false_ne_true)
    exact ⟨hlen, hdir own hown⟩

theorem wp_fileSelection_once {selected : Except ArchiveResult VideoSet} (hs : s.state = w)
    (hsel : selected = .ok selection) (hone : OneRename routes w.library selection dst priority) :
    (fileSelection routes folder selection dst priority).wp oneFails Always
      (fun result s' => Whole routes selected dst w s'.state result) (fun _ _ => False) s := by
  unfold fileSelection
  refine (wp_bind _ _).2 ((wp_attempt _).2 (wp_onLibrary ?_))
  refine wp_mono (wp_moveIntoLibrary_once hs hone) ?_ ?_
  · rintro paths s' (⟨rfl, hsame⟩ | ⟨hne, own, hown, hin⟩)
    · exact .inr ⟨by simp, hsame⟩
    · cases paths with
      | nil => exact absurd rfl hne
      | cons path paths =>
        -- what deleting the folder does, or does not, is no matter of the library
        have filed : ∀ s'' : Tried, s''.state.library = s'.state.library →
            Whole routes selected dst w s''.state
              { outcome := .archived, avid := selection.avid, archivedPaths := path :: paths } := by
          intro s'' hlib
          refine .inl ⟨rfl, selection, own, hsel, hown, fun t ht => ?_⟩
          rw [hlib]
          exact hin t ht
        refine (wp_bind _ _).2 ((wp_discard _).2 ((wp_attempt _).2 ((wp_call _).2 ⟨trivial, ?_, ?_⟩)))
        · rintro a s'' (⟨hrun, -⟩ | ⟨-, -, -, -, e, he, -⟩)
          · exact filed s'' (congrArg (·.2.library) hrun)
          · cases he
        · rintro e s'' (⟨hrun, -⟩ | ⟨-, -, -, hstate, -⟩)
          · exact filed s'' (congrArg (·.2.library) hrun)
          · exact filed s'' (congrArg FolderState.library hstate)
  · rintro e s' ⟨hext, hsame⟩
    cases e with
    | runCancelled => exact hext.elim
    | _ => exact .inr ⟨by simp, hsame⟩

theorem wp_archiveFolder_once (hs : s.state = w) (hone : FiledByOneRename arch routes folder dst priority expected w) :
    (archiveFolder arch routes folder dst priority expected).wp oneFails Always
      (fun result s' => Whole routes (Archive.select arch.toArchiver folder.name w.videos expected) dst w s'.state result)
      (fun _ _ => False) s := by
  subst hs
  unfold archiveFolder
  have kept : ∀ s' : Tried, s'.state = s.state → ∀ result : ArchiveResult, result.outcome ≠ .archived →
      Whole routes (Archive.select arch.toArchiver folder.name s.state.videos expected) dst s.state s'.state result := by
    intro s' hs' result hne
    exact .inr ⟨hne, hs' ▸ .refl _⟩
  refine (wp_bind _ _).2 (wp_inspectFolder admits_oneFails ?_ (fun hdir => (hone hdir).1) ?_ ?_)
  · exact fun op e s' _ _ hext hstate => ⟨hext, kept s' hstate⟩
  · exact fun _ => kept s rfl
  · intro hdir
    cases hsel : Archive.select arch.toArchiver folder.name s.state.videos expected with
    | error result =>
      have h := kept s rfl result (Archive.select_error hsel)
      rw [hsel] at h
      exact h
    | ok selection => exact wp_fileSelection_once rfl rfl ((hone hdir).2 selection hsel)

end once

end EmbyxManager.FolderFiling
