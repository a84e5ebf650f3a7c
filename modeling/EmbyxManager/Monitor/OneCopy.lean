import EmbyxManager.Monitor.Library
/-!
# One copy of a title

What filing a selection does to the library: a priority route only renames files the
normal destinations hold, and a video is moved in only when no guard refuses it. A call
that meets no file of its AVID, or that the guards refuse, leaves the library with at most
one copy at every point of its run.
-/

namespace EmbyxManager
open Atom

/-! ## Copies -/

/-- Two names of one `-cdN` set. -/
def PartsOf (avid : Avid) (name name' : String) : Prop :=
  ∃ i j : Nat, i ≠ j ∧ stem name = avid.toList ++ ("-cd" ++ Nat.repr i).toList ∧
    stem name' = avid.toList ++ ("-cd" ++ Nat.repr j).toList

/-- At most one copy of the AVID: any two of its files are parts of one set. -/
def Library.OneCopy (L : Library) (avid : Avid) : Prop :=
  ∀ f ∈ L.files, ∀ g ∈ L.files, belongsTo avid f.name → belongsTo avid g.name → f ≠ g → PartsOf avid f.name g.name

/-- No file of the AVID is anywhere in the library. -/
def Library.Lacks (L : Library) (avid : Avid) : Prop := ∀ f ∈ L.files, belongsTo avid f.name = false

theorem PartsOf.symm {avid : Avid} {name name' : String} (h : PartsOf avid name name') : PartsOf avid name' name := by
  obtain ⟨i, j, hij, hi, hj⟩ := h
  exact ⟨j, i, hij.symm, hj, hi⟩

theorem Library.Lacks.oneCopy {L : Library} {avid : Avid} (h : L.Lacks avid) : L.OneCopy avid := by
  intro f hf g _ hb
  rw [h f hf] at hb
  cases hb

/-- Under an AVID's name a suffix hides no dot: the stem is the AVID and what was put after it. -/
theorem stem_of_belongsTo {avid : Avid} {part name : String} {video : Video} (hname : name = avid ++ part ++ String.ofList (suffix video.name))
    (hpart : '.' ∉ part.toList) (hb : belongsTo avid name) : stem name = avid.toList ++ part.toList := by
  simp only [belongsTo, Bool.decide_and, Bool.decide_eq_true, Bool.and_eq_true, decide_eq_true_eq] at hb
  obtain ⟨hv, hstem⟩ := hb
  have hlist : name.toList = avid.toList ++ part.toList ++ suffix video.name := by simp [hname]
  rcases splitName_cases name.toList with hnone | ⟨s, ext, hs, hne, hd, hsplit⟩
  · have : suffix name = [] := hnone
    rw [hasVideoSuffix, this] at hv
    exact absurd hv (by decide)
  have hse : stem name = s := by rw [stem, hsplit]
  obtain ⟨y, hy⟩ : ∃ y, s = avid.toList ++ y := by
    rw [hse] at hstem
    rcases hstem with rfl | ⟨y, rfl⟩
    · exact ⟨[], by simp⟩
    · exact ⟨'-' :: y, by simp⟩
  rcases splitName_cases video.name.toList with hnone | ⟨s', e, -, -, hd', hsplit'⟩
  · -- without a suffix of its own the video's name ends in the part
    have hsuf : suffix video.name = [] := hnone
    rw [hsuf, List.append_nil, hs, hy, List.append_assoc] at hlist
    have : part.toList = y ++ '.' :: ext := (List.append_cancel_left hlist).symm
    exact absurd (by simp [this]) hpart
  · have hsuf : suffix video.name = '.' :: e := by rw [suffix, hsplit']
    rw [hsuf, hs] at hlist
    have hlen : ext = e := by
      have hrev := congrArg List.reverse hlist
      simp only [List.reverse_append, List.reverse_cons, List.append_assoc, List.singleton_append] at hrev
      have htake := congrArg (List.takeWhile (· ≠ '.')) hrev
      have hp : ∀ l : List Char, '.' ∉ l → ∀ c ∈ l.reverse, decide (c ≠ '.') = true := by
        intro l hl c hc
        have : c ≠ '.' := fun hcd => hl (hcd ▸ List.mem_reverse.1 hc)
        simpa using this
      rw [List.takeWhile_append_of_pos (hp ext hd), List.takeWhile_append_of_pos (hp e hd')] at htake
      simpa using htake
    subst hlen
    rw [hse]
    exact List.append_cancel_right hlist

/-! ## When the pipeline refuses -/

namespace Archive
variable (routes : LibraryRoutes) (L : Library) (own : BrandDir) (avid : Avid)

/-- A priority destination other than `own` holds a file of the AVID. -/
def heldElsewhere : Bool :=
  ∃ dst ∈ destinations routes.priorityMapping, ⟨dst, own.brand⟩ ≠ own ∧ L.matching avid ⟨dst, own.brand⟩ ≠ []

/-- A normal destination other than `own` holds a file of the AVID under this name. -/
def promotable (name : String) : Bool :=
  ∃ dst ∈ destinations routes.mapping, ⟨dst, own.brand⟩ ≠ own ∧ name ∈ L.matching avid ⟨dst, own.brand⟩

/-- The guards refuse a selection: its AVID has no brand, a priority destination holds the
AVID, or the name of one of its videos is taken where it would go, if only by a file that a
priority route takes over first. -/
def refuses (videos : List Video) (dst : String) (priority : Bool) : Bool :=
  match findDstDir routes avid dst with
  | none => true
  | some own =>
    (!brandRouted routes own.brand && !priority && heldElsewhere routes L own avid) ||
      (targets avid videos own).any fun t =>
        L.pathExists t.2 || (!brandRouted routes own.brand && priority && promotable routes L own avid t.2.name)

end Archive

/-! ## What an action may do -/

/-- A video goes only where `J` lets it, and a promotion keeps the name of a file. -/
def MayFile (J : Library → LibraryFile → Prop) : Library → LibraryOp → Prop
  | L, .moveIn _ target => J L target
  | _, .promote archived target => archived.name = target.name
  | _, _ => True

/-- A call is only refused by the file system. -/
abbrev NotLet : Exn → Library → Prop := fun e _ => e.External

section Actions
variable {J : Library → LibraryFile → Prop} {videos : List Video} {L L₀ : Library} {avid : Avid} {d own : BrandDir}
  {f : LibraryFile} {routes : LibraryRoutes}

theorem Library.run_error {op : LibraryOp} {e : Exn} {L' : Library} (h : L.run op = (.error e, L')) : e.External := by
  cases op with
  | moveIn | promote =>
    simp only [Library.run] at h
    split at h
    · cases h
      trivial
    · first | (split at h <;> cases h <;> trivial) | cases h
  | outside =>
    cases h
    trivial
  | _ => cases h

/-- An action on the library: what it does when it is let through. -/
theorem wp_library {op : LibraryOp} (hop : ∀ o, op ≠ .outside o) (hG : MayFile J L op) {Q : op.Res → Library → Prop}
    (h : ∀ a L', L.run op = (.ok a, L') → Q a L') :
    (Prog.call op : LibraryM op.Res).wp (LibraryStep videos) (MayFile J) Q NotLet L := by
  have hstep : ∀ r L', LibraryStep videos L op r L' → (r, L') = L.run op ∨ ∃ e : Exn, r = .error e ∧ e.External := by
    intro r L' ht
    cases op with
    | outside o => exact absurd rfl (hop o)
    | _ => exact ht.imp_right And.right
  refine (Prog.wp_call op).2 ⟨hG, fun a L' ht => ?_, fun e L' ht => ?_⟩
  · rcases hstep _ _ ht with hr | ⟨e, he, -⟩
    · exact h a L' hr.symm
    · cases he
  · rcases hstep _ _ ht with hr | ⟨e', he, hext⟩
    · exact Library.run_error hr.symm
    · cases he
      exact hext

theorem wp_matchingArchived {Q : List String → Library → Prop} (h : Q (L.matching avid d) L) :
    (Archive.matchingArchived avid d).wp (LibraryStep videos) (MayFile J) Q NotLet L := by
  refine (Prog.wp_bind _ _).2 (wp_library (by rintro _ ⟨⟩) (by trivial) ?_)
  rintro b _ ⟨⟩
  refine Prog.wp_ite (fun _ => wp_library (by rintro _ ⟨⟩) (by trivial) ?_) fun hd => ?_
  · rintro names _ ⟨⟩
    exact h
  · rwa [Library.matching_of_not_isDir (by simpa using hd)] at h

theorem wp_pathExists {Q : Bool → Library → Prop} (h : Q (L.pathExists f) L) :
    (Prog.call (LibraryOp.pathExists f) : LibraryM Bool).wp (LibraryStep videos) (MayFile J) Q NotLet L := by
  refine wp_library (by rintro _ ⟨⟩) (by trivial) ?_
  rintro b _ ⟨⟩
  exact h

theorem wp_mkdir {Q : Unit → Library → Prop} (h : ∀ dirs, Q () { L with dirs }) :
    (Prog.call (LibraryOp.mkdir d) : LibraryM Unit).wp (LibraryStep videos) (MayFile J) Q NotLet L := by
  refine wp_library (by rintro _ ⟨⟩) (by trivial) ?_
  rintro _ _ ⟨⟩
  exact h _

/-! ## The guards -/

theorem wp_heldBy {Q : Bool → Library → Prop} {dsts : List String}
    (h : Q (decide (∃ dst ∈ dsts, ⟨dst, own.brand⟩ ≠ own ∧ L.matching avid ⟨dst, own.brand⟩ ≠ [])) L) :
    (Archive.heldBy avid own dsts).wp (LibraryStep videos) (MayFile J) Q NotLet L := by
  induction dsts with
  | nil =>
    simp only [List.not_mem_nil, false_and, exists_false, decide_false] at h
    exact h
  | cons dst dsts ih =>
    rw [Archive.heldBy]
    refine Prog.wp_ite (fun he => ih ?_) fun hne => (Prog.wp_bind _ _).2 (wp_matchingArchived ?_)
    · simpa [he] using h
    · refine Prog.wp_ite (fun hnil => ih ?_) fun hsome => ?_
      · simpa [hnil] using h
      · simpa [hne, hsome] using h

theorem wp_anyExists {Q : Bool → Library → Prop} {ts : List (Video × LibraryFile)} (h : Q (ts.any fun t => L.pathExists t.2) L) :
    (Archive.anyExists ts).wp (LibraryStep videos) (MayFile J) Q NotLet L := by
  induction ts with
  | nil => exact h
  | cons t ts ih =>
    rw [Archive.anyExists]
    refine (Prog.wp_bind _ _).2 (wp_pathExists (Prog.wp_ite (fun ht => ?_) fun hf => ih ?_))
    · simpa [ht] using h
    · simpa [hf] using h

/-! ## Promotion -/

/-- What a promotion has made of the library `L₀`: it holds the same names, and what is new
in the priority directory a normal destination has held. -/
structure Promoted (routes : LibraryRoutes) (avid : Avid) (own : BrandDir) (L₀ L : Library) : Prop where
  others : L.others = L₀.others
  back : ∀ f ∈ L.files, f ∈ L₀.files ∨ (f.dir = own ∧ Archive.promotable routes L₀ own avid f.name)
  forth : ∀ f ∈ L₀.files, f ∈ L.files ∨ (⟨own, f.name⟩ ∈ L.files ∧ f.dir ≠ own)

theorem Promoted.refl : Promoted routes avid own L L := ⟨rfl, fun _ h => .inl h, fun _ h => .inl h⟩

theorem Promoted.dirs (h : Promoted routes avid own L₀ L) (dirs : List BrandDir) :
    Promoted routes avid own L₀ { L with dirs } := ⟨h.others, h.back, h.forth⟩

theorem promotable_iff {name : String} : Archive.promotable routes L own avid name = true ↔
    ∃ dst ∈ Archive.destinations routes.mapping, ⟨dst, own.brand⟩ ≠ own ∧ name ∈ L.matching avid ⟨dst, own.brand⟩ := by
  simp [Archive.promotable]

/-- One more file taken over. -/
theorem Promoted.promote {dst name : String} (h : Promoted routes avid own L₀ L)
    (hdst : dst ∈ Archive.destinations routes.mapping) (hne : ⟨dst, own.brand⟩ ≠ own) (hb : belongsTo avid name = true)
    (hmem : ⟨⟨dst, own.brand⟩, name⟩ ∈ L.files) :
    Promoted routes avid own L₀ ((L.remove ⟨⟨dst, own.brand⟩, name⟩).add ⟨own, name⟩) := by
  refine ⟨h.others, fun f hf => ?_, fun f hf => ?_⟩
  · rcases Library.mem_add.1 hf with rfl | hf
    · refine .inr ⟨rfl, promotable_iff.2 ⟨dst, hdst, hne, Library.mem_matching.2 ⟨?_, hb⟩⟩⟩
      rcases h.back _ hmem with h₀ | ⟨he, -⟩
      · exact h₀
      · exact absurd he hne
    · exact h.back f (Library.mem_remove.1 hf).1
  · simp only [Library.mem_add, Library.mem_remove]
    rcases h.forth f hf with hL | ⟨hL, hd⟩
    · by_cases he : f = ⟨⟨dst, own.brand⟩, name⟩
      · subst he
        exact .inr ⟨.inl rfl, hne⟩
      · exact .inl (.inr ⟨hL, he⟩)
    · refine .inr ⟨.inr ⟨hL, ?_⟩, hd⟩
      intro he
      exact hne (congrArg LibraryFile.dir he).symm

/-- The names that are taken stay taken. -/
def Keeping (own : BrandDir) (L L' : Library) : Prop := ∀ name, L.pathExists ⟨own, name⟩ = true → L'.pathExists ⟨own, name⟩ = true

theorem wp_promoteFile {dst name : String} (h : Promoted routes avid own L₀ L)
    (hdst : dst ∈ Archive.destinations routes.mapping) (hne : ⟨dst, own.brand⟩ ≠ own) (hb : belongsTo avid name = true) :
    (Archive.promoteFile ⟨dst, own.brand⟩ own name).wp (LibraryStep videos) (MayFile J)
      (fun _ L' => Promoted routes avid own L₀ L' ∧ Keeping own L L' ∧ L'.pathExists ⟨own, name⟩ = true) NotLet L := by
  unfold Archive.promoteFile
  refine (Prog.wp_bind _ _).2 (wp_pathExists (Prog.wp_ite (fun ht => ⟨h, fun _ hn => hn, ht⟩) fun hf => ?_))
  refine (Prog.wp_bind _ _).2 (wp_mkdir fun dirs => wp_library (by rintro _ ⟨⟩) (by trivial) ?_)
  intro a L' hrun
  simp only [Library.run] at hrun
  split at hrun
  · cases hrun
  split at hrun
  · cases hrun
  rename_i hmem _
  cases hrun
  have hL : ⟨⟨dst, own.brand⟩, name⟩ ∈ L.files := by simpa using hmem
  refine ⟨(h.dirs dirs).promote hdst hne hb hL, fun n hn => ?_, ?_⟩
  · rw [Library.pathExists_iff] at hn ⊢
    simp only [Library.mem_add, Library.mem_remove, Library.add_others, Library.remove_others]
    refine hn.imp_left fun hn => .inr ⟨hn, fun he => hne (congrArg LibraryFile.dir he).symm⟩
  · simp [Library.pathExists_iff]

/-- Afterwards every name of the AVID that a normal destination held is taken in the priority one. -/
theorem wp_promoteFromNormal :
    (Archive.promoteFromNormal routes avid own).wp (LibraryStep videos) (MayFile J)
      (fun _ L' => Promoted routes avid own L₀ L' ∧ Keeping own L₀ L' ∧
        ∀ name, Archive.promotable routes L₀ own avid name = true → L'.pathExists ⟨own, name⟩ = true) NotLet L₀ := by
  unfold Archive.promoteFromNormal
  let Done (dst : String) (L : Library) : Prop :=
    ⟨dst, own.brand⟩ ≠ own → ∀ name ∈ L₀.matching avid ⟨dst, own.brand⟩, L.pathExists ⟨own, name⟩ = true
  have hDone : ∀ {dst L L'}, Keeping own L L' → Done dst L → Done dst L' := fun hk h hne name hn => hk _ (h hne name hn)
  -- a destination is still to come or all its copies are in the brand directory
  refine Prog.wp_foldEach
    (fun dsts _ L => dsts ⊆ Archive.destinations routes.mapping ∧ Promoted routes avid own L₀ L ∧ Keeping own L₀ L ∧
      ∀ dst ∈ Archive.destinations routes.mapping, dst ∈ dsts ∨ Done dst L) ?_ ?_
    ⟨fun _ h => h, .refl, fun _ h => h, fun dst h => .inl h⟩
  · rintro dst dsts ⟨⟩ L ⟨hsub, hp, hk, hd⟩
    have hdst := hsub (List.mem_cons_self ..)
    have hsub' : dsts ⊆ Archive.destinations routes.mapping := fun _ h => hsub (List.mem_cons_of_mem _ h)
    have rest : ∀ {L'}, Keeping own L L' → Done dst L' →
        ∀ dst' ∈ Archive.destinations routes.mapping, dst' ∈ dsts ∨ Done dst' L' := by
      intro L' hk' hdone dst' hdst'
      rcases hd dst' hdst' with hmem | hdone'
      · rcases List.mem_cons.1 hmem with rfl | hmem
        · exact .inr hdone
        · exact .inl hmem
      · exact .inr (hDone hk' hdone')
    refine Prog.wp_ite (fun he => ⟨hsub', hp, hk, rest (fun _ h => h) fun hne => absurd he hne⟩) fun hne => ?_
    refine (Prog.wp_bind _ _).2 (wp_matchingArchived ?_)
    refine Prog.wp_foldEach
      (fun names _ L' => names ⊆ L.matching avid ⟨dst, own.brand⟩ ∧ Promoted routes avid own L₀ L' ∧ Keeping own L L' ∧
        ∀ name ∈ L₀.matching avid ⟨dst, own.brand⟩, name ∈ names ∨ L'.pathExists ⟨own, name⟩ = true) ?_ ?_ ?_
    · rintro name names ⟨⟩ L' ⟨hsubn, hp', hk', hn⟩
      have hname := hsubn (List.mem_cons_self ..)
      refine Prog.wp_mono (wp_promoteFile hp' hdst hne (Library.mem_matching.1 hname).2) ?_ fun _ _ h => h
      rintro ⟨⟩ L'' ⟨hp'', hk'', hex⟩
      refine ⟨fun _ h => hsubn (List.mem_cons_of_mem _ h), hp'', fun n h => hk'' n (hk' n h), fun n h => ?_⟩
      rcases hn n h with hmem | hex'
      · rcases List.mem_cons.1 hmem with rfl | hmem
        · exact .inr hex
        · exact .inl hmem
      · exact .inr (hk'' n hex')
    · rintro ⟨⟩ L' ⟨-, hp', hk', hn⟩
      refine ⟨hsub', hp', fun n h => hk' n (hk n h), rest hk' fun _ n h => ?_⟩
      exact (hn n h).resolve_left List.not_mem_nil
    · -- what `L₀` held there either still is there or was taken over from another destination
      refine ⟨fun _ h => h, hp, fun _ h => h, fun n h => ?_⟩
      obtain ⟨hmem, hb⟩ := Library.mem_matching.1 h
      rcases hp.forth _ hmem with hL | ⟨hL, -⟩
      · exact .inl (Library.mem_matching.2 ⟨hL, hb⟩)
      · exact .inr (Library.pathExists_iff.2 (.inl hL))
  · rintro ⟨⟩ L ⟨-, hp, hk, hd⟩
    refine ⟨hp, hk, fun name hname => ?_⟩
    obtain ⟨dst, hdst, hne, hn⟩ := promotable_iff.1 hname
    exact (hd dst hdst).resolve_left List.not_mem_nil hne name hn

/-! ## Filing -/

/-- The two libraries hold files of the same names, in these directories or others. -/
def SameNames (L L' : Library) : Prop :=
  (∀ f ∈ L.files, ∃ g ∈ L'.files, g.name = f.name) ∧ ∀ f ∈ L'.files, ∃ g ∈ L.files, g.name = f.name

theorem SameNames.refl : SameNames L L := ⟨fun f hf => ⟨f, hf, rfl⟩, fun f hf => ⟨f, hf, rfl⟩⟩

theorem Promoted.sameNames (h : Promoted routes avid own L₀ L) : SameNames L₀ L := by
  refine ⟨fun f hf => ?_, fun f hf => ?_⟩
  · rcases h.forth f hf with hL | ⟨hL, -⟩
    · exact ⟨f, hL, rfl⟩
    · exact ⟨_, hL, rfl⟩
  · rcases h.back f hf with hL | ⟨-, hp⟩
    · exact ⟨f, hL, rfl⟩
    · obtain ⟨dst, -, -, hn⟩ := promotable_iff.1 hp
      exact ⟨_, (Library.mem_matching.1 hn).1, rfl⟩

/-- What filing a selection comes to: nothing under a new name when the guards refuse it,
every video under its own when they do not. -/
def Filed (routes : LibraryRoutes) (avid : Avid) (vs : List Video) (dst : String) (priority : Bool) (L : Library)
    (paths : List String) (L' : Library) : Prop :=
  (Archive.refuses routes L avid vs dst priority = true → paths = [] ∧ SameNames L L') ∧
    (Archive.refuses routes L avid vs dst priority = false → ∃ own, Archive.findDstDir routes avid dst = some own ∧
      paths = (Archive.targets avid vs own).map (fun t => Archive.LibraryFile.display t.2) ∧
      ∀ t ∈ Archive.targets avid vs own, t.2 ∈ L'.files)

/-- Where a video may be moved while a selection is filed: the ones before it are there, and
nothing else has a name the library did not know. -/
def Opens (J : Library → LibraryFile → Prop) (L₀ : Library) (ts : List (Video × LibraryFile)) : Prop :=
  ∀ L pre t post, ts = pre ++ t :: post →
    (∀ f ∈ L.files, (∃ g ∈ L₀.files, g.name = f.name) ∨ f ∈ pre.map (·.2)) → J L t.2

theorem wp_moveIns {ts : List (Video × LibraryFile)} (hJ : Opens J L₀ ts) (hL : ∀ f ∈ L.files, ∃ g ∈ L₀.files, g.name = f.name) :
    (Prog.forEach ts fun t => Prog.call (LibraryOp.moveIn t.1 t.2) : LibraryM Unit).wp (LibraryStep videos) (MayFile J)
      (fun _ L' => ∀ t ∈ ts, t.2 ∈ L'.files) NotLet L := by
  refine Prog.wp_foldEach
    (fun rest _ L' => ∃ pre, ts = pre ++ rest ∧ (∀ t ∈ pre, t.2 ∈ L'.files) ∧
      ∀ f ∈ L'.files, (∃ g ∈ L₀.files, g.name = f.name) ∨ f ∈ pre.map (·.2)) ?_ ?_
    ⟨[], rfl, by simp, fun f hf => .inl (hL f hf)⟩
  · rintro t rest ⟨⟩ L' ⟨pre, rfl, hpre, hf⟩
    have hmay : MayFile J L' (.moveIn t.1 t.2) := hJ L' pre t rest rfl hf
    refine wp_library (by rintro _ ⟨⟩) hmay ?_
    intro a L'' hrun
    simp only [Library.run] at hrun
    split at hrun
    · cases hrun
    cases hrun
    refine ⟨pre ++ [t], by simp, fun t' ht' => ?_, fun f hf' => ?_⟩
    · rcases List.mem_append.1 ht' with h | h
      · exact Library.mem_add.2 (.inr (hpre t' h))
      · rw [List.mem_singleton.1 h]
        exact Library.mem_add.2 (.inl rfl)
    · rcases Library.mem_add.1 hf' with rfl | h
      · exact .inr (by simp)
      · refine (hf f h).imp_right fun h => ?_
        rw [List.map_append]
        exact List.mem_append_left _ h
  · rintro ⟨⟩ L' ⟨pre, rfl, hpre, -⟩
    simpa using hpre

theorem target_eq {t : Video × LibraryFile} {vs : List Video} (ht : t ∈ Archive.targets avid vs own) :
    t.2 = ⟨own, t.2.name⟩ := by
  obtain ⟨p, -, rfl⟩ := List.mem_map.1 ht
  rfl

theorem wp_fileTargets {vs : List Video} {dst : String} {priority : Bool} (hown : Archive.findDstDir routes avid dst = some own)
    (hJ : Archive.refuses routes L₀ avid vs dst priority = false → Opens J L₀ (Archive.targets avid vs own))
    (hp : Promoted routes avid own L₀ L)
    (hany : ((Archive.targets avid vs own).any fun t => L.pathExists t.2) = Archive.refuses routes L₀ avid vs dst priority) :
    (Archive.fileTargets own (Archive.targets avid vs own)).wp (LibraryStep videos) (MayFile J)
      (Filed routes avid vs dst priority L₀) NotLet L := by
  unfold Archive.fileTargets
  refine (Prog.wp_bind _ _).2 (wp_anyExists (Prog.wp_ite (fun ht => ?_) fun hf => ?_))
  · rw [hany] at ht
    exact ⟨fun _ => ⟨rfl, hp.sameNames⟩, fun hf => by rw [ht] at hf; cases hf⟩
  · have hno : Archive.refuses routes L₀ avid vs dst priority = false := by
      rw [← hany]
      exact Bool.not_eq_true _ ▸ hf
    refine (Prog.wp_bind _ _).2 (wp_mkdir fun dirs => (Prog.wp_bind _ _).2 ?_)
    refine Prog.wp_mono (wp_moveIns (hJ hno) (hp.dirs dirs).sameNames.2) (fun _ L' hin => ?_) fun _ _ h => h
    refine ⟨fun ht => ?_, fun _ => ⟨own, hown, rfl, hin⟩⟩
    rw [hno] at ht
    cases ht

theorem wp_moveIntoLibrary {vs : List Video} {dst : String} {priority : Bool}
    (hJ : Archive.refuses routes L avid vs dst priority = false → ∀ own, Archive.findDstDir routes avid dst = some own →
      Opens J L (Archive.targets avid vs own)) :
    (Archive.moveIntoLibrary routes avid vs dst priority).wp (LibraryStep videos) (MayFile J)
      (Filed routes avid vs dst priority L) NotLet L := by
  unfold Archive.moveIntoLibrary
  cases hown : Archive.findDstDir routes avid dst with
  | none =>
    have ht : Archive.refuses routes L avid vs dst priority = true := by simp [Archive.refuses, hown]
    exact (Prog.wp_pure _).2 ⟨fun _ => ⟨rfl, .refl⟩, fun hf => by rw [ht] at hf; cases hf⟩
  | some own =>
    have file : ∀ {L'}, Promoted routes avid own L L' →
        ((Archive.targets avid vs own).any fun t => L'.pathExists t.2) = Archive.refuses routes L avid vs dst priority →
        (Archive.fileTargets own (Archive.targets avid vs own)).wp (LibraryStep videos) (MayFile J)
          (Filed routes avid vs dst priority L) NotLet L' :=
      wp_fileTargets hown fun hno => hJ hno own hown
    unfold Archive.guardRoutes
    -- the three routes of the guard: pinned or unguarded, priority, normal
    refine (Prog.wp_bind _ _).2 ?_
    refine Prog.wp_ite (fun hr => file .refl ?_) fun hr => Prog.wp_ite (fun hpr => ?_) fun hpr => ?_
    · simp [Archive.refuses, hown, hr]
    · refine (Prog.wp_bind _ _).2 (Prog.wp_mono wp_promoteFromNormal ?_ fun _ _ h => h)
      rintro ⟨⟩ L' ⟨hp, hk, hdone⟩
      refine file hp ?_
      simp only [Archive.refuses, hown, hr, hpr, Bool.not_true, Bool.not_false, Bool.and_false, Bool.false_and, Bool.false_or, Bool.true_and]
      rw [Bool.eq_iff_iff, List.any_eq_true, List.any_eq_true]
      refine exists_congr fun t => and_congr_right fun ht => ?_
      rw [target_eq ht, Bool.or_eq_true]
      constructor
      · intro h
        rcases Library.pathExists_iff.1 h with h | h
        · rcases hp.back _ h with h₀ | ⟨-, h₀⟩
          · exact .inl (Library.pathExists_iff.2 (.inl h₀))
          · exact .inr h₀
        · exact .inl (Library.pathExists_iff.2 (.inr (hp.others ▸ h)))
      · rintro (h | h)
        · exact hk _ h
        · exact hdone _ h
    · refine wp_heldBy ?_
      refine Prog.wp_ite (fun hh => ?_) fun hh => file .refl ?_
      · have ht : Archive.refuses routes L avid vs dst priority = true := by
          simp [Archive.refuses, hown, hr, hpr, Archive.heldElsewhere, hh]
        exact ⟨fun _ => ⟨rfl, .refl⟩, fun hf => by rw [ht] at hf; cases hf⟩
      · simp [Archive.refuses, hown, hr, hpr, Archive.heldElsewhere, hh]

end Actions

/-! ## The calls -/

/-- The library as the rest of the pipeline sees it: one action files a selection, and
nothing else touches the library. -/
def FilingStep (routes : LibraryRoutes) (videos : List Video) : Env Op.Res Exn Library := fun L op =>
  match op with
  | .ask (.moveIntoLibrary avid vs dst priority) => fun r L' =>
    (∀ paths, r = .ok paths → Filed routes avid vs dst priority L paths L') ∧ ∀ e : Exn, r = .error e → e.External
  | .ask (.largeVideos _) => fun r L' => L' = L ∧ (∀ vs, r = .ok vs → vs = videos) ∧ ∀ e : Exn, r = .error e → e.External
  | _ => fun r L' => L' = L ∧ ∀ e : Exn, r = .error e → e.External

/-- A selection may be filed where the guards refuse it or `J` lets every video in. -/
def MayMove (J : Library → LibraryFile → Prop) (routes : LibraryRoutes) (L : Library) (avid : Avid) (vs : List Video)
    (dst : String) (priority : Bool) : Prop :=
  Archive.refuses routes L avid vs dst priority = false → ∀ own, Archive.findDstDir routes avid dst = some own →
    Opens J L (Archive.targets avid vs own)

def MayAsk (J : Library → LibraryFile → Prop) (routes : LibraryRoutes) : Library → Op → Prop
  | L, .ask (.moveIntoLibrary avid vs dst priority) => MayMove J routes L avid vs dst priority
  | _, _ => True

section Calls
variable {J : Library → LibraryFile → Prop} {routes : LibraryRoutes} {videos : List Video} {L L₀ : Library}
  {arch : Archiver}

/-- The fine-grained programs refine the one action. -/
theorem wp_library_handler {op : Op} (hmay : MayAsk J routes L op) :
    (Archive.library routes op).wp (LibraryStep videos) (MayFile J)
      (fun a L' => FilingStep routes videos L op (.ok a) L') (fun e L' => FilingStep routes videos L op (.error e) L') L := by
  have outside : ∀ {op : Op}, (∀ r L', LibraryStep videos L (.outside op) r L' → FilingStep routes videos L op r L') →
      (Prog.call (LibraryOp.outside op) : LibraryM op.Res).wp (LibraryStep videos) (MayFile J)
        (fun a L' => FilingStep routes videos L op (.ok a) L') (fun e L' => FilingStep routes videos L op (.error e) L') L :=
    fun h => (Prog.wp_call _).2 ⟨trivial, fun a L' ht => h _ L' ht, fun e L' ht => h _ L' ht⟩
  cases op with
  | ask q =>
    cases q with
    | moveIntoLibrary avid vs dst priority =>
      refine Prog.wp_mono (wp_moveIntoLibrary hmay) (fun paths L' h => ⟨?_, by rintro _ ⟨⟩⟩) fun e L' h => ⟨by rintro _ ⟨⟩, ?_⟩
      · rintro _ ⟨⟩
        exact h
      · rintro _ ⟨⟩
        exact h
    | largeVideos folder =>
      refine outside fun r L' ht => ?_
      obtain ⟨rfl, ⟨vs, rfl, rfl⟩ | ⟨e, rfl, he⟩⟩ := ht
      · exact ⟨rfl, by rintro _ ⟨⟩; rfl, by rintro _ ⟨⟩⟩
      · exact ⟨rfl, by rintro _ ⟨⟩, by rintro _ ⟨⟩; exact he⟩
    | _ =>
      refine outside fun r L' ht => ?_
      obtain ⟨rfl, ⟨a, rfl⟩ | ⟨e, rfl, he⟩⟩ := ht
      · exact ⟨rfl, by rintro _ ⟨⟩⟩
      · exact ⟨rfl, by rintro _ ⟨⟩; exact he⟩
  | _ =>
    refine outside fun r L' ht => ?_
    obtain ⟨rfl, ⟨a, rfl⟩ | ⟨e, rfl, he⟩⟩ := ht
    · exact ⟨rfl, by rintro _ ⟨⟩⟩
    · exact ⟨rfl, by rintro _ ⟨⟩; exact he⟩

/-- What a call answers when it comes to filing: nothing but a failure, or what the archive
pipeline reports of the paths. -/
def FiledAs (routes : LibraryRoutes) (s : VideoSet) (dst : String) (priority : Bool) (L : Library) (result : ArchiveResult)
    (L' : Library) : Prop :=
  result.outcome = .failed ∨ ∃ paths, Filed routes s.avid s.videos dst priority L paths L' ∧
    result = if paths = [] then
        { outcome := .needsAttention, avid := s.avid, reason := "destination already holds this avid" }
      else { outcome := .archived, avid := s.avid, archivedPaths := paths }

section
variable {folder : Folder} {expected : Avid} {dst : String} {priority : Bool}

theorem wp_inspectFolder :
    (Archive.inspectFolder arch folder expected).wp (FilingStep routes videos) (MayAsk J routes)
      (fun r L' => L' = L ∧ (r = Archive.select arch folder.name videos expected ∨ ∃ res, r = .error res ∧ res.outcome = .failed))
      NotLet L := by
  unfold Archive.inspectFolder
  refine (Prog.wp_bind _ _).2 ((Prog.wp_attempt _).2 ?_)
  let Kept : Exn → Library → Prop := fun e L' => L' = L ∧ e.External
  have hsel : (Archive.selectVideos arch folder expected).wp (FilingStep routes videos) (MayAsk J routes)
      (fun r L' => L' = L ∧ (r = Archive.select arch folder.name videos expected ∨ ∃ res, r = .error res ∧ res.outcome = .failed))
      Kept L := by
    unfold Archive.selectVideos
    refine (Prog.wp_bind _ _).2 ((Prog.wp_call _).2 ⟨trivial, ?_, fun e L' ht => ⟨ht.1, ht.2 e rfl⟩⟩)
    rintro b L ⟨rfl, -⟩
    refine Prog.wp_ite (fun _ => ?_) fun _ => ⟨rfl, .inr ⟨_, rfl, rfl⟩⟩
    refine (Prog.wp_bind _ _).2 ((Prog.wp_call _).2 ⟨trivial, ?_, fun e L' ht => ⟨ht.1, ht.2.2 e rfl⟩⟩)
    rintro vs L ⟨rfl, hvs, -⟩
    cases hvs vs rfl
    refine (Prog.wp_bind _ _).2 (Prog.wp_foldEach (fun _ _ L' => L' = L) ?_ ?_ rfl)
    · rintro v _ ⟨⟩ _ rfl
      refine (Prog.wp_discard _).2 ((Prog.wp_attempt _).2 ((Prog.wp_call _).2 ⟨trivial, ?_, ?_⟩))
      · exact fun _ _ ht => ht.1
      · exact fun _ _ ht => ht.1
    · rintro ⟨⟩ _ rfl
      exact ⟨rfl, .inl rfl⟩
  refine Prog.wp_mono hsel (fun r L' h => h) ?_
  rintro e _ ⟨rfl, he⟩
  cases e with
  | runCancelled => exact he.elim
  | _ => exact ⟨rfl, .inr ⟨_, rfl, rfl⟩⟩

theorem wp_fileSelection {s : VideoSet} (hmay : MayMove J routes L s.avid s.videos dst priority) :
    (Archive.fileSelection folder s dst priority).wp (FilingStep routes videos) (MayAsk J routes)
      (FiledAs routes s dst priority L) NotLet L := by
  unfold Archive.fileSelection
  refine (Prog.wp_bind _ _).2 ((Prog.wp_attempt _).2 ((Prog.wp_call _).2 ⟨hmay, fun paths L' ht => ?_, fun e L' ht => ?_⟩))
  · have hf := ht.1 paths rfl
    cases paths with
    | nil => exact .inr ⟨[], hf, rfl⟩
    | cons path paths =>
      refine (Prog.wp_bind _ _).2 ((Prog.wp_discard _).2 ((Prog.wp_attempt _).2 ((Prog.wp_call _).2 ⟨trivial, ?_, ?_⟩)))
      · rintro _ _ ⟨rfl, -⟩
        exact .inr ⟨_, hf, rfl⟩
      · rintro _ _ ⟨rfl, -⟩
        exact .inr ⟨_, hf, rfl⟩
  · have he := ht.2 e rfl
    cases e with
    | runCancelled => exact he.elim
    | _ => exact .inl rfl

theorem wp_archiveFolder (hmay : ∀ s, Archive.select arch folder.name videos expected = .ok s →
      MayMove J routes L s.avid s.videos dst priority) :
    (Archive.archiveFolder arch folder dst priority expected).wp (FilingStep routes videos) (MayAsk J routes)
      (fun result L' => ∀ s, Archive.select arch folder.name videos expected = .ok s → FiledAs routes s dst priority L result L')
      NotLet L := by
  unfold Archive.archiveFolder
  refine (Prog.wp_bind _ _).2 (Prog.wp_mono wp_inspectFolder ?_ fun _ _ h => h)
  rintro r _ ⟨rfl, hr | ⟨res, rfl, hres⟩⟩
  · subst hr
    cases hsel : Archive.select arch folder.name videos expected with
    | error res => exact fun s hs => by cases hs
    | ok s =>
      refine Prog.wp_mono (wp_fileSelection (hmay s hsel)) (fun result L' h s' hs' => ?_) fun _ _ h => h
      cases hs'
      exact h
  · exact fun s _ => .inl hres

theorem wp_archiveLooseGroup {avid : Avid} {vs : List Video}
    (hmay : MayMove J routes L avid (vs.insertionSort fun v v' => v.name ≤ v'.name) dst priority) :
    (Archive.archiveLooseGroup avid vs dst priority).wp (FilingStep routes videos) (MayAsk J routes)
      (FiledAs routes ⟨avid, vs.insertionSort fun v v' => v.name ≤ v'.name⟩ dst priority L) NotLet L := by
  unfold Archive.archiveLooseGroup
  refine (Prog.wp_bind _ _).2 ((Prog.wp_call _).2 ⟨hmay, fun paths L' ht => ?_, fun e L' ht => ht.2 e rfl⟩)
  have hf := ht.1 paths rfl
  cases paths with
  | nil => exact .inr ⟨[], hf, rfl⟩
  | cons path paths => exact .inr ⟨_, hf, rfl⟩

end

/-- A call files only what it selects, where it may, and answers what became of it. -/
theorem ArchiveCall.wp_program {c : ArchiveCall}
    (hmay : ∀ s, c.selection arch = some s → MayMove J routes L s.avid s.videos c.dst c.priority) :
    (c.program arch routes).wp (LibraryStep c.videos) (MayFile J)
      (fun result L' => ∀ s, c.selection arch = some s → FiledAs routes s c.dst c.priority L result L') NotLet L := by
  cases c with
  | folder folder videos dst priority expected =>
    have hok : ∀ s, Archive.select arch folder.name videos expected = .ok s ↔
        (ArchiveCall.folder folder videos dst priority expected).selection arch = some s := by
      intro s
      simp only [ArchiveCall.selection]
      cases Archive.select arch folder.name videos expected <;> simp [Except.toOption]
    refine Prog.wp_handle (fun _ _ => wp_library_handler) (Prog.wp_mono (wp_archiveFolder fun s hs => hmay s ((hok s).1 hs)) ?_ fun _ _ h => h)
    exact fun result L' h s hs => h s ((hok s).2 hs)
  | looseGroup avid videos dst priority =>
    refine Prog.wp_handle (fun _ _ => wp_library_handler) (Prog.wp_mono (wp_archiveLooseGroup (hmay _ rfl)) ?_ fun _ _ h => h)
    rintro result L' h s ⟨⟩
    exact h

end Calls

/-! ## The invariant -/

section Invariant
variable {L L' : Library} {avid : Avid} {own : BrandDir} {routes : LibraryRoutes}

/-- The file is no second copy of the AVID. -/
def Fits (avid : Avid) (L : Library) (t : LibraryFile) : Prop :=
  belongsTo avid t.name → ∀ f ∈ L.files, belongsTo avid f.name → f ≠ t → PartsOf avid f.name t.name

/-- A file that fits may come in. -/
theorem Library.OneCopy.add {t : LibraryFile} (h : L.OneCopy avid) (ht : Fits avid L t) : (L.add t).OneCopy avid := by
  intro f hf g hg hbf hbg hne
  rcases Library.mem_add.1 hf with rfl | hfL
  · rcases Library.mem_add.1 hg with rfl | hg
    · exact absurd rfl hne
    · exact (ht hbf g hg hbg hne.symm).symm
  · rcases Library.mem_add.1 hg with rfl | hgL
    · exact ht hbg f hfL hbf hne
    · exact h f hfL g hgL hbf hbg hne

theorem Library.OneCopy.remove {t : LibraryFile} (h : L.OneCopy avid) : (L.remove t).OneCopy avid :=
  fun f hf g hg => h f (Library.mem_remove.1 hf).1 g (Library.mem_remove.1 hg).1

/-- A file under its own name fits where it no longer stands. -/
theorem fits_of_same_name {f t : LibraryFile} (h : L.OneCopy avid) (hf : f ∈ L.files) (hn : f.name = t.name) :
    Fits avid (L.remove f) t := by
  intro hb g hg hbg _
  obtain ⟨hg, hne⟩ := Library.mem_remove.1 hg
  rw [← hn] at hb ⊢
  exact h g hg f hf hbg hb hne

/-- No action the pipeline may take makes a second copy. -/
theorem oneCopy_step {videos : List Video} {op : LibraryOp} {r : Except Exn op.Res} (h : L.OneCopy avid)
    (hG : MayFile (Fits avid) L op) (ht : LibraryStep videos L op r L') : L'.OneCopy avid := by
  -- a call that is carried out; one that fails leaves the library as it is
  have run : (r, L') = L.run op → L'.OneCopy avid := by
    intro hr
    cases op with
    | moveIn video target =>
      simp only [Library.run] at hr
      split at hr
      · cases hr
        exact h
      · cases hr
        exact h.add hG
    | promote archived target =>
      simp only [Library.run] at hr
      split at hr
      · cases hr
        exact h
      split at hr
      · cases hr
        exact h
      rename_i hmem _
      cases hr
      exact h.remove.add (fits_of_same_name h (by simpa using hmem) hG)
    | _ =>
      cases hr
      exact h
  cases op with
  | outside o =>
    have : L' = L := by
      cases o with
      | ask q => cases q <;> exact ht.1
      | _ => exact ht.1
    rwa [this]
  | _ =>
    rcases ht with hr | ⟨rfl, -⟩
    · exact run hr
    · exact h

/-! ## Where a selection fits -/

theorem dot_not_mem_part (n : Nat) : '.' ∉ ("-cd" ++ Nat.repr n).toList := by
  rw [String.toList_append, Nat.toList_repr]
  intro h
  rcases List.mem_append.1 h with h | h
  · exact absurd h (by decide)
  · exact absurd (Nat.isDigit_of_mem_toDigits (by decide) (by decide) h) (by decide)

theorem targets_getElem {vs : List Video} {k : Nat} (hk : k < (Archive.targets avid vs own).length) :
    ∃ video, ((Archive.targets avid vs own).get ⟨k, hk⟩).2.name = Archive.targetName avid (1 < vs.length) k video := by
  have hk' : k < vs.length := by simpa [Archive.targets] using hk
  refine ⟨vs[k], ?_⟩
  simp [Archive.targets]

/-- The parts of one selection fit beside each other. -/
theorem targets_partsOf {vs : List Video} {i j : Nat} (hij : i < j) (hj : j < (Archive.targets avid vs own).length)
    (hbi : belongsTo avid ((Archive.targets avid vs own).get ⟨i, hij.trans hj⟩).2.name)
    (hbj : belongsTo avid ((Archive.targets avid vs own).get ⟨j, hj⟩).2.name) :
    PartsOf avid ((Archive.targets avid vs own).get ⟨i, hij.trans hj⟩).2.name ((Archive.targets avid vs own).get ⟨j, hj⟩).2.name := by
  have hlen : (Archive.targets avid vs own).length = vs.length := by simp [Archive.targets]
  have hmulti : 1 < vs.length := by omega
  have part : ∀ {k : Nat} (hk : k < (Archive.targets avid vs own).length),
      belongsTo avid ((Archive.targets avid vs own).get ⟨k, hk⟩).2.name →
        stem ((Archive.targets avid vs own).get ⟨k, hk⟩).2.name = avid.toList ++ ("-cd" ++ Nat.repr (k + 1)).toList := by
    intro k hk hb
    obtain ⟨video, hname⟩ := targets_getElem hk
    rw [Archive.targetName, if_pos (by simpa using hmulti)] at hname
    exact stem_of_belongsTo hname (dot_not_mem_part _) hb
  exact ⟨i + 1, j + 1, by omega, part _ hbi, part _ hbj⟩

/-- A selection fits where no file of its AVID is. -/
theorem opens_of_lacks {vs : List Video} (h : L.Lacks avid) : Opens (Fits avid) L (Archive.targets avid vs own) := by
  intro L' pre t post hts hback hb f hf hbf _
  rcases hback f hf with ⟨g, hg, hn⟩ | hpre
  · rw [← hn, h g hg] at hbf
    cases hbf
  · obtain ⟨t', ht', rfl⟩ := List.mem_map.1 hpre
    obtain ⟨i, hi, rfl⟩ := List.getElem_of_mem ht'
    have hlen : (Archive.targets avid vs own).length = pre.length + (post.length + 1) := by simp [hts]
    have hj : pre.length < (Archive.targets avid vs own).length := by omega
    have hti : (Archive.targets avid vs own).get ⟨i, hi.trans hj⟩ = pre[i] := by
      simp only [List.get_eq_getElem, hts, List.getElem_append_left hi]
    have htj : (Archive.targets avid vs own)[pre.length] = t := by simp [hts]
    rw [← hti] at hbf ⊢
    rw [← htj] at hb ⊢
    exact targets_partsOf hi hj hbf hb

theorem opens_of_foreign {vs : List Video} {avid' : Avid} (h : ∀ t ∈ Archive.targets avid' vs own, belongsTo avid t.2.name = false) :
    Opens (Fits avid) L (Archive.targets avid' vs own) := by
  intro L' pre t post hts _ hb
  rw [h t (by simp [hts])] at hb
  cases hb

end Invariant

/-! ## Runs -/

/-- What any sequence of calls makes of a library, wherever it is looked at; `ok` says
which call may be made of which library. A call that stops half way may be followed by
another. -/
inductive LibraryReach (arch : Archiver) (routes : LibraryRoutes) (ok : Library → ArchiveCall → Prop) (L₀ : Library) :
    Library → Prop
  | start : LibraryReach arch routes ok L₀ L₀
  | call {L L' : Library} (c : ArchiveCall) : LibraryReach arch routes ok L₀ L → ok L c →
      Prog.Stops (LibraryStep c.videos) L (c.program arch routes) L' → LibraryReach arch routes ok L₀ L'

/-- The call meets no file of the AVID it is for, is refused, or is for another AVID and
gives no file a name that reads as this one's. -/
def Admissible (arch : Archiver) (routes : LibraryRoutes) (avid : Avid) (L : Library) (c : ArchiveCall) : Prop :=
  ∀ s, c.selection arch = some s →
    Archive.refuses routes L s.avid s.videos c.dst c.priority = true ∨ (s.avid = avid ∧ L.Lacks avid) ∨
      ∀ own, ∀ t ∈ Archive.targets s.avid s.videos own, belongsTo avid t.2.name = false

/-- The brand of the AVID is pinned to a directory. -/
def Pinned (routes : LibraryRoutes) (avid : Avid) : Prop :=
  ∃ brand, getBrand avid = some brand ∧ Archive.brandRouted routes brand = true

section Reach
variable {arch : Archiver} {routes : LibraryRoutes} {avid : Avid} {L₀ L L' : Library} {c : ArchiveCall}

theorem Admissible.mayMove (h : Admissible arch routes avid L c) :
    ∀ s, c.selection arch = some s → MayMove (Fits avid) routes L s.avid s.videos c.dst c.priority := by
  intro s hs hno own _
  rcases h s hs with href | ⟨rfl, hlacks⟩ | hforeign
  · rw [hno] at href
    cases href
  · exact opens_of_lacks hlacks
  · exact opens_of_foreign (hforeign own)

/-- One call, stopped anywhere. -/
theorem oneCopy_call (h : L.OneCopy avid) (hok : Admissible arch routes avid L c)
    (ht : Prog.Stops (LibraryStep c.videos) L (c.program arch routes) L') : L'.OneCopy avid := by
  have hstep : ∀ (L : Library) op r L', L.OneCopy avid → MayFile (Fits avid) L op → LibraryStep c.videos L op r L' →
      L'.OneCopy avid := fun _ _ _ _ hI hG ht => oneCopy_step hI hG ht
  exact Prog.wp_stops (I := fun L => L.OneCopy avid) hstep (ArchiveCall.wp_program hok.mayMove) h ht

theorem oneCopy_reach (h₀ : L₀.OneCopy avid) (h : LibraryReach arch routes (Admissible arch routes avid) L₀ L) :
    L.OneCopy avid := by
  induction h with
  | start => exact h₀
  | call c _ hok ht ih => exact oneCopy_call ih hok ht

theorem filedAs_of_run {s : VideoSet} {result : ArchiveResult} (hs : c.selection arch = some s)
    (ht : Prog.Runs (LibraryStep c.videos) L (c.program arch routes) (.ok result) L') :
    FiledAs routes s c.dst c.priority L result L' := by
  have hfree : ∀ s, c.selection arch = some s → MayMove (fun _ _ => True) routes L s.avid s.videos c.dst c.priority :=
    fun _ _ _ _ _ _ _ _ _ _ _ => trivial
  exact Prog.wp_runs_ok (ArchiveCall.wp_program hfree) ht s hs

/-- In every run whose calls each meet no file of their AVID or are refused, the library
holds at most one copy of the AVID, between any two actions. A call that does not fail is
refused where the guards refuse it, and then nothing comes in under a new name; its videos
are filed where they do not and the library holds no file of the AVID, and, for a pinned
brand, whatever other destinations hold. -/
theorem keeps_one_copy (h₀ : L₀.OneCopy avid) (h : LibraryReach arch routes (Admissible arch routes avid) L₀ L) :
    L.OneCopy avid ∧ ∀ (c : ArchiveCall) (s : VideoSet) (result : ArchiveResult) (L' : Library),
      c.selection arch = some s → Prog.Runs (LibraryStep c.videos) L (c.program arch routes) (.ok result) L' →
      result.outcome ≠ .failed →
        (Archive.refuses routes L s.avid s.videos c.dst c.priority = true →
          result = { outcome := .needsAttention, avid := s.avid, reason := "destination already holds this avid" } ∧
            SameNames L L') ∧
        (Archive.refuses routes L s.avid s.videos c.dst c.priority = false → s.videos ≠ [] →
          L.Lacks s.avid ∨ Pinned routes s.avid → result.outcome = .archived ∧
            ∃ own, Archive.findDstDir routes s.avid c.dst = some own ∧
              ∀ t ∈ Archive.targets s.avid s.videos own, t.2 ∈ L'.files) := by
  refine ⟨oneCopy_reach h₀ h, fun c s result L' hs ht hne => ?_⟩
  rcases filedAs_of_run hs ht with hfail | ⟨paths, ⟨href, hfile⟩, hresult⟩
  · exact absurd hfail hne
  refine ⟨fun hr => ?_, fun hr hvs _ => ?_⟩
  · obtain ⟨rfl, hsame⟩ := href hr
    exact ⟨hresult, hsame⟩
  · obtain ⟨own, hown, rfl, hin⟩ := hfile hr
    have hpaths : (Archive.targets s.avid s.videos own).map (fun t => Archive.LibraryFile.display t.2) ≠ [] := by
      simpa [Archive.targets] using hvs
    rw [if_neg hpaths] at hresult
    exact ⟨by rw [hresult], own, hown, hin⟩

end Reach

/-! ## Runs on a given library -/

namespace LibraryExample

/-- The library's part, and an outside that never refuses anything. -/
def answer (videos : List Video) (L : Library) : (op : LibraryOp) → Except Exn op.Res × Library
  | .outside (.ask (.isDir _)) => (.ok true, L)
  | .outside (.ask (.largeVideos _)) => (.ok videos, L)
  | .outside (.ask (.unlink _)) | .outside (.ask (.discard _)) => (.ok (), L)
  | .outside _ => (.error (.failure ""), L)
  | op => L.run op

theorem answer_step (videos : List Video) (L : Library) (op : LibraryOp) :
    LibraryStep videos L op (answer videos L op).1 (answer videos L op).2 := by
  cases op with
  | outside o =>
    cases o with
    | ask q =>
      cases q with
      | largeVideos => exact ⟨rfl, .inl ⟨_, rfl, rfl⟩⟩
      | isDir | unlink | discard => exact ⟨rfl, .inl ⟨_, rfl⟩⟩
      | _ => exact ⟨rfl, .inr ⟨_, rfl, trivial⟩⟩
    | _ => exact ⟨rfl, .inr ⟨_, rfl, trivial⟩⟩
  | _ => exact .inl rfl

/-- A parser that reads one AVID off everything. -/
def arch : Archiver where
  getAvid _ := "ABC-123"
  dropCopies := id
  arrange videos _ := some videos

def release : ArchiveCall :=
  .folder ⟨"intake/release", "release"⟩ [⟨"intake/release/abc-123.mp4", "abc-123.mp4", 900⟩] "sorted" false ""

/-- One normal and one priority route. -/
def routes : LibraryRoutes := ⟨[("intake", "sorted")], [("vip", "starred")], []⟩

/-- The same with a pinned brand. -/
def pinned : LibraryRoutes := { routes with brandMapping := [("special", ["ABC"])] }

def starred : LibraryFile := ⟨⟨"starred", "ABC"⟩, "ABC-123.mp4"⟩

def filed (routes : LibraryRoutes) (L : Library) : Except Exn ArchiveResult × Library :=
  (release.program arch routes).exec (answer release.videos) L

theorem filed_runs (routes : LibraryRoutes) (L : Library) :
    Prog.Runs (LibraryStep release.videos) L (release.program arch routes) (filed routes L).1 (filed routes L).2 :=
  Prog.exec_runs (answer_step release.videos) L _

theorem selection_release : release.selection arch = some ⟨"ABC-123", release.videos⟩ := by decide

/-- A video under the bare AVID is no part of a set. -/
theorem not_partsOf {avid : Avid} {name name' : String} (h : stem name = avid.toList) : ¬PartsOf avid name name' := by
  rintro ⟨i, j, -, hi, -⟩
  rw [h] at hi
  have hlen := congrArg List.length hi
  simp only [List.length_append, String.toList_append] at hlen
  have : ("-cd".toList).length = 3 := by decide
  omega

end LibraryExample

open LibraryExample in
/-- The first release is filed, and the next one brings nothing in. -/
theorem keeps_one_copy_release :
    (filed routes ⟨[], [], []⟩).2.OneCopy "ABC-123" ∧
      SameNames (filed routes ⟨[], [], []⟩).2 (filed routes (filed routes ⟨[], [], []⟩).2).2 := by
  have hlacks : (⟨[], [], []⟩ : Library).Lacks "ABC-123" := by rintro f ⟨⟩
  have hok : Admissible arch routes "ABC-123" ⟨[], [], []⟩ release := by
    intro s hs
    rw [selection_release] at hs
    cases hs
    exact .inr (.inl ⟨rfl, hlacks⟩)
  have h := keeps_one_copy hlacks.oneCopy (.call release .start hok (filed_runs routes _).stops)
  refine ⟨h.1, ?_⟩
  have hrun : (filed routes (filed routes ⟨[], [], []⟩).2).1 =
      .ok { outcome := .needsAttention, avid := "ABC-123", reason := "destination already holds this avid" } := by
    decide
  have hagain := filed_runs routes (filed routes ⟨[], [], []⟩).2
  rw [hrun] at hagain
  have hrefuses : Archive.refuses routes (filed routes ⟨[], [], []⟩).2 "ABC-123" release.videos "sorted" false = true := by
    decide
  exact ((h.2 release _ _ _ selection_release hagain (by decide)).1 hrefuses).2

open LibraryExample in
/-- A brand that is pinned later than a priority route has filed one of its titles gets a second copy. -/
theorem pinned_brand_second_copy :
    ¬∀ (arch : Archiver) (routes : LibraryRoutes) (avid : Avid) (L₀ L : Library), L₀.OneCopy avid →
      LibraryReach arch routes (fun _ _ => True) L₀ L → L.OneCopy avid := by
  intro h
  have hone : (⟨[starred], [], []⟩ : Library).OneCopy "ABC-123" := by
    intro f hf g hg _ _ hne
    rw [List.mem_singleton.1 hf, List.mem_singleton.1 hg] at hne
    exact absurd rfl hne
  have htwo := h arch pinned "ABC-123" _ _ hone (.call release .start trivial (filed_runs pinned _).stops)
  have hfiles : (filed pinned ⟨[starred], [], []⟩).2.files = [⟨⟨"special", "ABC"⟩, "ABC-123.mp4"⟩, starred] := by
    decide
  have hparts := htwo ⟨⟨"special", "ABC"⟩, "ABC-123.mp4"⟩ (by rw [hfiles]; simp) starred (by rw [hfiles]; simp)
    (by decide) (by decide) (by decide)
  exact not_partsOf (by decide) hparts

end EmbyxManager
