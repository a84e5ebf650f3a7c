import EmbyxManager.Core.Avid
import EmbyxManager.Monitor.AllOrNothing
/-!
# What can be filed

A folder with one video, an empty library, and no call that fails. The destination is read off
the AVID a second time, by `get_brand`, which wants a `-` with something before it. The parser
also accepts IDs without one (`N1234`, `RED123`), and those have no directory to go to.
-/

namespace EmbyxManager.FolderFiling
open Atom Prog EmbyxManager.Core

/-! ## The pipeline with its parser -/

/-- The archive pipeline with the AVIDs its parser reads. -/
def archiver (p : AvidParser) (fuel : Nat) (fold : Char → List Char) : Arranger :=
  { Parts.pipeline fold fun name => String.ofList ((p.getAvid fuel name.toList).getD []) with
    weighed := weighedRips fold }

/-- No call fails. -/
abbrev smooth : Env FolderOp.Res Exn Tried := fails fun _ _ => False

/-- Where a brand goes by a route: `brand_mapping` may send it elsewhere. -/
def destination (routes : LibraryRoutes) (dst brand : String) : String :=
  match routes.brandMapping.find? fun entry => brand ∈ entry.2 with
  | some entry => entry.1
  | none => dst

/-- The brand `get_brand` reads names a directory. -/
def HasBrand (avid : List Char) : Prop := '-' ∈ avid ∧ avid.head? ≠ some '-'

instance (avid : List Char) : Decidable (HasBrand avid) := inferInstanceAs (Decidable (_ ∧ _))

/-- `{dst}/{brand}/{avid}{suffix}` of a video, the destination a function of the brand. -/
def IsPlace (home : String → String) (avid : Avid) (v : Video) (f : LibraryFile) : Prop :=
  ∃ brand, getBrand avid = some brand ∧ f = ⟨⟨home brand, brand⟩, avid ++ String.ofList (suffix v.name)⟩

/-- The call ends, and however it ends the video has been archived in its place. -/
def Fileable (arch : Arranger) (routes : LibraryRoutes) (folder : Folder) (dst : String) (priority : Bool) (expected : Avid)
    (w : FolderState) (place : LibraryFile → Prop) : Prop :=
  (∃ out s', Runs smooth ⟨w, false⟩ (archiveFolder arch routes folder dst priority expected) out s') ∧
    ∀ out s', Runs smooth ⟨w, false⟩ (archiveFolder arch routes folder dst priority expected) out s' →
      ∃ result, out = .ok result ∧ result.outcome = .archived ∧ ∃ f ∈ s'.state.library.files, place f

/-! ## The directory of a brand -/

theorem getBrand_none {avid : Avid} (h : '-' ∉ avid.toList) : getBrand avid = none := if_neg h

theorem getBrand_some {avid : Avid} (h : '-' ∈ avid.toList) :
    ∃ brand, getBrand avid = some brand ∧ (brand = "" ↔ avid.toList.head? = some '-') := by
  have hempty : avid.toList.takeWhile (· ≠ '-') = [] ↔ avid.toList.head? = some '-' := by
    generalize avid.toList = cs at h ⊢
    cases cs with
    | nil => cases h
    | cons c cs => by_cases hc : c = '-' <;> simp [hc]
  unfold getBrand
  rw [if_pos h]
  dsimp only
  generalize avid.toList.takeWhile (· ≠ '-') = brand at hempty ⊢
  generalize (if brand.getLast? = some '\n' then brand.dropLast else brand) = number
  split
  · rename_i hnumber
    refine ⟨_, rfl, ?_⟩
    rw [← hempty]
    cases brand with
    | nil => simp at hnumber
    | cons c cs => simp
  · refine ⟨_, rfl, ?_⟩
    rw [← hempty]
    simp

/-- An AVID goes somewhere exactly when it has a brand. -/
theorem findDstDir_cases (routes : LibraryRoutes) (dst : String) (avid : Avid) :
    (HasBrand avid.toList ∧ ∃ brand, getBrand avid = some brand ∧
        Archive.findDstDir routes avid dst = some ⟨destination routes dst brand, brand⟩) ∨
      (¬HasBrand avid.toList ∧ Archive.findDstDir routes avid dst = none) := by
  by_cases hdash : '-' ∈ avid.toList
  · obtain ⟨brand, hbrand, hempty⟩ := getBrand_some hdash
    by_cases hb : brand = ""
    · refine .inr ⟨fun h => h.2 (hempty.1 hb), ?_⟩
      unfold Archive.findDstDir
      rw [hbrand]
      exact if_pos hb
    · refine .inl ⟨⟨hdash, fun h => hb (hempty.2 h)⟩, brand, hbrand, ?_⟩
      unfold Archive.findDstDir destination
      rw [hbrand]
      dsimp only
      rw [if_neg hb]
      cases routes.brandMapping.find? fun entry => brand ∈ entry.2 <;> rfl
  · refine .inr ⟨fun h => hdash h.1, ?_⟩
    unfold Archive.findDstDir
    rw [getBrand_none hdash]

/-! ## One video -/

section one
variable {p : AvidParser} {fuel : Nat} {fold : Char → List Char} {v : Video} {a : List Char} {expected : Avid}
  {folder : Folder} {routes : LibraryRoutes} {dst : String} {priority : Bool} {s : Tried} {L : Library}

theorem admits_smooth : Admits smooth fun _ _ => False := fun _ _ _ _ h => h

theorem tolerates_smooth {X : Exn → Tried → Prop} {w : FolderState} : Tolerates (fun _ _ => False) X w :=
  fun _ _ _ _ h => h.elim

theorem dropCopies_one : (archiver p fuel fold).dropCopies [v] = [v] :=
  Parts.dropDuplicateCopies_eq (t := Parts.withoutDigits v.name) (by simp)

/-- The one video is selected under the AVID of its name. -/
theorem select_one (hread : p.getAvid fuel v.name.toList = some a) (hne : a ≠ [])
    (hexp : expected = "" ∨ expected = String.ofList a) :
    Archive.select (archiver p fuel fold).toArchiver folder.name [v] expected = .ok ⟨String.ofList a, [v]⟩ := by
  have hread' : (archiver p fuel fold).getAvid v.name = String.ofList a := by
    change String.ofList ((p.getAvid fuel v.name.toList).getD []) = _
    rw [hread]
    rfl
  have hne' : String.ofList a ≠ "" := by simpa using hne
  have hid : Archive.identifyAvid (archiver p fuel fold).toArchiver folder.name [v] expected = .ok (String.ofList a) := by
    unfold Archive.identifyAvid
    rw [List.map_singleton, hread', List.dedup_cons_of_notMem (List.not_mem_nil), List.dedup_nil]
    dsimp only
    unfold Archive.reconcileAvid
    dsimp only
    rw [if_neg hne', if_neg hne', if_pos]
    exact hexp.imp_right Eq.symm
  unfold Archive.select
  rw [if_neg (List.cons_ne_nil v [])]
  dsimp only
  rw [dropCopies_one, hid]
  exact if_pos (Nat.le_refl 1)

variable (hfiles : s.state.library.files = []) (hothers : s.state.library.others = [])
include hfiles

theorem matching_empty {avid : Avid} {d : BrandDir} : s.state.library.matching avid d = [] := by
  refine List.eq_nil_iff_forall_not_mem.2 fun name hn => ?_
  have hf := (Library.mem_matching.1 hn).1
  rw [hfiles] at hf
  cases hf

include hothers

/-- What is there of the library once the only target is filled. -/
theorem wp_fileTargets_one {own : BrandDir} {avid : Avid} {X : Exn → Tried → Prop} :
    (Archive.fileTargets own (Archive.targets avid [v] own)).wp (inLibrary smooth) Always
      (fun paths s' => paths ≠ [] ∧ s'.state.library.files = [⟨own, avid ++ String.ofList (suffix v.name)⟩]) X s := by
  have htargets : Archive.targets avid [v] own = [(v, ⟨own, avid ++ String.ofList (suffix v.name)⟩)] := by
    simp [Archive.targets, Archive.targetName]
  rw [htargets]
  generalize (⟨own, avid ++ String.ofList (suffix v.name)⟩ : LibraryFile) = target
  have hfree : s.state.library.pathExists target = false := by
    simp [Library.pathExists, hfiles, hothers]
  unfold Archive.fileTargets
  refine (wp_bind _ _).2 (wp_taken admits_smooth tolerates_smooth (wp_ite (fun h => ?_) fun _ => ?_))
  · simp [hfree] at h
  refine (wp_bind _ _).2 ((wp_call _).2 ⟨trivial, ?_, ?_⟩)
  · rintro ⟨⟩ s' (⟨hmade, -⟩ | ⟨-, hmay, -⟩)
    · have hstate : s'.state = { s.state with library := { s.state.library with dirs := own :: s.state.library.dirs } } :=
        congrArg Prod.snd hmade
      -- nothing stands in the way of the move
      have hrun : s'.state.run (.call (.moveIn v target)) = (.ok (), { s'.state with
          videos := s'.state.videos.filter (·.path ≠ v.path), library := s'.state.library.add target }) := by
        refine if_neg ?_
        rw [hstate]
        simp [hothers]
      refine (wp_bind _ _).2 ((wp_forEach_cons _ _).2 ((wp_call _).2 ⟨trivial, ?_, ?_⟩))
      · rintro ⟨⟩ s'' (⟨hmoved, -⟩ | ⟨-, hmay, -⟩)
        · have hstate' := (congrArg Prod.snd hmoved).trans (congrArg Prod.snd hrun)
          refine ⟨List.cons_ne_nil _ _, ?_⟩
          change s''.state = _ at hstate'
          rw [hstate', hstate]
          simp [Library.add, hfiles]
        · exact hmay.elim
      · rintro e s'' (⟨hmoved, -⟩ | ⟨-, hmay, -⟩)
        · cases (congrArg Prod.fst hmoved).trans (congrArg Prod.fst hrun)
        · exact hmay.elim
    · exact hmay.elim
  · rintro e s' (⟨hmade, -⟩ | ⟨-, hmay, -⟩)
    · cases congrArg Prod.fst hmade
    · exact hmay.elim

/-- A brand's directory is empty: nothing is taken over, and no other route holds the AVID. -/
theorem wp_moveIntoLibrary_one {own : BrandDir} {avid : Avid} (hown : Archive.findDstDir routes avid dst = some own)
    {X : Exn → Tried → Prop} :
    (Archive.moveIntoLibrary routes avid [v] dst priority).wp (inLibrary smooth) Always
      (fun paths s' => paths ≠ [] ∧ s'.state.library.files = [⟨own, avid ++ String.ofList (suffix v.name)⟩]) X s := by
  unfold Archive.moveIntoLibrary
  rw [hown]
  have hkeeps : ¬TakesOver routes s.state.library avid dst priority := by
    rintro ⟨own', -, -, -, d, -, -, name, hn, -⟩
    rw [matching_empty hfiles] at hn
    cases hn
  have hheld : Archive.heldElsewhere routes s.state.library own avid = false := by
    simp [Archive.heldElsewhere, matching_empty hfiles]
  refine (wp_bind _ _).2 (wp_guardRoutes_idle admits_smooth tolerates_smooth hown hkeeps ?_)
  rw [hheld, Bool.and_false]
  exact wp_fileTargets_one hfiles hothers

theorem wp_fileSelection_one {own : BrandDir} {avid : Avid} (hown : Archive.findDstDir routes avid dst = some own) :
    (fileSelection routes folder ⟨avid, [v]⟩ dst priority).wp smooth Always
      (fun result s' => result.outcome = .archived ∧
        s'.state.library.files = [⟨own, avid ++ String.ofList (suffix v.name)⟩]) (fun _ _ => False) s := by
  unfold fileSelection
  refine (wp_bind _ _).2 ((wp_attempt _).2 (wp_onLibrary ?_))
  refine wp_mono (wp_moveIntoLibrary_one hfiles hothers hown (X := fun _ _ => False)) ?_ fun _ _ h => h.elim
  rintro paths s' ⟨hne, hin⟩
  cases paths with
  | nil => exact absurd rfl hne
  | cons path paths =>
    refine (wp_bind _ _).2 ((wp_discard _).2 ((wp_attempt _).2 ((wp_call _).2 ⟨trivial, ?_, ?_⟩)))
    · rintro r s'' (⟨hrun, -⟩ | ⟨-, hmay, -⟩)
      · refine ⟨rfl, ?_⟩
        rw [congrArg (·.2.library.files) hrun]
        exact hin
      · exact hmay.elim
    · rintro e s'' (⟨hrun, -⟩ | ⟨-, hmay, -⟩)
      · cases congrArg Prod.fst hrun
      · exact hmay.elim

omit hfiles hothers in
/-- Without a directory to go to it is refused. -/
theorem wp_fileSelection_none {avid : Avid} (hown : Archive.findDstDir routes avid dst = none) :
    (fileSelection routes folder ⟨avid, [v]⟩ dst priority).wp smooth Always
      (fun result _ => result.outcome = .needsAttention) (fun _ _ => False) s := by
  unfold fileSelection
  refine (wp_bind _ _).2 ((wp_attempt _).2 (wp_onLibrary ?_))
  unfold Archive.moveIntoLibrary
  rw [hown]
  exact rfl

end one

section archive
variable {p : AvidParser} {fuel : Nat} {fold : Char → List Char} {v : Video} {a : List Char} {expected : Avid}
  {folder : Folder} {routes : LibraryRoutes} {dst : String} {priority : Bool} {L : Library}

/-- What filing the selected video comes to is what the whole call comes to. -/
theorem wp_archiveFolder_one (hread : p.getAvid fuel v.name.toList = some a) (hne : a ≠ [])
    (hexp : expected = "" ∨ expected = String.ofList a) {Q : ArchiveResult → Tried → Prop}
    (h : (fileSelection routes folder ⟨String.ofList a, [v]⟩ dst priority).wp smooth Always Q (fun _ _ => False)
      ⟨⟨true, [v], L⟩, false⟩) :
    (archiveFolder (archiver p fuel fold) routes folder dst priority expected).wp smooth Always Q (fun _ _ => False)
      ⟨⟨true, [v], L⟩, false⟩ := by
  unfold archiveFolder
  refine (wp_bind _ _).2 (wp_inspectFolder admits_smooth tolerates_smooth ?_ ?_ ?_)
  · intro _ u hu
    change u ∈ (archiver p fuel fold).dropCopies [v]
    rw [dropCopies_one]
    exact hu
  · intro hdir
    cases hdir
  · intro _
    have hselect : Archive.select (archiver p fuel fold).toArchiver folder.name [v] expected = _ := select_one hread hne hexp
    dsimp only
    rw [hselect]
    exact h

theorem smooth_total (s : Tried) (op : FolderOp) : ∃ r s', smooth s op r s' :=
  ⟨_, ⟨(s.state.run op).2, s.failed⟩, .inl ⟨rfl, rfl⟩⟩

/-- Filed where `home` says exactly when there is a brand and its destination is that one. -/
theorem fileable_of_reads (hread : p.getAvid fuel v.name.toList = some a) (hne : a ≠ [])
    (hexp : expected = "" ∨ expected = String.ofList a) (hfiles : L.files = []) (hothers : L.others = [])
    (home : String → String) :
    Fileable (archiver p fuel fold) routes folder dst priority expected ⟨true, [v], L⟩ (IsPlace home (String.ofList a) v) ↔
      HasBrand a ∧ ∀ brand, getBrand (String.ofList a) = some brand → home brand = destination routes dst brand := by
  have hlist : (String.ofList a).toList = a := String.toList_ofList
  obtain ⟨out, s', hrun⟩ := exists_runs smooth_total
    (archiveFolder (archiver p fuel fold) routes folder dst priority expected) ⟨⟨true, [v], L⟩, false⟩
  -- without a brand there is no directory to file into
  rcases findDstDir_cases routes dst (String.ofList a) with ⟨hbrand, brand, hget, hown⟩ | ⟨hnone, hown⟩
  · have filed : (archiveFolder (archiver p fuel fold) routes folder dst priority expected).wp smooth Always _ _
        ⟨⟨true, [v], L⟩, false⟩ :=
      wp_archiveFolder_one hread hne hexp (wp_fileSelection_one hfiles hothers hown)
    rw [hlist] at hbrand
    constructor
    · rintro ⟨-, hall⟩
      refine ⟨hbrand, fun brand' hget' => ?_⟩
      obtain rfl : brand = brand' := Option.some.inj (hget.symm.trans hget')
      obtain ⟨result, rfl, -, f, hf, brand', hget', hplace⟩ := hall out s' hrun
      obtain rfl : brand = brand' := Option.some.inj (hget.symm.trans hget')
      obtain ⟨-, hin⟩ := wp_runs_ok filed hrun
      rw [hin] at hf
      have heq := hplace.symm.trans (List.mem_singleton.1 hf)
      exact congrArg (·.dir.dst) heq
    · rintro ⟨-, hhome⟩
      refine ⟨⟨out, s', hrun⟩, fun out' s'' hrun' => ?_⟩
      cases out' with
      | error e => exact (wp_runs_error filed hrun').elim
      | ok result =>
        obtain ⟨hout, hin⟩ := wp_runs_ok filed hrun'
        refine ⟨result, rfl, hout, _, by rw [hin]; exact List.mem_cons_self, brand, hget, ?_⟩
        rw [hhome brand hget]
  · have refused : (archiveFolder (archiver p fuel fold) routes folder dst priority expected).wp smooth Always _ _
        ⟨⟨true, [v], L⟩, false⟩ :=
      wp_archiveFolder_one hread hne hexp (wp_fileSelection_none hown)
    rw [hlist] at hnone
    constructor
    · rintro ⟨-, hall⟩
      obtain ⟨result, rfl, harchived, -⟩ := hall out s' hrun
      have hout := (wp_runs refused hrun).1 result rfl
      rw [hout] at harchived
      cases harchived
    · rintro ⟨hbrand, -⟩
      exact absurd hbrand hnone

/-- The one video of a folder is filed exactly when the AVID it reads as has a `-` with something
before it. It is then in the directory of the route unless `brand_mapping` sends its brand elsewhere. -/
theorem filed_iff_hasBrand (hread : p.getAvid fuel v.name.toList = some a) (hne : a ≠ [])
    (hexp : expected = "" ∨ expected = String.ofList a) (hfiles : L.files = []) (hothers : L.others = []) :
    (Fileable (archiver p fuel fold) routes folder dst priority expected ⟨true, [v], L⟩
        (IsPlace (destination routes dst) (String.ofList a) v) ↔ HasBrand a) ∧
      (Fileable (archiver p fuel fold) routes folder dst priority expected ⟨true, [v], L⟩
        (IsPlace (fun _ => dst) (String.ofList a) v) ↔
          HasBrand a ∧ ∀ brand, getBrand (String.ofList a) = some brand → dst = destination routes dst brand) := by
  refine ⟨?_, fileable_of_reads hread hne hexp hfiles hothers _⟩
  rw [fileable_of_reads hread hne hexp hfiles hothers]
  exact and_iff_left fun _ _ => rfl

end archive

/-! ## A name with a hyphen and one without -/

namespace Fileable

/-- The parser as it is set up by default, on plain ASCII. -/
def parser : AvidParser := ⟨[], id, List.map Char.toUpper, Char.isAlphanum⟩

def noRoutes : LibraryRoutes := ⟨[], [], []⟩

def empty : Library := { files := [] }

end Fileable

open Fileable in
theorem filed_iff_hasBrand_abc :
    (Fileable (archiver parser 9 fun c => [c.toLower]) noRoutes ⟨"f", "f"⟩ "d" false ""
        ⟨true, [⟨"f/abc-12.mp4", "abc-12.mp4", 900⟩], empty⟩
        (IsPlace (destination noRoutes "d") (String.ofList "ABC-012".toList) ⟨"f/abc-12.mp4", "abc-12.mp4", 900⟩) ↔
          HasBrand "ABC-012".toList) ∧
      (Fileable (archiver parser 9 fun c => [c.toLower]) noRoutes ⟨"f", "f"⟩ "d" false ""
        ⟨true, [⟨"f/abc-12.mp4", "abc-12.mp4", 900⟩], empty⟩
        (IsPlace (fun _ => "d") (String.ofList "ABC-012".toList) ⟨"f/abc-12.mp4", "abc-12.mp4", 900⟩) ↔
          HasBrand "ABC-012".toList ∧ ∀ brand, getBrand (String.ofList "ABC-012".toList) = some brand →
            "d" = destination noRoutes "d" brand) :=
  filed_iff_hasBrand (by decide) (by decide) (.inl rfl) rfl rfl

open Fileable in
/-- `n1234.mp4` is read as `N1234`, and the folder is filed nowhere. -/
theorem not_filed_n1234 :
    parser.getAvid 9 "n1234.mp4".toList = some "N1234".toList ∧
      ¬∃ home, Fileable (archiver parser 9 fun c => [c.toLower]) noRoutes ⟨"f", "f"⟩ "d" false ""
        ⟨true, [⟨"f/n1234.mp4", "n1234.mp4", 900⟩], empty⟩
        (IsPlace home (String.ofList "N1234".toList) ⟨"f/n1234.mp4", "n1234.mp4", 900⟩) := by
  have hread : parser.getAvid 9 "n1234.mp4".toList = some "N1234".toList := by decide
  refine ⟨hread, ?_⟩
  rintro ⟨home, h⟩
  have hbrand := ((fileable_of_reads (v := ⟨"f/n1234.mp4", "n1234.mp4", 900⟩) hread (by decide) (.inl rfl) rfl rfl _).1 h).1
  exact absurd hbrand (by decide)

end EmbyxManager.FolderFiling
