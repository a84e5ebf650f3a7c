import EmbyxManager.Atom.Register
import EmbyxManager.Monitor.Alone
/-!
# Which category files an AVID

Categories are configured in the order of their precedence, and may share
directories. Discovery decides between two of them at a time, by the source and
the directory the row carries: the row is a register that the sighting
categories see one after another, its place the directory, its owner the source.

So an AVID ends up with the directory of the earliest category that sighted it,
whatever the order of the sightings, exactly when no category stands between two
that share a directory it does not share.
-/

namespace EmbyxManager
open Atom Prog AcquisitionRepository

/-- `RssConfig.categories`: no label twice. -/
structure CategoryList where
  categories : List RssCategory
  unique : (categories.map (·.label)).Nodup

namespace CategoryList
variable (cs : CategoryList)

/-- Its place in the order of precedence. -/
abbrev Rank := Fin cs.categories.length

def source (i : cs.Rank) : String := rssSource cs.categories[i].label

def dir (i : cs.Rank) : String := cs.categories[i].taskDirPath

end CategoryList

/-- A sighting by a category, with whatever else it carries. -/
structure CategorySighting (cs : CategoryList) where
  category : cs.Rank
  at_ : Time
  carried : SightingArgs

/-- The category as the source, yielding to those configured ahead of it. -/
def CategorySighting.args {cs : CategoryList} (s : CategorySighting cs) : SightingArgs :=
  { s.carried with
    source := cs.source s.category
    taskDirPath := some (cs.dir s.category)
    yieldsTo := Rss.outrankingSources cs.categories cs.categories[s.category] }

/-- The sightings of one AVID, in this order; true when discovery accepted them all. -/
def sightAll {cs : CategoryList} (avid : Avid) (sightings : List (CategorySighting cs)) : M Bool :=
  Prog.foldEach sightings true fun ok s => do
    let accepted ← discover avid s.at_ s.args
    pure (ok && accepted)

/-! ## Sources -/

theorem rssSource_inj {a b : String} (h : rssSource a = rssSource b) : a = b := (String.append_right_inj "rss:").1 h

/-- A category ahead is one of an earlier rank. -/
theorem mem_outrankingSources {categories : List RssCategory} (hu : (categories.map (·.label)).Nodup) {i j : Nat}
    {a b : RssCategory} (ha : categories[i]? = some a) (hb : categories[j]? = some b) :
    rssSource a.label ∈ Rss.outrankingSources categories b ↔ i < j := by
  induction categories generalizing i j with
  | nil => simp at ha
  | cons x categories ih =>
    simp only [List.map_cons, List.nodup_cons] at hu
    have ne_of_tail : ∀ {c : RssCategory} {n : Nat}, categories[n]? = some c → x.label ≠ c.label := fun hc he =>
      hu.1 (he ▸ List.mem_map_of_mem (List.mem_of_getElem? hc))
    cases j with
    | zero =>
      simp only [List.getElem?_cons_zero, Option.some.injEq] at hb
      subst hb
      simp [Rss.outrankingSources]
    | succ j =>
      simp only [List.getElem?_cons_succ] at hb
      have htail : Rss.outrankingSources (x :: categories) b = rssSource x.label :: Rss.outrankingSources categories b := by
        simp [Rss.outrankingSources, ne_of_tail hb]
      rw [htail, List.mem_cons]
      cases i with
      | zero =>
        simp only [List.getElem?_cons_zero, Option.some.injEq] at ha
        subst ha
        simp
      | succ i =>
        simp only [List.getElem?_cons_succ] at ha
        have hne : rssSource a.label ≠ rssSource x.label := fun he => ne_of_tail ha (rssSource_inj he).symm
        simp [hne, ih hu.2 ha hb]

namespace CategoryList
variable {cs : CategoryList}

theorem mem_yieldsTo {i : cs.Rank} {s : CategorySighting cs} : cs.source i ∈ s.args.yieldsTo ↔ i < s.category :=
  mem_outrankingSources cs.unique (List.getElem?_eq_getElem i.isLt) (List.getElem?_eq_getElem s.category.isLt)

/-- Sightings yield to categories only. -/
theorem source_of_yieldsTo {source : String} {s : CategorySighting cs} (h : source ∈ s.args.yieldsTo) :
    ∃ i, source = cs.source i := by
  simp only [CategorySighting.args, Rss.outrankingSources, List.mem_map] at h
  obtain ⟨c, hc, rfl⟩ := h
  obtain ⟨i, hi, he⟩ := List.getElem_of_mem ((List.takeWhile_sublist _).subset hc)
  exact ⟨⟨i, hi⟩, congrArg (rssSource ·.label) he.symm⟩

/-- The category this source is, if it is one. -/
def Owns (cs : CategoryList) (source : String) : Option cs.Rank → Prop
  | none => ∀ i, source ≠ cs.source i
  | some i => source = cs.source i

/-- The row is there to be filed, and the register reads its source and its directory. -/
def Shows (cs : CategoryList) : Option AcquisitionRecord → Register cs.Rank (Option String) → Prop
  | none, r => r = ⟨none, none⟩
  | some row, r => row.state = .discovered ∧ cs.Owns row.source r.owner ∧ row.taskDirPath = r.place

/-- The directory of a category, as the row carries it. -/
def place (cs : CategoryList) (i : cs.Rank) : Option String := some (cs.dir i)

theorem Shows.place {row : Option AcquisitionRecord} {r : Register cs.Rank (Option String)} (h : cs.Shows row r) :
    row.bind (·.taskDirPath) = r.place := by
  cases row with
  | none => rw [h]; rfl
  | some row => exact h.2.2

theorem shows_new (s : CategorySighting cs) (avid : Avid) (next : Option Time) (date : Option Date) :
    cs.Shows (some (Ledger.discoveredRow avid s.args.source s.args.taskDirPath next date s.at_))
      ((⟨none, none⟩ : Register cs.Rank (Option String)).see cs.place s.category) :=
  ⟨rfl, rfl, rfl⟩

/-- Discovery respects the owner exactly as the register does. -/
theorem ownedElsewhere_iff {row : AcquisitionRecord} {owner : Option cs.Rank} (h : cs.Owns row.source owner)
    (s : CategorySighting cs) : ownedElsewhere row s.args = owner.any (· < s.category) := by
  rw [Bool.eq_iff_iff]
  simp only [ownedElsewhere, decide_eq_true_eq, Option.any_eq_true]
  cases owner with
  | none =>
    constructor
    · rintro ⟨-, hm⟩
      obtain ⟨i, hi⟩ := source_of_yieldsTo hm
      exact absurd hi (h i)
    · rintro ⟨i, hi, -⟩
      cases hi
  | some i =>
    have hs : row.source = cs.source i := h
    rw [hs]
    constructor
    · rintro ⟨-, hm⟩
      exact ⟨i, rfl, mem_yieldsTo.1 hm⟩
    · rintro ⟨j, hj, hlt⟩
      cases hj
      refine ⟨fun he => ?_, mem_yieldsTo.2 hlt⟩
      have := mem_yieldsTo.2 hlt
      rw [he] at this
      exact lt_irrefl _ (mem_yieldsTo.1 this)

theorem shows_resighted {row : AcquisitionRecord} {r : Register cs.Rank (Option String)} (h : cs.Shows (some row) r)
    (s : CategorySighting cs) : cs.Shows (some (row.resighted s.args)) (r.see cs.place s.category) := by
  obtain ⟨hstate, howns, hplace⟩ := h
  have hdir : s.args.taskDirPath = cs.place s.category := rfl
  refine ⟨hstate, ?_⟩
  simp only [AcquisitionRecord.resighted, hdir, ownedElsewhere_iff howns, hplace, Register.see]
  by_cases hp : r.place = cs.place s.category
  · rw [if_pos hp, if_neg (fun hm => hm.2.1 hp), if_neg (fun hm => hm.2.1 hp)]
    exact ⟨howns, rfl⟩
  · rw [if_neg hp]
    by_cases ho : r.owner.any (· < s.category) = true
    · rw [if_pos ho, if_neg (by simp [ho]), if_neg (by simp [ho])]
      exact ⟨howns, rfl⟩
    · have hm : (cs.place s.category).isSome = true ∧ r.place ≠ cs.place s.category ∧
          (!r.owner.any (· < s.category)) = true := ⟨rfl, hp, by simpa using ho⟩
      rw [if_neg ho, if_pos hm, if_pos hm]
      exact ⟨rfl, rfl⟩

end CategoryList

/-! ## The sightings and the register -/

section Sightings
variable {cs : CategoryList} {avid : Avid}

/-- The row follows the register, and discovery accepts every sighting. -/
theorem wp_sightAll {ι : Type} {T : Env Op.Res Exn (World ι)} {X : Exn → World ι → Prop} (h : FromLedger T X)
    {w : World ι} {p₀ : Option String} (hs : cs.Shows (w.ledger.acq avid) ⟨none, p₀⟩)
    (sightings : List (CategorySighting cs)) :
    (sightAll avid sightings).wp T (fun _ _ => True)
      (fun ok w' => ok = true ∧
        cs.Shows (w'.ledger.acq avid) (Register.seeAll cs.place p₀ (sightings.map (·.category)))) X w := by
  refine wp_foldEach
    (fun rest ok w' => ok = true ∧ ∃ done, sightings = done ++ rest ∧
      cs.Shows (w'.ledger.acq avid) (Register.seeAll cs.place p₀ (done.map (·.category)))) ?_ ?_ ⟨rfl, [], rfl, hs⟩
  · rintro s rest ok w₁ ⟨rfl, done, rfl, hshow⟩
    have next : ∀ {row w'}, w'.ledger.acq avid = some row →
        cs.Shows (some row) ((Register.seeAll cs.place p₀ (done.map (·.category))).see cs.place s.category) →
        (true && true) = true ∧ ∃ done', done ++ s :: rest = done' ++ rest ∧
          cs.Shows ((w' : World ι).ledger.acq avid) (Register.seeAll cs.place p₀ (done'.map (·.category))) := by
      intro row w' hrow hsee
      refine ⟨rfl, done ++ [s], by simp, ?_⟩
      rw [List.map_append, List.map_cons, List.map_nil, Register.seeAll_snoc, hrow]
      exact hsee
    rw [wp_bind]
    refine h.wp_discover (fun hnone w' hrow _ => ?_) (fun row hrow _ w' hrow' _ => ?_) fun row hrow hno => ?_
    · rw [hnone] at hshow
      exact next hrow (hshow ▸ CategoryList.shows_new s avid _ _)
    · rw [hrow] at hshow
      exact next hrow' (CategoryList.shows_resighted hshow s)
    · rw [hrow] at hshow
      simp [accepted, hshow.1] at hno
  · rintro ok w' ⟨rfl, done, hd, hshow⟩
    rw [hd, List.append_nil]
    exact ⟨rfl, hshow⟩

/-- For every order of sightings of an AVID that no category has filed yet, the row ends
up with the directory of the earliest category that sighted it: exactly when no
category is shadowed by another's directory. -/
theorem earliest_files_iff {l : Ledger} {start : Time}
    (h₀ : ∀ row, l.acq avid = some row → row.state = .discovered ∧ ∀ i, row.source ≠ cs.source i) :
    (∀ (sightings : List (CategorySighting cs)) w,
      Runs (World.Step (fun _ _ => True) ()) ⟨l, start, []⟩ (sightAll avid sightings) (.ok true) w →
      ∀ s ∈ sightings, (∀ s' ∈ sightings, s.category ≤ s'.category) →
        (w.ledger.acq avid).bind (·.taskDirPath) = some (cs.dir s.category)) ↔
    Register.Unshadowed cs.place ((l.acq avid).bind (·.taskDirPath)) := by
  have hs : cs.Shows (l.acq avid) ⟨none, (l.acq avid).bind (·.taskDirPath)⟩ := by
    cases hrow : l.acq avid with
    | none => rfl
    | some row => exact ⟨(h₀ row hrow).1, (h₀ row hrow).2, rfl⟩
  rw [← Register.seeAll_iff]
  constructor
  · intro hall xs m hm hmin
    let sightings := xs.map fun i => (⟨i, 0, { source := "" }⟩ : CategorySighting cs)
    let d : Nat × World.Outside := (0, fun _ => .error ⟨.fileNotFound, trivial⟩)
    have hrun := play_runs_connected () d ⟨l, start, []⟩ (sightAll avid sightings)
    have hout := wp_runs (wp_sightAll (fromLedger_connected ()) hs sightings) hrun
    have hmap : sightings.map (·.category) = xs := by simp [sightings, Function.comp_def]
    cases hr : (World.play () d ⟨l, start, []⟩ (sightAll avid sightings)).1 with
    | error e => exact (hout.2 e hr).elim
    | ok b =>
      obtain ⟨rfl, hshow⟩ := hout.1 b hr
      rw [hr] at hrun
      rw [hmap] at hshow
      refine hshow.place.symm.trans (hall sightings _ (hrun.mono fun w op r w' => ?_) ⟨m, 0, _⟩
        (List.mem_map_of_mem hm) fun s' hs' => ?_)
      · rintro ⟨t, l', ht, -, h⟩
        exact ⟨t, l', ht, trivial, h⟩
      · obtain ⟨y, hy, rfl⟩ := List.mem_map.1 hs'
        exact hmin y hy
  · intro hall sightings w hrun s hmem hmin
    obtain ⟨-, hshow⟩ := wp_runs_ok (wp_sightAll (fromLedger_step _ ()) hs sightings) hrun
    rw [hshow.place]
    refine hall _ _ (List.mem_map_of_mem hmem) fun y hy => ?_
    obtain ⟨s', hs', rfl⟩ := List.mem_map.1 hy
    exact hmin s' hs'

end Sightings

/-! ## A shared directory -/

/-- Every category has a directory of its own. -/
def ownDirs : CategoryList := ⟨[⟨"actors", "/actors"⟩, ⟨"charts", "/charts"⟩, ⟨"series", "/series"⟩], by decide⟩

/-- The first and the last category share a directory. -/
def sharedDirs : CategoryList := ⟨[⟨"actors", "/actors"⟩, ⟨"charts", "/charts"⟩, ⟨"series", "/actors"⟩], by decide⟩

theorem earliest_files_ownDirs :
    Register.Unshadowed ownDirs.place ((Ledger.empty.acq "ABC-123").bind (·.taskDirPath)) ∧
      ∀ (sightings : List (CategorySighting ownDirs)) w,
        Runs (World.Step (fun _ _ => True) ()) ⟨.empty, 0, []⟩ (sightAll "ABC-123" sightings) (.ok true) w →
        ∀ s ∈ sightings, (∀ s' ∈ sightings, s.category ≤ s'.category) →
          (w.ledger.acq "ABC-123").bind (·.taskDirPath) = some (ownDirs.dir s.category) := by
  have hfree : Register.Unshadowed ownDirs.place ((Ledger.empty.acq "ABC-123").bind (·.taskDirPath)) := ⟨by decide, by decide⟩
  refine ⟨hfree, (earliest_files_iff fun row hrow => ?_).2 hfree⟩
  cases hrow

/-- The series sights the AVID, then the actors, whose directory it already has, then the
charts: they take it from the series, although the actors come first. -/
def seriesActorsCharts : List (CategorySighting sharedDirs) :=
  [⟨⟨2, by decide⟩, 0, { source := "" }⟩, ⟨⟨0, by decide⟩, 1, { source := "" }⟩, ⟨⟨1, by decide⟩, 2, { source := "" }⟩]

theorem charts_take_over :
    ∃ w, Runs (World.Step (fun _ _ => True) ()) ⟨.empty, 0, []⟩ (sightAll "ABC-123" seriesActorsCharts) (.ok true) w ∧
      ∃ s ∈ seriesActorsCharts, (∀ s' ∈ seriesActorsCharts, s.category ≤ s'.category) ∧
        (w.ledger.acq "ABC-123").bind (·.taskDirPath) ≠ some (sharedDirs.dir s.category) := by
  let d : Nat × World.Outside := (1, fun _ => .error ⟨.fileNotFound, trivial⟩)
  have hrun : (World.play () d ⟨.empty, 0, []⟩ (sightAll "ABC-123" seriesActorsCharts)).1.toOption = some true := by
    decide
  refine ⟨_, World.play_returns hrun, ⟨⟨0, by decide⟩, 1, { source := "" }⟩, by simp [seriesActorsCharts], ?_,
    by decide⟩
  intro s' _
  exact Nat.zero_le _

end EmbyxManager
