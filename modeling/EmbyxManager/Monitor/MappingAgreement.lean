import Mathlib.Data.List.Infix
import EmbyxManager.Monitor.Mapping
/-!
# The incremental run and the full run

What each of the two leaves under a path is said once, as a function of the two trees:
`content_runFull` and `content_runIncremental`. They differ on copies whose suffix is not
spelled in lower case, which only the incremental run makes and deletes, and on copies that
were left over from a source without an AVID.
-/

namespace EmbyxManager.Mapping

open Atom

namespace Tree

/-! ## What the writes leave -/

variable {t : Tree} {p q : StrmPath} {d : List String}

theorem content_eq_none : t.content p = none ↔ t.isFile p = false := by
  simp [content, isFile]

theorem isFile_eq : t.isFile p = (t.content p).isSome := by simp [content, isFile]

theorem mem_paths : p ∈ t.paths ↔ t.isFile p = true := by
  unfold paths isFile file
  constructor
  · intro h
    obtain ⟨⟨p', f⟩, hf, rfl⟩ := List.mem_map.1 h
    simp [Table.find_eq_some.2 ⟨hf, rfl⟩]
  · intro h
    obtain ⟨f, hf⟩ := Option.isSome_iff_exists.1 h
    obtain ⟨r, hr, -⟩ := Option.map_eq_some_iff.1 hf
    obtain ⟨hr, hk⟩ := Table.find_eq_some.1 hr
    exact List.mem_map.2 ⟨r, hr, hk⟩

theorem file_write (f : File) : (t.write p f).file q = if q = p then some f else t.file q := by
  simp only [file, write, Table.find_put]
  by_cases h : q = p
  · simp [h]
  · simp [h, Ne.symm h]

theorem content_write (f : File) : (t.write p f).content q = if q = p then some f.content else t.content q := by
  rw [content, file_write]
  by_cases h : q = p <;> simp [h, content]

theorem file_keep (keep : StrmPath × File → Bool) (b : Bool) (hb : ∀ f, keep (q, f) = b) (dirs : List (List String)) :
    content ⟨t.files.keep keep, dirs⟩ q = if b then t.content q else none := by
  simp only [content, file, Table.find_keep]
  cases h : t.files.find q with
  | none => simp
  | some r =>
    obtain ⟨r₁, r₂⟩ := r
    obtain rfl : r₁ = q := Table.find_key h
    cases b with
    | true => simp [Option.filter_some, hb]
    | false => simp [Option.filter_some, hb]

theorem content_unlink : (t.unlink p).content q = if q = p then none else t.content q := by
  rw [unlink, file_keep _ (decide (q ≠ p)) fun _ => rfl]
  by_cases h : q = p <;> simp [h]

theorem content_rmtree : (t.rmtree d).content q = if d <+: q.dir then none else t.content q := by
  rw [rmtree, file_keep _ (decide ¬ d <+: q.dir) fun _ => rfl]
  by_cases h : d <+: q.dir <;> simp [h]

theorem file_mkdir : (t.mkdir d).file q = t.file q := rfl

theorem content_mkdir : (t.mkdir d).content q = t.content q := rfl

theorem content_foldl_unlink (ps : List StrmPath) :
    (ps.foldl unlink t).content q = if q ∈ ps then none else t.content q := by
  induction ps generalizing t with
  | nil => simp
  | cons p ps ih =>
    rw [List.foldl_cons, ih, content_unlink]
    by_cases hq : q = p <;> by_cases hps : q ∈ ps <;> simp [hq, hps]

theorem file_of_unlink {f : File} (h : (t.unlink p).file q = some f) : t.file q = some f := by
  simp only [file, unlink, Table.find_keep, Option.map_eq_some_iff] at h ⊢
  obtain ⟨r, hr, rfl⟩ := h
  exact ⟨r, (Option.filter_eq_some_iff.1 hr).1, rfl⟩

theorem file_of_foldl_unlink {ps : List StrmPath} {f : File} (h : (ps.foldl unlink t).file q = some f) : t.file q = some f := by
  induction ps generalizing t with
  | nil => exact h
  | cons p ps ih => exact file_of_unlink (ih h)

end Tree

open EmbyxManager.Mapping.Tree

/-! ## Names -/

/-- What the walks and the suffix test take for a strm. -/
def strmLike (name : String) : Bool := matchesStrm name || isStrm name

/-- A suffix that is spelled otherwise. -/
def odd (name : String) : Bool := isStrm name && !matchesStrm name

theorem stem_ne_nil {name : String} (h : isStrm name = true) : stem name ≠ [] := by
  have hsuffix : (splitName name.toList).2 ≠ [] := by
    intro hs
    simp [isStrm, suffix, hs, dotStrm] at h
  rcases splitName_cases name.toList with hs | ⟨s, e, -, hs, -, heq⟩
  · exact absurd hs hsuffix
  · rw [stem, heq]
    exact hs

/-- The name that is all suffix. -/
theorem stem_of_not_isStrm {name : String} (hm : matchesStrm name = true) (hs : isStrm name = false) :
    name.toList = dotStrm := by
  obtain ⟨front, hfront⟩ : dotStrm <:+ name.toList := by simpa [matchesStrm] using hm
  by_cases hnil : front = []
  · rw [← hfront, hnil, List.nil_append]
  · have hsplit := splitName_append hnil (show "strm".toList ≠ [] by decide) (show '.' ∉ "strm".toList by decide)
    have : (splitName name.toList).2 = dotStrm := by
      rw [← hfront]
      exact congrArg Prod.snd hsplit
    rw [isStrm, suffix, this] at hs
    exact absurd hs (by decide)

theorem stem_ne_nil_of_matches {name : String} (hm : matchesStrm name = true) : stem name ≠ [] := by
  cases hs : isStrm name with
  | true => exact stem_ne_nil hs
  | false =>
    rw [stem, stem_of_not_isStrm hm hs]
    decide

/-! ## Comparing -/

section Cmp
variable {memory : Memory} {p q p' q' : StrmPath} {file old file' old' : File}

theorem cmp_eq_true : (cmp memory p q file old).1 = true ↔ file.sig.1 = old.sig.1 ∧
    (memory.find ⟨p, q, file.sig, old.sig⟩ = some (⟨p, q, file.sig, old.sig⟩, true) ∨
      (memory.find ⟨p, q, file.sig, old.sig⟩ = none ∧ old.content = file.content)) := by
  unfold cmp
  by_cases hsize : file.sig.1 = old.sig.1
  · rw [if_neg (by simpa using hsize)]
    cases hfind : memory.find ⟨p, q, file.sig, old.sig⟩ with
    | none => simp [hsize]
    | some r =>
      obtain ⟨key, outcome⟩ := r
      obtain rfl : key = _ := Atom.Table.find_key hfind
      simp [hsize]
  · simp [hsize]

variable (memory p q file old) in
/-- What a comparison leaves of what is remembered under a key. -/
theorem find_cmp (k : Comparison) : (cmp memory p q file old).2.find k = memory.find k ∨ (cmp memory p q file old).2.find k = none ∨
    (k = ⟨p, q, file.sig, old.sig⟩ ∧ (cmp memory p q file old).2.find k = some (k, decide (old.content = file.content))) := by
  unfold cmp
  split
  · exact .inl rfl
  · split
    · exact .inl rfl
    · dsimp only
      rw [Table.find_put]
      by_cases hk : (⟨p, q, file.sig, old.sig⟩ : Comparison) = k
      · rw [if_pos hk]
        exact .inr (.inr ⟨hk.symm, by rw [hk]⟩)
      · rw [if_neg hk]
        split
        · exact .inr (.inl rfl)
        · exact .inl rfl

/-- An answer after a comparison is about the same two paths, or right, or the answer before it. -/
theorem cmp_after (h : (cmp (cmp memory p q file old).2 p' q' file' old').1 = true) :
    (p' = p ∧ q' = q ∧ old.content = file.content) ∨ old'.content = file'.content ∨ (cmp memory p' q' file' old').1 = true := by
  obtain ⟨hsize, hfind⟩ := cmp_eq_true.1 h
  rcases hfind with hfind | ⟨-, heq⟩
  · rcases find_cmp memory p q file old ⟨p', q', file'.sig, old'.sig⟩ with h' | h' | ⟨hk, h'⟩
    · rw [h'] at hfind
      exact .inr (.inr (cmp_eq_true.2 ⟨hsize, .inl hfind⟩))
    · rw [h'] at hfind
      cases hfind
    · rw [h'] at hfind
      simp only [Option.some.injEq, Prod.mk.injEq, decide_eq_true_eq, true_and] at hfind
      simp only [Comparison.mk.injEq] at hk
      exact .inl ⟨hk.1, hk.2.1, hfind⟩
  · exact .inr (.inl heq)

/-- An answer `equal` that is right is given again after another comparison. -/
theorem cmp_still (h : (cmp memory p' q' file' old').1 = true) (heq : old'.content = file'.content)
    (hsame : p' = p → old.content = file.content) : (cmp (cmp memory p q file old).2 p' q' file' old').1 = true := by
  obtain ⟨hsize, hfind⟩ := cmp_eq_true.1 h
  refine cmp_eq_true.2 ⟨hsize, ?_⟩
  rcases find_cmp memory p q file old ⟨p', q', file'.sig, old'.sig⟩ with h' | h' | ⟨hk, h'⟩
  · rw [h']
    exact hfind.imp_right fun hnone => ⟨hnone.1, heq⟩
  · exact .inr ⟨h', heq⟩
  · simp only [Comparison.mk.injEq] at hk
    exact .inl (by rw [h', decide_eq_true (hsame hk.1)])

end Cmp

/-- The first step of a walk that does not fail. -/
theorem foldlM_cons_ok {σ ε : Type} {f : σ → StrmPath → Except ε σ} {s s' : σ} {p : StrmPath} {ps : List StrmPath}
    (h : (p :: ps).foldlM f s = .ok s') : ∃ s₁, f s p = .ok s₁ ∧ ps.foldlM f s₁ = .ok s' := by
  rw [List.foldlM_cons] at h
  cases hp : f s p with
  | ok s₁ =>
    rw [hp] at h
    exact ⟨s₁, rfl, h⟩
  | error e =>
    rw [hp] at h
    cases h

namespace MappingPipeline
variable {m : MappingPipeline} {src dst t t' : Tree} {p q : StrmPath}

/-! ## Metadata -/

theorem owner_dotStrm {stems : List (List Char)} (h : ∀ s ∈ stems, s ≠ []) : owner dotStrm stems = none := by
  have hnone : stems.filter (fun s => (s ++ ['.']) <+: dotStrm ∨ (s ++ ['-']) <+: dotStrm) = [] := by
    refine List.filter_eq_nil_iff.2 fun s hs hp => ?_
    cases s with
    | nil => exact h [] hs rfl
    | cons c s =>
      have hmem : ∀ x, (c :: s ++ [x]) <+: dotStrm → x ∈ "strm".toList := by
        intro x hx
        exact (List.cons_prefix_cons.1 hx).2.subset (by simp)
      simp only [decide_eq_true_eq] at hp
      rcases hp with hp | hp
      · exact absurd (hmem _ hp) (by decide)
      · exact absurd (hmem _ hp) (by decide)
  rw [owner, hnone]
  rfl

theorem partStem_dotStrm : partStem dotStrm = none := by decide

/-- Whatever is metadata, it is no strm. -/
theorem sidecars_not_strm {directory : List String} {stems : List (List Char)} {orphaned : Bool} (hstems : ∀ s ∈ stems, s ≠ [])
    (hp : p ∈ sidecars t directory stems orphaned) : strmLike p.name = false := by
  obtain ⟨-, hp⟩ := List.mem_filter.1 hp
  simp only [Bool.and_eq_true, Bool.not_eq_true'] at hp
  obtain ⟨hs, howner⟩ := hp
  rw [strmLike, hs, Bool.or_false]
  by_contra hm
  rw [Bool.not_eq_false] at hm
  rw [stem_of_not_isStrm hm hs] at howner
  have hlive : ∀ s ∈ live t directory, s ≠ [] := by
    intro s hs
    obtain ⟨name, hname, rfl⟩ := List.mem_map.1 hs
    exact stem_ne_nil (List.mem_filter.1 hname).2
  have hall : ∀ live : List (List Char), (∀ s ∈ live, s ≠ []) →
      ownerOf live (stems.filter (· ∉ live)) orphaned dotStrm = none := by
    intro live hl
    have hown : owner dotStrm (live ++ stems.filter (· ∉ live)) = none := by
      refine owner_dotStrm fun s hs => ?_
      rcases List.mem_append.1 hs with hs | hs
      · exact hl s hs
      · exact hstems s (List.mem_filter.1 hs).1
    rw [ownerOf, hown, partStem_dotStrm]
    simp
  rw [hall _ hlive] at howner
  cases howner

theorem content_deleteSidecars {directory : List String} {stems : List (List Char)} {orphaned : Bool}
    (hstems : ∀ s ∈ stems, s ≠ []) (hq : strmLike q.name = true) :
    (deleteSidecars t directory stems orphaned).content q = t.content q := by
  rw [deleteSidecars, content_foldl_unlink, if_neg]
  intro hmem
  rw [sidecars_not_strm hstems hmem] at hq
  cases hq

/-! ## Single paths -/

theorem mapStrmPath_eq_some (h : m.mapStrmPath p = some q) : isStrm p.name = true ∧ sourceOf q = p ∧ q.name = p.name := by
  unfold mapStrmPath at h
  split at h
  · cases h
  · rename_i hs
    split at h
    · cases h
    · cases h
      exact ⟨by simpa using hs, by simp [sourceOf], rfl⟩

/-- The copy that a source is compared with, and the two files. -/
def compared (m : MappingPipeline) (src dst : Tree) (p : StrmPath) : Option (StrmPath × File × File) :=
  (m.mapStrmPath p).bind fun q => (src.file p).bind fun file => (dst.file q).bind fun old =>
    if file.mtime ≤ old.mtime then some (q, file, old) else none

theorem compared_eq_some {file old : File} : m.compared src dst p = some (q, file, old) ↔
    m.mapStrmPath p = some q ∧ src.file p = some file ∧ dst.file q = some old ∧ file.mtime ≤ old.mtime := by
  simp only [compared, Option.bind_eq_some_iff]
  constructor
  · rintro ⟨q', hmap, file', hfile, old', hold, h⟩
    split at h
    · rename_i hle
      cases h
      exact ⟨hmap, hfile, hold, hle⟩
    · cases h
  · rintro ⟨hmap, hfile, hold, hle⟩
    exact ⟨q, hmap, file, hfile, old, hold, if_pos hle⟩

/-- Another tree with the same copy. -/
theorem compared_congr (h : ∀ q, m.mapStrmPath p = some q → t.file q = t'.file q) : m.compared src t p = m.compared src t' p := by
  unfold compared
  cases hmap : m.mapStrmPath p with
  | none => rfl
  | some q => simp [h q hmap]

/-- What is remembered once a source was brought up. -/
def remember (m : MappingPipeline) (src dst : Tree) (memory : Memory) (p : StrmPath) : Memory :=
  match m.compared src dst p with
  | some (q, file, old) => (cmp memory p q file old).2
  | none => memory

/-- What `update_one` does where it does not fail. -/
inductive Updated (m : MappingPipeline) (src : Tree) (dst dst' : Dest) (p : StrmPath) : Prop
  | idle (hnone : ∀ q, m.mapStrmPath p = some q → src.file p = none) (same : dst' = dst)
  | skipped {q : StrmPath} {file old : File} (hcompared : m.compared src dst.tree p = some (q, file, old))
      (hsame : (cmp dst.memory p q file old).1 = true) (tree : dst'.tree = dst.tree.mkdir q.dir)
      (memory : dst'.memory = m.remember src dst.tree dst.memory p)
  | written {q : StrmPath} {file : File} (hmap : m.mapStrmPath p = some q) (hfile : src.file p = some file)
      (hdiffers : ∀ old, m.compared src dst.tree p = some (q, file, old) → (cmp dst.memory p q file old).1 = false)
      (tree : dst'.tree = (dst.tree.mkdir q.dir).write q file) (memory : dst'.memory = m.remember src dst.tree dst.memory p)

variable {d d' d₁ : Dest} {memory : Memory}

theorem updateOne_cases (h : m.updateOne src d p = .ok d') : m.Updated src d d' p := by
  unfold updateOne at h
  split at h
  · rename_i hmap
    cases h
    exact .idle (fun q hq => by rw [hmap] at hq; cases hq) rfl
  · -- a path that maps: the three reads of the source, then what the mirror holds
    rename_i q hmap
    split at h
    · rename_i hfile
      split at h
      · cases h
      · cases h
        exact .idle (fun _ _ => hfile) rfl
    · rename_i file hfile
      split at h
      · cases h
      · split at h
        · cases h
        · dsimp only at h
          split at h
          · rename_i hold
            have hnone : m.compared src d.tree p = none := by simp [compared, hmap, hfile, hold]
            cases h
            exact .written hmap hfile (fun old hc => by rw [hnone] at hc; cases hc) rfl (by simp [remember, hnone])
          · rename_i old hold
            split at h
            · rename_i hle
              have hc : m.compared src d.tree p = some (q, file, old) := compared_eq_some.2 ⟨hmap, hfile, hold, hle⟩
              cases h
              cases hcmp : (cmp d.memory p q file old).1 with
              | true => exact .skipped hc hcmp (by simp) (by simp [remember, hc])
              | false =>
                refine .written hmap hfile (fun old' hc' => ?_) (by simp) (by simp [remember, hc])
                rw [hc] at hc'
                cases hc'
                exact hcmp
            · rename_i hlt
              have hnone : m.compared src d.tree p = none := by simp [compared, hmap, hfile, hold, hlt]
              cases h
              exact .written hmap hfile (fun old hc => by rw [hnone] at hc; cases hc) rfl (by simp [remember, hnone])

theorem memory_updateOne (h : m.updateOne src d p = .ok d') : d'.memory = m.remember src d.tree d.memory p := by
  cases updateOne_cases h with
  | idle hnone same =>
    rw [same, remember]
    cases hc : m.compared src d.tree p with
    | none => rfl
    | some c =>
      obtain ⟨hmap, hfile, -, -⟩ := compared_eq_some.1 hc
      rw [hnone _ hmap] at hfile
      cases hfile
  | skipped _ _ _ memory => exact memory
  | written _ _ _ _ memory => exact memory

/-- The copies of other sources stay as they are. -/
theorem file_updateOne (h : m.updateOne src d p = .ok d') (hq : m.mapStrmPath p = some q → src.isFile p = false) :
    d'.tree.file q = d.tree.file q := by
  cases updateOne_cases h with
  | idle _ same => rw [same]
  | skipped _ _ tree _ => rw [tree, file_mkdir]
  | written hmap hfile _ tree _ =>
    rw [tree, file_write, file_mkdir, if_neg]
    rintro rfl
    have := hq hmap
    simp [isFile, hfile] at this

theorem file_updateAll {ps : List StrmPath} (h : ps.foldlM (m.updateOne src) d = .ok d')
    (hq : ∀ p ∈ ps, m.mapStrmPath p = some q → src.isFile p = false) : d'.tree.file q = d.tree.file q := by
  induction ps generalizing d with
  | nil =>
    cases h
    rfl
  | cons p ps ih =>
    obtain ⟨hp, hps⟩ := List.forall_mem_cons.1 hq
    obtain ⟨d₁, h₁, h⟩ := foldlM_cons_ok h
    exact (ih h hps).trans (file_updateOne h₁ hp)

/-! ## What the comparisons answer -/

/-- Each comparison of a walk that answers `equal` is of equal files. The memory is what the
comparisons before it have left; every copy is compared as it was before the walk. -/
def Told (m : MappingPipeline) (src dst : Tree) : Memory → List StrmPath → Prop
  | _, [] => True
  | memory, p :: ps =>
    (∀ q file old, m.compared src dst p = some (q, file, old) → (cmp memory p q file old).1 = true → old.content = file.content) ∧
      m.Told src dst (m.remember src dst memory p) ps

theorem told_congr {ps : List StrmPath} (h : ∀ p ∈ ps, m.compared src t p = m.compared src t' p) :
    m.Told src t memory ps ↔ m.Told src t' memory ps := by
  induction ps generalizing memory with
  | nil => exact .rfl
  | cons p ps ih =>
    obtain ⟨hp, hps⟩ := List.forall_mem_cons.1 h
    rw [Told, Told, hp, ih hps, remember, remember, hp]

/-- A source that is brought up has what it was compared with, or what it is. -/
theorem told_one (h : m.updateOne src d p = .ok d') :
    (∀ q file old, m.compared src d.tree p = some (q, file, old) → (cmp d.memory p q file old).1 = true → old.content = file.content) ↔
      ∀ q, m.mapStrmPath p = some q → src.isFile p = true → d'.tree.content q = src.content p := by
  -- only a skipped copy can differ from its source
  cases updateOne_cases h with
  | idle hnone same =>
    refine iff_of_true (fun q file old hc => ?_) fun q hmap hfile => ?_
    · obtain ⟨hmap, hfile, -, -⟩ := compared_eq_some.1 hc
      rw [hnone _ hmap] at hfile
      cases hfile
    · simp [isFile, hnone _ hmap] at hfile
  | @skipped q file old hc hsame tree memory =>
    obtain ⟨hmap, hfile, hold, -⟩ := compared_eq_some.1 hc
    have hcopy : d'.tree.content q = some old.content := by
      rw [tree, content_mkdir, content, hold]
      rfl
    have hsource : src.content p = some file.content := by simp [content, hfile]
    constructor
    · intro h q' hmap' _
      obtain rfl : q = q' := Option.some.inj (hmap.symm.trans hmap')
      rw [hcopy, hsource, h _ _ _ hc hsame]
    · intro h q' file' old' hc' _
      rw [hc] at hc'
      cases hc'
      have := h q hmap (by simp [isFile, hfile])
      rw [hcopy, hsource] at this
      exact Option.some.inj this
  | @written q file hmap hfile hdiffers tree memory =>
    refine iff_of_true (fun q' file' old hc hsame => ?_) fun q' hmap' _ => ?_
    · obtain ⟨hmap', hfile', -, -⟩ := compared_eq_some.1 hc
      obtain rfl : q = q' := Option.some.inj (hmap.symm.trans hmap')
      obtain rfl : file = file' := Option.some.inj (hfile.symm.trans hfile')
      rw [hdiffers old hc] at hsame
      cases hsame
    · obtain rfl : q = q' := Option.some.inj (hmap.symm.trans hmap')
      rw [tree, content_write, if_pos rfl, content, hfile]
      rfl

/-- A walk leaves every copy with what its source has exactly when no comparison answers `equal`
of files that differ. -/
theorem told_iff {ps : List StrmPath} (hnodup : ps.Nodup) (h : ps.foldlM (m.updateOne src) d = .ok d') :
    m.Told src d.tree d.memory ps ↔
      ∀ p ∈ ps, ∀ q, m.mapStrmPath p = some q → src.isFile p = true → d'.tree.content q = src.content p := by
  induction ps generalizing d with
  | nil => simp [Told]
  | cons p ps ih =>
    obtain ⟨hp, hnodup⟩ := List.nodup_cons.1 hnodup
    obtain ⟨d₁, h₁, h⟩ := foldlM_cons_ok h
    have hother : ∀ p' ∈ ps, ∀ q, m.mapStrmPath p' = some q → d₁.tree.file q = d.tree.file q := by
      intro p' hp' q hq
      refine file_updateOne h₁ fun hmap => absurd hp' ?_
      rwa [← (mapStrmPath_eq_some hq).2.1, (mapStrmPath_eq_some hmap).2.1]
    have hlast : ∀ q, m.mapStrmPath p = some q → d'.tree.content q = d₁.tree.content q := by
      intro q hq
      rw [content, content, file_updateAll h fun p' hp' hq' => absurd hp' ?_]
      rwa [← (mapStrmPath_eq_some hq').2.1, (mapStrmPath_eq_some hq).2.1]
    rw [Told, told_one h₁, ← memory_updateOne h₁, told_congr fun p' hp' => (compared_congr (hother p' hp')).symm, ih hnodup h,
      List.forall_mem_cons]
    refine and_congr_left fun _ => forall_congr' fun q => forall_congr' fun hq => ?_
    rw [hlast q hq]

/-- What a path's copy gets when its source is among those that are brought up. -/
def brought (m : MappingPipeline) (src dst : Tree) (ps : List StrmPath) (q : StrmPath) : Option String :=
  if sourceOf q ∈ ps ∧ m.mapStrmPath (sourceOf q) = some q ∧ src.isFile (sourceOf q) = true then src.content (sourceOf q)
  else dst.content q

theorem content_updateAll {ps : List StrmPath} (hnodup : ps.Nodup) (htold : m.Told src d.tree d.memory ps)
    (h : ps.foldlM (m.updateOne src) d = .ok d') (q : StrmPath) : d'.tree.content q = m.brought src d.tree ps q := by
  unfold brought
  split
  · rename_i hq
    exact (told_iff hnodup h).1 htold _ hq.1 q hq.2.1 hq.2.2
  · rename_i hq
    rw [content, content, file_updateAll h fun p hp hmap => ?_]
    obtain rfl := (mapStrmPath_eq_some hmap).2.1
    exact Bool.eq_false_iff.2 fun hfile => hq ⟨hp, hmap, hfile⟩

/-! ## A memory that is not out of date -/

/-- Whatever would be answered `equal` now is equal. -/
def Honest (m : MappingPipeline) (src dst : Tree) (memory : Memory) : Prop :=
  ∀ p q file old, m.compared src dst p = some (q, file, old) → (cmp memory p q file old).1 = true → old.content = file.content

theorem Honest.remember (h : m.Honest src dst memory) (p : StrmPath) : m.Honest src dst (m.remember src dst memory p) := by
  intro p' q' file' old' hc' hsame
  unfold MappingPipeline.remember at hsame
  cases hc : m.compared src dst p with
  | none =>
    rw [hc] at hsame
    exact h _ _ _ _ hc' hsame
  | some c =>
    obtain ⟨q, file, old⟩ := c
    rw [hc] at hsame
    rcases cmp_after hsame with ⟨rfl, rfl, hnew⟩ | hnew | hbefore
    · rw [hc] at hc'
      cases hc'
      exact hnew
    · exact hnew
    · exact h _ _ _ _ hc' hbefore

theorem Honest.told (h : m.Honest src dst memory) (ps : List StrmPath) : m.Told src dst memory ps := by
  induction ps generalizing memory with
  | nil => trivial
  | cons p ps ih => exact ⟨h p, ih (h.remember p)⟩

/-- Fewer copies, none of them another. -/
theorem Honest.of_file (h : m.Honest src t memory) (hfile : ∀ q old, t'.file q = some old → t.file q = some old) :
    m.Honest src t' memory := by
  intro p q file old hc
  obtain ⟨hmap, hsrc, hold, hle⟩ := compared_eq_some.1 hc
  exact h p q file old (compared_eq_some.2 ⟨hmap, hsrc, hfile q old hold, hle⟩)

theorem Honest.updateOne (hh : m.Honest src d.tree d.memory) (h : m.updateOne src d p = .ok d') :
    m.Honest src d'.tree d'.memory := by
  rw [memory_updateOne h]
  intro p' q' file' old' hc' hsame
  obtain ⟨hmap', hfile', hold', hle'⟩ := compared_eq_some.1 hc'
  by_cases hwritten : d'.tree.file q' = some file'
  · rw [hold'] at hwritten
    cases hwritten
    rfl
  · refine hh.remember p p' q' file' old' (compared_eq_some.2 ⟨hmap', hfile', ?_, hle'⟩) hsame
    rw [← hold']
    cases updateOne_cases h with
    | idle _ same => rw [same]
    | skipped _ _ tree _ => rw [tree, file_mkdir]
    | @written q file hmap hfile _ tree _ =>
      rw [tree, file_write, file_mkdir, if_neg]
      rintro rfl
      have hp : p = p' := (mapStrmPath_eq_some hmap).2.1.symm.trans (mapStrmPath_eq_some hmap').2.1
      rw [hp, hfile'] at hfile
      cases hfile
      exact hwritten (by rw [tree, file_write, if_pos rfl])

theorem Honest.updateAll {ps : List StrmPath} (hh : m.Honest src d.tree d.memory)
    (h : ps.foldlM (m.updateOne src) d = .ok d') : m.Honest src d'.tree d'.memory := by
  induction ps generalizing d with
  | nil =>
    cases h
    exact hh
  | cons p ps ih =>
    obtain ⟨d₁, h₁, h⟩ := foldlM_cons_ok h
    exact ih (hh.updateOne h₁) h

theorem content_deleteEmptyDirsForPath (t : Tree) (up : List String) (q : StrmPath) :
    (deleteEmptyDirsForPath t up).content q = t.content q := by
  induction up generalizing t with
  | nil => rfl
  | cons name up ih =>
    unfold deleteEmptyDirsForPath
    split
    · rfl
    · rw [ih]
      split <;> rfl

theorem content_deleteOne (h : m.deleteOne dst p = .ok t) (hq : strmLike q.name = true) :
    t.content q = if m.mapStrmPath p = some q then none else dst.content q := by
  unfold deleteOne at h
  cases hmap : m.mapStrmPath p with
  | none =>
    rw [hmap] at h
    cases h
    simp
  | some target =>
    have hname := mapStrmPath_eq_some hmap
    have hstem : ∀ s ∈ [stem target.name], s ≠ [] := by
      intro s hs
      rw [List.mem_singleton.1 hs, hname.2.2]
      exact stem_ne_nil hname.1
    rw [hmap] at h
    dsimp only at h
    split at h
    · cases h
      rw [content_deleteEmptyDirsForPath, content_deleteSidecars hstem hq, content_unlink]
      by_cases hqt : q = target
      · simp [hqt]
      · simp [hqt, Ne.symm hqt]
    · rename_i hfile
      split at h
      · cases h
      · cases h
        by_cases hqt : target = q
        · rw [← hqt, if_pos rfl]
          exact content_eq_none.2 (by simpa using hfile)
        · rw [if_neg fun h => hqt (Option.some.inj h)]

/-- A deletion leaves no copy that was not there. -/
theorem file_deleteOne {f : File} (h : m.deleteOne dst p = .ok t) (hq : t.file q = some f) : dst.file q = some f := by
  have hdirs : ∀ (up : List String) (t : Tree), (deleteEmptyDirsForPath t up).file q = t.file q := by
    intro up
    induction up with
    | nil => exact fun _ => rfl
    | cons name up ih =>
      intro t
      unfold deleteEmptyDirsForPath
      split
      · rfl
      · rw [ih]
        split <;> rfl
  unfold deleteOne at h
  split at h
  · cases h
    exact hq
  · split at h
    · cases h
      rw [hdirs] at hq
      exact file_of_unlink (file_of_foldl_unlink hq)
    · split at h
      · cases h
      · cases h
        exact hq

theorem file_deleteAll {ps : List StrmPath} {f : File} (h : ps.foldlM m.deleteOne dst = .ok t) (hq : t.file q = some f) :
    dst.file q = some f := by
  induction ps generalizing dst with
  | nil =>
    cases h
    exact hq
  | cons p ps ih =>
    obtain ⟨t₁, h₁, h⟩ := foldlM_cons_ok h
    exact file_deleteOne h₁ (ih h)

/-! ## The incremental run -/

theorem content_deleteAll {ps : List StrmPath} (h : ps.foldlM m.deleteOne dst = .ok t) (hq : strmLike q.name = true) :
    t.content q = if sourceOf q ∈ ps ∧ m.mapStrmPath (sourceOf q) = some q then none else dst.content q := by
  induction ps generalizing dst with
  | nil =>
    cases h
    simp
  | cons p ps ih =>
    obtain ⟨t₁, h₁, h⟩ := foldlM_cons_ok h
    rw [ih h, content_deleteOne h₁ hq]
    by_cases hmap : m.mapStrmPath (sourceOf q) = some q
    · by_cases hp : sourceOf q = p
      · subst hp
        simp [hmap]
      · have hne : m.mapStrmPath p ≠ some q := fun h => hp (mapStrmPath_eq_some h).2.1
        simp [hmap, hp, hne]
    · have hne : m.mapStrmPath p ≠ some q := by
        intro h
        obtain rfl := (mapStrmPath_eq_some h).2.1
        exact hmap h
      simp [hmap, hne]

section EachPath
variable {σ : Type} {one : σ → StrmPath → Except MappingExn σ}

/-- What has failed stays on the list. -/
theorem eachPath_failed (ps : List StrmPath) {acc : σ × List StrmPath} (hacc : acc.2 ≠ []) :
    (ps.foldl (fun acc p => match one acc.1 p with
      | .ok s => (s, acc.2)
      | .error _ => (acc.1, acc.2 ++ [p])) acc).2 ≠ [] := by
  induction ps generalizing acc with
  | nil => exact hacc
  | cons p ps ih =>
    rw [List.foldl_cons]
    refine ih ?_
    split
    · exact hacc
    · simp

/-- Without a failure, every path is done. -/
theorem eachPath_ok {ps : List StrmPath} {s s' : σ} (h : eachPath one s ps = (s', [])) : ps.foldlM one s = .ok s' := by
  unfold eachPath at h
  induction ps generalizing s with
  | nil =>
    cases h
    rfl
  | cons p ps ih =>
    rw [List.foldl_cons] at h
    rw [List.foldlM_cons]
    cases hp : one s p with
    | ok s₁ =>
      rw [hp] at h
      exact ih h
    | error e =>
      rw [hp] at h
      exact absurd (congrArg Prod.snd h) (eachPath_failed ps (by simp))

end EachPath

/-- Without a failure, the copies of what is deleted are gone and the changes are all brought up. -/
theorem runIncremental_ok {changed deleted : List StrmPath} (h : m.runIncremental src d changed deleted = (d', [], [])) :
    ∃ t, deleted.foldlM m.deleteOne d.tree = .ok t ∧ changed.foldlM (m.updateOne src) ⟨t, d.memory⟩ = .ok d' := by
  simp only [runIncremental, Prod.mk.injEq] at h
  obtain ⟨rfl, hchanged, hdeleted⟩ := h
  exact ⟨_, eachPath_ok (Prod.ext rfl hdeleted), eachPath_ok (Prod.ext rfl hchanged)⟩

theorem Honest.runIncremental {changed deleted : List StrmPath} (hh : m.Honest src d.tree d.memory)
    (h : m.runIncremental src d changed deleted = (d', [], [])) : m.Honest src d'.tree d'.memory := by
  obtain ⟨t, hdeleted, hchanged⟩ := runIncremental_ok h
  exact Honest.updateAll (d := ⟨t, d.memory⟩) (hh.of_file fun _ _ => file_deleteAll hdeleted) hchanged

/-- What the incremental run leaves under a path. -/
theorem content_runIncremental {changed deleted : List StrmPath} (hh : m.Honest src d.tree d.memory) (hnodup : changed.Nodup)
    (h : m.runIncremental src d changed deleted = (d', [], [])) (hq : strmLike q.name = true) :
    d'.tree.content q =
      if m.mapStrmPath (sourceOf q) = some q then
        if sourceOf q ∈ changed ∧ src.isFile (sourceOf q) = true then src.content (sourceOf q)
        else if sourceOf q ∈ deleted then none else d.tree.content q
      else d.tree.content q := by
  obtain ⟨t, hdeleted, hchanged⟩ := runIncremental_ok h
  have hh' : m.Honest src t d.memory := hh.of_file fun _ _ => file_deleteAll hdeleted
  rw [content_updateAll hnodup (hh'.told changed) hchanged, brought, content_deleteAll hdeleted hq]
  by_cases hmap : m.mapStrmPath (sourceOf q) = some q <;> simp [hmap]

/-! ## The full run -/

/-- A copy that `_delete_strays` deletes. -/
def stray (m : MappingPipeline) (src : Tree) (q : StrmPath) : Bool :=
  !src.isFile (sourceOf q) || (m.mapStrmPath (sourceOf q)).any (· ≠ q)

/-- Every source that is walked has its copy. -/
def Mirrored (m : MappingPipeline) (src t : Tree) : Prop :=
  ∀ p q, src.isFile p = true → matchesStrm p.name = true → m.mapStrmPath p = some q → t.isFile q = true

theorem stray_eq (hmatch : matchesStrm p.name = true) (hI : m.Mirrored src t) :
    (!src.isFile (sourceOf p) || m.moved t (sourceOf p) p) = m.stray src p := by
  unfold stray moved
  cases hsrc : src.isFile (sourceOf p) with
  | false => rfl
  | true =>
    cases hmap : m.mapStrmPath (sourceOf p) with
    | none => rfl
    | some q => simp [hI _ _ hsrc hmatch hmap]

theorem content_deleteStray (acc : Tree × List (List String × List Char)) (hmatch : matchesStrm p.name = true)
    (hI : m.Mirrored src acc.1) (q : StrmPath) :
    (m.deleteStray src acc p).1.content q = if q = p ∧ m.stray src q = true then none else acc.1.content q := by
  unfold deleteStray
  rw [stray_eq hmatch hI]
  by_cases hs : m.stray src p = true
  · rw [if_pos hs, content_unlink]
    by_cases hq : q = p
    · simp [hq, hs]
    · simp [hq]
  · rw [if_neg hs, if_neg]
    rintro ⟨rfl, h⟩
    exact hs h

/-- A copy of a source that is there is not deleted. -/
theorem mirrored_deleteStray (acc : Tree × List (List String × List Char)) (hmatch : matchesStrm p.name = true)
    (hI : m.Mirrored src acc.1) : m.Mirrored src (m.deleteStray src acc p).1 := by
  intro s q hs hm hq
  rw [isFile_eq, content_deleteStray acc hmatch hI, if_neg, ← isFile_eq]
  · exact hI s q hs hm hq
  · rintro ⟨-, h⟩
    rw [stray, (mapStrmPath_eq_some hq).2.1, hs, hq] at h
    simp at h

theorem content_strays {ps : List StrmPath} (acc : Tree × List (List String × List Char))
    (hps : ∀ p ∈ ps, matchesStrm p.name = true) (hI : m.Mirrored src acc.1) (q : StrmPath) :
    (ps.foldl (m.deleteStray src) acc).1.content q =
      if q ∈ ps ∧ m.stray src q = true then none else acc.1.content q := by
  induction ps generalizing acc with
  | nil => simp
  | cons p ps ih =>
    have hmatch := hps p (by simp)
    rw [List.foldl_cons, ih _ (fun p hp => hps p (by simp [hp])) (mirrored_deleteStray acc hmatch hI),
      content_deleteStray acc hmatch hI]
    by_cases hq : q = p
    · subst hq
      by_cases hs : m.stray src q = true <;> simp [hs]
    · simp [hq]

/-- The stems of the copies that were deleted. -/
theorem stems_strays {ps : List StrmPath} (acc : Tree × List (List String × List Char))
    (hps : ∀ p ∈ ps, matchesStrm p.name = true) (hacc : ∀ x ∈ acc.2, x.2 ≠ []) :
    ∀ x ∈ (ps.foldl (m.deleteStray src) acc).2, x.2 ≠ [] := by
  induction ps generalizing acc with
  | nil => exact hacc
  | cons p ps ih =>
    refine ih _ (fun p hp => hps p (by simp [hp])) ?_
    unfold deleteStray
    split
    · intro x hx
      rcases List.mem_append.1 hx with hx | hx
      · exact hacc x hx
      · rw [List.mem_singleton.1 hx]
        exact stem_ne_nil_of_matches (hps p (by simp))
    · exact hacc

theorem mem_glob : p ∈ t.glob ↔ t.isFile p = true ∧ matchesStrm p.name = true := by
  rw [Tree.glob, List.mem_filter, mem_paths]

theorem content_deleteStrays (hI : m.Mirrored src dst) (hq : strmLike q.name = true) :
    (m.deleteStrays src dst).content q =
      if matchesStrm q.name = true ∧ m.stray src q = true then none else dst.content q := by
  have hps : ∀ p ∈ dst.glob, matchesStrm p.name = true := fun p hp => (mem_glob.1 hp).2
  have hloop : ∀ (ds : List (List String)) (t : Tree) (deleted : List (List String × List Char)),
      (∀ x ∈ deleted, x.2 ≠ []) →
      (ds.foldl (fun t d => deleteSidecars t d ((deleted.filter (·.1 = d)).map (·.2)) true) t).content q = t.content q := by
    intro ds
    induction ds with
    | nil => exact fun _ _ _ => rfl
    | cons d ds ih =>
      intro t deleted hdeleted
      rw [List.foldl_cons, ih _ _ hdeleted, content_deleteSidecars _ hq]
      intro s hs
      obtain ⟨x, hx, rfl⟩ := List.mem_map.1 hs
      exact hdeleted x (List.mem_filter.1 hx).1
  unfold deleteStrays
  rw [hloop _ _ _ (stems_strays (dst, []) hps fun x hx => by cases hx), content_strays (dst, []) hps hI]
  cases hfile : dst.isFile q with
  | false => simp [content_eq_none.2 hfile]
  | true => simp [mem_glob, hfile]

/-! ## Directories without a strm -/

/-- Below the directory is something the walks take for a strm; the root is never deleted. -/
def Covered (t : Tree) (d : List String) : Prop :=
  d = [] ∨ ∃ p, t.isFile p = true ∧ matchesStrm p.name = true ∧ d <+: p.dir

theorem mem_emptyDirs {d : List String} : d ∈ emptyDirs t ↔ d ∈ t.allDirs ∧ ∀ p ∈ t.glob, ¬ d <+: p.dir := by
  simp [emptyDirs]

theorem mem_allDirs_of_file (h : t.isFile p = true) (hne : p.dir ≠ []) : p.dir ∈ t.allDirs := by
  refine List.mem_flatMap.2 ⟨p.dir, List.mem_append_right _ (List.mem_map.2 ⟨p, mem_paths.2 h, rfl⟩), ?_⟩
  exact List.mem_filter.2 ⟨(List.mem_inits _ _).2 List.prefix_rfl, by simpa using hne⟩

theorem ne_nil_of_mem_allDirs {d : List String} (h : d ∈ t.allDirs) : d ≠ [] := by
  obtain ⟨d', -, h⟩ := List.mem_flatMap.1 h
  simpa using (List.mem_filter.1 h).2

theorem content_rmtrees (ds : List (List String)) (t : Tree) (q : StrmPath) :
    (ds.foldl (fun t d => if t.isDir d then t.rmtree d else t) t).content q =
      if ds.any (· <+: q.dir) = true then none else t.content q := by
  induction ds generalizing t with
  | nil => simp
  | cons d ds ih =>
    have hone : (if t.isDir d then t.rmtree d else t).content q = if d <+: q.dir then none else t.content q := by
      split
      · exact content_rmtree
      · rename_i hdir
        by_cases hd : d <+: q.dir
        · rw [if_pos hd]
          refine content_eq_none.2 (Bool.eq_false_iff.2 fun hq => hdir ?_)
          obtain ⟨f, hf, hfq⟩ := List.mem_map.1 (mem_paths.2 hq)
          simp only [isDir, Bool.or_eq_true, List.any_eq_true, decide_eq_true_eq]
          exact .inr ⟨f, hf, hfq ▸ hd⟩
        · rw [if_neg hd]
    rw [List.foldl_cons, ih, hone]
    by_cases hd : d <+: q.dir <;> by_cases hds : ds.any (· <+: q.dir) = true <;> simp [hd, hds]

theorem content_deleteEmptyDirs_of_covered (h : Covered t q.dir) : (deleteEmptyDirs t).content q = t.content q := by
  rw [deleteEmptyDirs, content_rmtrees, if_neg]
  simp only [List.any_eq_true, List.mem_mergeSort, decide_eq_true_eq, not_exists, not_and]
  intro d hd hpre
  obtain ⟨hall, hempty⟩ := mem_emptyDirs.1 hd
  rcases h with h | ⟨p, hp, hm, hd'⟩
  · rw [h, List.prefix_nil] at hpre
    exact ne_nil_of_mem_allDirs hall hpre
  · exact hempty p (mem_glob.2 ⟨hp, hm⟩) (hpre.trans hd')

theorem content_deleteEmptyDirs_of_not (h : ¬ Covered t q.dir) : (deleteEmptyDirs t).content q = none := by
  rw [deleteEmptyDirs, content_rmtrees]
  by_cases hfile : t.isFile q = true
  · rw [if_pos]
    simp only [List.any_eq_true, List.mem_mergeSort, decide_eq_true_eq]
    have hne : q.dir ≠ [] := fun hnil => h (.inl hnil)
    refine ⟨q.dir, mem_emptyDirs.2 ⟨mem_allDirs_of_file hfile hne, fun p hp hd => h (.inr ?_)⟩, List.prefix_rfl⟩
    exact ⟨p, (mem_glob.1 hp).1, (mem_glob.1 hp).2, hd⟩
  · split
    · rfl
    · exact content_eq_none.2 (Bool.eq_false_iff.2 hfile)

/-! ## The full run -/

/-- What the walks leave under a path they take for a strm. -/
def mirrored (m : MappingPipeline) (src dst : Tree) (q : StrmPath) : Option String :=
  if src.isFile (sourceOf q) = true then
    match m.mapStrmPath (sourceOf q) with
    | some q' => if q' = q then src.content (sourceOf q) else none
    | none => dst.content q
  else none

theorem covered_congr {d : List String} (h : ∀ p, matchesStrm p.name = true → t.content p = t'.content p) :
    Covered t d ↔ Covered t' d := by
  have hfile : ∀ p, matchesStrm p.name = true → t.isFile p = t'.isFile p := by
    intro p hm
    rw [isFile_eq, isFile_eq, h p hm]
  refine or_congr .rfl (exists_congr fun p => ?_)
  constructor
  · rintro ⟨hp, hm, hd⟩
    exact ⟨hfile p hm ▸ hp, hm, hd⟩
  · rintro ⟨hp, hm, hd⟩
    exact ⟨(hfile p hm).symm ▸ hp, hm, hd⟩

theorem strmLike_of_matches {name : String} (h : matchesStrm name = true) : strmLike name = true := by simp [strmLike, h]

theorem strmLike_of_odd {name : String} (h : odd name = true) : strmLike name = true := by
  simp only [odd, Bool.and_eq_true] at h
  simp [strmLike, h.1]

theorem odd_or_matches {name : String} (h : strmLike name = true) : matchesStrm name = true ∨ odd name = true := by
  cases hm : matchesStrm name with
  | true => exact .inl rfl
  | false => exact .inr (by simpa [strmLike, odd, hm] using h)

theorem nodup_glob (t : Tree) : t.glob.Nodup := t.files.nodup.filter _

/-- The walk of a full run, and what follows it. -/
theorem runFull_ok (h : m.runFull src d = .ok d') :
    ∃ d₁, src.glob.foldlM (m.updateOne src) d = .ok d₁ ∧ d'.tree = deleteEmptyDirs (m.deleteStrays src d₁.tree) ∧
      d'.memory = d₁.memory := by
  unfold runFull at h
  cases hall : src.glob.foldlM (m.updateOne src) d with
  | error e =>
    rw [hall] at h
    cases h
  | ok d₁ =>
    rw [hall] at h
    cases h
    exact ⟨d₁, rfl, rfl, rfl⟩

theorem mem_glob_of_map {q' : StrmPath} (hmap : m.mapStrmPath (sourceOf q) = some q') (hsrc : src.isFile (sourceOf q) = true) :
    sourceOf q ∈ src.glob ↔ matchesStrm q.name = true := by
  obtain ⟨-, -, hname⟩ := mapStrmPath_eq_some hmap
  rw [mem_glob, and_iff_right hsrc]
  rfl

theorem mirrored_walk (htold : m.Told src d.tree d.memory src.glob) (h : src.glob.foldlM (m.updateOne src) d = .ok d₁) :
    m.Mirrored src d₁.tree := by
  intro p q hp hm hmap
  obtain rfl := (mapStrmPath_eq_some hmap).2.1
  rw [isFile_eq, content_updateAll (nodup_glob src) htold h, brought,
    if_pos ⟨(mem_glob_of_map hmap hp).2 hm, hmap, hp⟩, ← isFile_eq]
  exact hp

/-- What is left once the strays are gone: the mirror, and every copy of another spelling. -/
theorem content_walk_strays (htold : m.Told src d.tree d.memory src.glob) (h : src.glob.foldlM (m.updateOne src) d = .ok d₁) :
    (∀ q, matchesStrm q.name = true → (m.deleteStrays src d₁.tree).content q = m.mirrored src d.tree q) ∧
      ∀ q, odd q.name = true → (m.deleteStrays src d₁.tree).content q = d.tree.content q := by
  have h₁ := content_updateAll (nodup_glob src) htold h
  have hI := mirrored_walk htold h
  refine ⟨fun q hm => ?_, fun q hodd => ?_⟩
  · rw [content_deleteStrays hI (strmLike_of_matches hm), mirrored, h₁, brought, stray]
    cases hsrc : src.isFile (sourceOf q) with
    | false => simp [hm]
    | true =>
      cases hmap : m.mapStrmPath (sourceOf q) with
      | none => simp
      | some q' =>
        by_cases hq : q' = q
        · subst hq
          simp [(mem_glob_of_map hmap hsrc).2 hm]
        · simp [hm, hq]
  · have hnot : matchesStrm q.name = false := by
      simp only [odd, Bool.and_eq_true, Bool.not_eq_true'] at hodd
      exact hodd.2
    rw [content_deleteStrays hI (strmLike_of_odd hodd), if_neg (by simp [hnot]), h₁, brought, if_neg]
    rintro ⟨hmem, hmap, hsrc⟩
    rw [(mem_glob_of_map hmap hsrc).1 hmem] at hnot
    cases hnot

/-- What `run_full` leaves: a mirror of the sources it walks, what is left over from sources
without an AVID, and the copies of another spelling that lie beside these. -/
theorem content_runFull (htold : m.Told src d.tree d.memory src.glob) (h : m.runFull src d = .ok d') :
    (∀ q, matchesStrm q.name = true → d'.tree.content q = m.mirrored src d.tree q) ∧
      ∀ q, odd q.name = true → (Covered d'.tree q.dir → d'.tree.content q = d.tree.content q) ∧
        (¬ Covered d'.tree q.dir → d'.tree.content q = none) := by
  obtain ⟨d₁, hall, htree, -⟩ := runFull_ok h
  obtain ⟨hmatches, hothers⟩ := content_walk_strays htold hall
  rw [htree]
  have hkept : ∀ q, matchesStrm q.name = true →
      (deleteEmptyDirs (m.deleteStrays src d₁.tree)).content q = (m.deleteStrays src d₁.tree).content q := by
    intro q hm
    cases hfile : (m.deleteStrays src d₁.tree).isFile q with
    | true => exact content_deleteEmptyDirs_of_covered (.inr ⟨q, hfile, hm, List.prefix_rfl⟩)
    | false =>
      have hnone := content_eq_none.2 hfile
      rw [deleteEmptyDirs, content_rmtrees, hnone]
      split <;> rfl
  have hcovered : ∀ x, Covered (deleteEmptyDirs (m.deleteStrays src d₁.tree)) x ↔ Covered (m.deleteStrays src d₁.tree) x :=
    fun x => covered_congr hkept
  refine ⟨fun q hm => (hkept q hm).trans (hmatches q hm), fun q hodd => ⟨fun hc => ?_, fun hc => ?_⟩⟩
  · rw [content_deleteEmptyDirs_of_covered ((hcovered _).1 hc), hothers q hodd]
  · exact content_deleteEmptyDirs_of_not fun h => hc ((hcovered _).2 h)

/-! ## Agreement -/

/-- The same strms with the same contents. -/
def SameStrms (t t' : Tree) : Prop := ∀ q, strmLike q.name = true → t.content q = t'.content q

/-- A batch that names exactly what has changed between two states of the source. -/
structure Batch (before after : Tree) (changed deleted : List StrmPath) : Prop where
  nodup : changed.Nodup
  changed : ∀ p, p ∈ changed ↔ isStrm p.name = true ∧ after.isFile p = true ∧ after.file p ≠ before.file p
  deleted : ∀ p, p ∈ deleted ↔ isStrm p.name = true ∧ before.isFile p = true ∧ after.isFile p = false

/-- Below the directory the new sources have a copy that the walks find: of a source with an
AVID, or left over from one without. -/
def WillCover (m : MappingPipeline) (src dst : Tree) (d : List String) : Prop :=
  d = [] ∨ ∃ p, (m.mirrored src dst p).isSome = true ∧ matchesStrm p.name = true ∧ d <+: p.dir

/-- When a batch leaves what the full run would. -/
structure Agrees (m : MappingPipeline) (src dst : Tree) (changed deleted : List StrmPath) : Prop where
  /-- A copy left over from a source without an AVID still has its source. -/
  leftover : ∀ q, matchesStrm q.name = true → dst.isFile q = true → m.mapStrmPath (sourceOf q) = none →
    src.isFile (sourceOf q) = true
  /-- What is written under another spelling is there already, beside a strm. -/
  written : ∀ p ∈ changed, ∀ q, m.mapStrmPath p = some q → odd q.name = true →
    m.WillCover src dst q.dir ∧ dst.content q = src.content p
  /-- What is deleted under another spelling is not there, or lies beside no strm. -/
  removed : ∀ p ∈ deleted, ∀ q, m.mapStrmPath p = some q → odd q.name = true → dst.isFile q = true →
    ¬ m.WillCover src dst q.dir
  /-- Every other copy of another spelling lies beside a strm. -/
  beside : ∀ q, odd q.name = true → dst.isFile q = true →
    (m.mapStrmPath (sourceOf q) = some q → sourceOf q ∉ changed ∧ sourceOf q ∉ deleted) → m.WillCover src dst q.dir

variable {before after : Tree} {start made mirror incremental full next : Dest} {changed deleted : List StrmPath}

theorem covered_runFull (htold : m.Told src d.tree d.memory src.glob) (h : m.runFull src d = .ok d') {e : List String} :
    Covered d'.tree e ↔ m.WillCover src d.tree e := by
  refine or_congr .rfl (exists_congr fun p => ?_)
  constructor
  · rintro ⟨hp, hm, hd⟩
    rw [isFile_eq, (content_runFull htold h).1 p hm] at hp
    exact ⟨hp, hm, hd⟩
  · rintro ⟨hp, hm, hd⟩
    rw [← (content_runFull htold h).1 p hm, ← isFile_eq] at hp
    exact ⟨hp, hm, hd⟩

/-- On what the walks take for a strm the two runs agree but for what is left over. -/
theorem matches_agree (hstart : m.Honest before start.tree start.memory) (hmirror : m.runFull before start = .ok made)
    (htree : mirror.tree = made.tree) (hnow : m.Honest after mirror.tree mirror.memory) (hbatch : Batch before after changed deleted)
    (hinc : m.runIncremental after mirror changed deleted = (incremental, [], [])) {q : StrmPath} (hm : matchesStrm q.name = true) :
    incremental.tree.content q = m.mirrored after mirror.tree q ∨
      (m.mapStrmPath (sourceOf q) = none ∧ incremental.tree.content q = mirror.tree.content q) := by
  rw [content_runIncremental hnow hbatch.nodup hinc (strmLike_of_matches hm), mirrored]
  have hold := (content_runFull (hstart.told _) hmirror).1 q hm
  rw [← htree] at hold
  cases hmap : m.mapStrmPath (sourceOf q) with
  | none => exact .inr ⟨rfl, by simp⟩
  | some q' =>
    left
    -- a mirrored strm is left alone only where its source is as it was
    by_cases hq : q' = q
    · subst hq
      have hstrm := (mapStrmPath_eq_some hmap).1
      rw [mirrored, hmap] at hold
      simp only [if_true] at hold ⊢
      cases hafter : after.isFile (sourceOf q') with
      | true =>
        by_cases hchanged : sourceOf q' ∈ changed
        · simp [hchanged]
        · have hsame : after.file (sourceOf q') = before.file (sourceOf q') := by
            by_contra hne
            exact hchanged ((hbatch.changed _).2 ⟨hstrm, hafter, hne⟩)
          have hbefore : before.isFile (sourceOf q') = true := by rw [isFile, ← hsame]; exact hafter
          have hkept : sourceOf q' ∉ deleted := fun hd => by
            have := ((hbatch.deleted _).1 hd).2.2
            rw [hafter] at this
            cases this
          rw [hbefore] at hold
          simp only [hchanged, hkept, if_false, false_and, hold, if_true]
          rw [content, content, hsame]
      | false =>
        by_cases hdeleted : sourceOf q' ∈ deleted
        · simp [hdeleted]
        · have hbefore : before.isFile (sourceOf q') = false := by
            by_contra hne
            exact hdeleted ((hbatch.deleted _).2 ⟨hstrm, by simpa using hne, hafter⟩)
          rw [hbefore] at hold
          simpa [hdeleted] using hold
    · have : mirror.tree.content q = none := by
        rw [hold, mirrored, hmap]
        simp [hq]
      simp [hq, this]

/-- What the full run leaves of a copy of another spelling. -/
theorem odd_runFull (htold : m.Told src d.tree d.memory src.glob) (h : m.runFull src d = .ok d') (hodd : odd q.name = true) :
    (m.WillCover src d.tree q.dir ∧ d'.tree.content q = d.tree.content q) ∨
      (¬ m.WillCover src d.tree q.dir ∧ d'.tree.content q = none) := by
  obtain ⟨hcovered, hnot⟩ := (content_runFull htold h).2 q hodd
  by_cases hc : Covered d'.tree q.dir
  · exact .inl ⟨(covered_runFull htold h).1 hc, hcovered hc⟩
  · exact .inr ⟨fun hw => hc ((covered_runFull htold h).2 hw), hnot hc⟩

/-- A full run changes nothing where the incremental one has left what it would have. -/
theorem same_next (hnow : m.Honest after mirror.tree mirror.memory) (hfull : m.runFull after mirror = .ok full)
    (hinc : m.runIncremental after mirror changed deleted = (incremental, [], [])) (hnext : m.runFull after incremental = .ok next)
    (hsame : SameStrms incremental.tree full.tree) : SameStrms next.tree incremental.tree := by
  have hthen := content_runFull ((hnow.runIncremental hinc).told _) hnext
  have hfirst := content_runFull (hnow.told _) hfull
  have hmatches : ∀ q, matchesStrm q.name = true → next.tree.content q = incremental.tree.content q := by
    intro q hm
    have hinc := hsame q (strmLike_of_matches hm)
    rw [hfirst.1 q hm] at hinc
    rw [hthen.1 q hm]
    unfold mirrored at hinc ⊢
    split
    · rename_i hsrc
      rw [if_pos hsrc] at hinc
      cases hmap : m.mapStrmPath (sourceOf q) with
      | none => rfl
      | some q' =>
        rw [hmap] at hinc
        exact hinc.symm
    · rename_i hsrc
      rw [if_neg hsrc] at hinc
      exact hinc.symm
  intro q hq
  rcases odd_or_matches hq with hm | hodd
  · exact hmatches q hm
  · obtain ⟨hcovered, hnot⟩ := hthen.2 q hodd
    by_cases hc : Covered next.tree q.dir
    · exact hcovered hc
    · rw [hnot hc, hsame q hq]
      have hc' : ¬ Covered full.tree q.dir := by
        rw [← covered_congr fun p hm => hsame p (strmLike_of_matches hm), ← covered_congr hmatches]
        exact hc
      exact ((hfirst.2 q hodd).2 hc').symm

/-- What the incremental run leaves of a copy that no change is about. -/
theorem untouched (hnow : m.Honest after mirror.tree mirror.memory) (hnodup : changed.Nodup)
    (hinc : m.runIncremental after mirror changed deleted = (incremental, [], [])) (hq : strmLike q.name = true)
    (h : m.mapStrmPath (sourceOf q) = some q → sourceOf q ∉ changed ∧ sourceOf q ∉ deleted) :
    incremental.tree.content q = mirror.tree.content q := by
  rw [content_runIncremental hnow hnodup hinc hq]
  by_cases hmap : m.mapStrmPath (sourceOf q) = some q
  · simp [hmap, (h hmap).1, (h hmap).2]
  · rw [if_neg hmap]

theorem agrees_of_same (hnow : m.Honest after mirror.tree mirror.memory) (hbatch : Batch before after changed deleted)
    (hinc : m.runIncremental after mirror changed deleted = (incremental, [], [])) (hfull : m.runFull after mirror = .ok full)
    (hsame : SameStrms incremental.tree full.tree) : m.Agrees after mirror.tree changed deleted := by
  have hsome : ∀ {t : Tree} {q : StrmPath}, t.isFile q = true → t.content q ≠ none := by
    intro t q h hn
    rw [content_eq_none.1 hn] at h
    cases h
  refine ⟨fun q hm hfile hmap => ?_, fun p hp q hmap hodd => ?_, fun p hp q hmap hodd hfile hcover => ?_,
    fun q hodd hfile htouched => ?_⟩
  · by_contra hsrc
    have hold := untouched hnow hbatch.nodup hinc (strmLike_of_matches hm) (fun h => by rw [hmap] at h; cases h)
    rw [hsame q (strmLike_of_matches hm), (content_runFull (hnow.told _) hfull).1 q hm, mirrored, if_neg hsrc] at hold
    exact hsome hfile hold.symm
  · obtain rfl := (mapStrmPath_eq_some hmap).2.1
    obtain ⟨-, hafter, -⟩ := (hbatch.changed _).1 hp
    have hnew := content_runIncremental hnow hbatch.nodup hinc (strmLike_of_odd hodd)
    rw [if_pos hmap, if_pos ⟨hp, hafter⟩, hsame q (strmLike_of_odd hodd)] at hnew
    rcases odd_runFull (hnow.told _) hfull hodd with ⟨hc, ho⟩ | ⟨-, ho⟩
    · exact ⟨hc, ho.symm.trans hnew⟩
    · exact absurd (hnew.symm.trans ho) (hsome hafter)
  · obtain rfl := (mapStrmPath_eq_some hmap).2.1
    obtain ⟨-, -, hafter⟩ := (hbatch.deleted _).1 hp
    have hnew := content_runIncremental hnow hbatch.nodup hinc (strmLike_of_odd hodd)
    rw [if_pos hmap, if_neg (by simp [hafter]), if_pos hp, hsame q (strmLike_of_odd hodd)] at hnew
    rcases odd_runFull (hnow.told _) hfull hodd with ⟨-, ho⟩ | ⟨hc, -⟩
    · exact hsome hfile (ho.symm.trans hnew)
    · exact hc hcover
  · have hold := untouched hnow hbatch.nodup hinc (strmLike_of_odd hodd) htouched
    rw [hsame q (strmLike_of_odd hodd)] at hold
    rcases odd_runFull (hnow.told _) hfull hodd with ⟨hc, -⟩ | ⟨-, ho⟩
    · exact hc
    · exact absurd (hold.symm.trans ho) (hsome hfile)

theorem same_of_agrees (hstart : m.Honest before start.tree start.memory) (hmirror : m.runFull before start = .ok made)
    (htree : mirror.tree = made.tree) (hnow : m.Honest after mirror.tree mirror.memory) (hbatch : Batch before after changed deleted)
    (hinc : m.runIncremental after mirror changed deleted = (incremental, [], [])) (hfull : m.runFull after mirror = .ok full)
    (hagrees : m.Agrees after mirror.tree changed deleted) : SameStrms incremental.tree full.tree := by
  intro q hq
  rcases odd_or_matches hq with hm | hodd
  · rw [(content_runFull (hnow.told _) hfull).1 q hm]
    rcases matches_agree hstart hmirror htree hnow hbatch hinc hm with h | ⟨hmap, h⟩
    · exact h
    · rw [h, mirrored, hmap]
      split
      · rfl
      · rename_i hsrc
        exact content_eq_none.2 (Bool.eq_false_iff.2 fun hfile => hsrc (hagrees.leftover q hm hfile hmap))
  · by_cases htouched : m.mapStrmPath (sourceOf q) = some q → sourceOf q ∉ changed ∧ sourceOf q ∉ deleted
    · rw [untouched hnow hbatch.nodup hinc hq htouched]
      rcases odd_runFull (hnow.told _) hfull hodd with ⟨-, ho⟩ | ⟨hc, ho⟩
      · exact ho.symm
      · rw [ho]
        exact content_eq_none.2 (Bool.eq_false_iff.2 fun hfile => hc (hagrees.beside q hodd hfile htouched))
    · simp only [not_forall, not_and, Decidable.not_not] at htouched
      obtain ⟨hmap, htouched⟩ := htouched
      rw [content_runIncremental hnow hbatch.nodup hinc hq, if_pos hmap]
      by_cases hchanged : sourceOf q ∈ changed
      · obtain ⟨-, hafter, -⟩ := (hbatch.changed _).1 hchanged
        obtain ⟨hc, hsame⟩ := hagrees.written _ hchanged q hmap hodd
        rw [if_pos ⟨hchanged, hafter⟩, ← hsame]
        rcases odd_runFull (hnow.told _) hfull hodd with ⟨-, ho⟩ | ⟨hn, -⟩
        · exact ho.symm
        · exact absurd hc hn
      · have hdeleted := htouched hchanged
        rw [if_neg (fun h => hchanged h.1), if_pos hdeleted]
        rcases odd_runFull (hnow.told _) hfull hodd with ⟨hc, ho⟩ | ⟨-, ho⟩
        · rw [ho]
          exact (content_eq_none.2 (Bool.eq_false_iff.2 fun hfile => hagrees.removed _ hdeleted q hmap hodd hfile hc)).symm
        · exact ho.symm

/-- Where no comparison that is remembered is out of date, a batch leaves the strms the full run would, and a full run after it changes none of them,
exactly when no copy is left over from a source without an AVID that is gone, and every copy of
another spelling that is there, written or deleted stands as the directories beside it do. -/
theorem incremental_agrees_iff (hstart : m.Honest before start.tree start.memory) (hmirror : m.runFull before start = .ok made)
    (htree : mirror.tree = made.tree) (hnow : m.Honest after mirror.tree mirror.memory) (hbatch : Batch before after changed deleted)
    (hinc : m.runIncremental after mirror changed deleted = (incremental, [], [])) (hfull : m.runFull after mirror = .ok full)
    (hnext : m.runFull after incremental = .ok next) :
    (SameStrms incremental.tree full.tree ∧ SameStrms next.tree incremental.tree) ↔ m.Agrees after mirror.tree changed deleted := by
  constructor
  · rintro ⟨hsame, -⟩
    exact agrees_of_same hnow hbatch hinc hfull hsame
  · intro hagrees
    have hsame := same_of_agrees hstart hmirror htree hnow hbatch hinc hfull hagrees
    exact ⟨hsame, same_next hnow hfull hinc hnext hsame⟩

/-- In lower case throughout, only what is left over can differ. -/
theorem agrees_of_lower_case (hbatch : Batch before after changed deleted)
    (hleftover : ∀ q, matchesStrm q.name = true → mirror.tree.isFile q = true → m.mapStrmPath (sourceOf q) = none →
      after.isFile (sourceOf q) = true)
    (hbefore : ∀ q, mirror.tree.isFile q = true → odd q.name = false)
    (hafter : ∀ p, after.isFile p = true → odd p.name = false) : m.Agrees after mirror.tree changed deleted := by
  have hnone : ∀ {q}, odd q.name = true → mirror.tree.isFile q = true → False := by
    intro q hodd hfile
    rw [hbefore q hfile] at hodd
    cases hodd
  refine ⟨hleftover, fun p hp q hmap hodd => ?_, fun _ _ _ _ hodd hfile => (hnone hodd hfile).elim,
    fun _ hodd hfile => (hnone hodd hfile).elim⟩
  rw [(mapStrmPath_eq_some hmap).2.2, hafter p ((hbatch.changed p).1 hp).2.1] at hodd
  cases hodd

/-! ## A batch by its two trees -/

def changes (before after : Tree) : List StrmPath :=
  after.paths.filter fun p => isStrm p.name ∧ after.file p ≠ before.file p

def deletions (before after : Tree) : List StrmPath := before.paths.filter fun p => isStrm p.name ∧ after.isFile p = false

theorem batch_of (before after : Tree) : Batch before after (changes before after) (deletions before after) := by
  refine ⟨after.files.nodup.filter _, fun p => ?_, fun p => ?_⟩
  · rw [changes, List.mem_filter, mem_paths, decide_eq_true_eq]
    exact and_left_comm
  · rw [deletions, List.mem_filter, mem_paths, decide_eq_true_eq]
    exact and_left_comm

/-- It is enough to look at what is remembered. -/
theorem honest_of_rows (h : ∀ r ∈ memory.rows, (src.file r.1.src).map File.sig = some r.1.srcSig →
    (dst.file r.1.dst).map File.sig = some r.1.dstSig → r.2 = true → dst.content r.1.dst = src.content r.1.src) :
    m.Honest src dst memory := by
  intro p q file old hc hsame
  obtain ⟨-, hfile, hold, -⟩ := compared_eq_some.1 hc
  rcases (cmp_eq_true.1 hsame).2 with hfind | ⟨-, heq⟩
  · have := h _ (Table.mem_of_find hfind) (by simp [hfile]) (by simp [hold]) rfl
    simpa [content, hfile, hold] using this
  · exact heq

/-- The destination of a run that does not fail. -/
def result (r : Except MappingExn Dest) : Dest := r.toOption.getD ⟨.empty, .empty⟩

theorem eq_ok_result {r : Except MappingExn Dest} (h : r.toOption.isSome = true) : r = .ok (result r) := by
  cases r with
  | ok t => rfl
  | error e => cases h

/-- Names that begin like an AVID of one brand. -/
def oneBrand : MappingPipeline := ⟨fun name => if "ABC-".toList <+: name.toList then String.ofList (name.toList.take 7) else ""⟩

def first : Tree := Tree.empty.write ⟨["jav"], "ABC-001.strm"⟩ ⟨"a", 1⟩

/-- One file rewritten, and another added. -/
def second : Tree := (first.write ⟨["jav"], "ABC-001.strm"⟩ ⟨"b", 2⟩).write ⟨["jav"], "ABC-002.strm"⟩ ⟨"c", 2⟩

/-- The second file with its suffix in capitals. -/
def capitals : Tree := first.write ⟨["jav"], "ABC-002.STRM"⟩ ⟨"c", 2⟩

/-- A first run, which copies, and a second, which compares. -/
def copied : Dest := result (oneBrand.runFull first ⟨.empty, .empty⟩)

def mirrorOf : Dest := result (oneBrand.runFull first copied)

def batchOn (after : Tree) : Dest × List StrmPath × List StrmPath :=
  oneBrand.runIncremental after mirrorOf (changes first after) (deletions first after)

example : mirrorOf.memory.rows.map (·.2) = [true] := by with_unfolding_all decide

theorem mirrorOf_eq : oneBrand.runFull first copied = .ok mirrorOf := eq_ok_result (by with_unfolding_all decide)

theorem batchOn_eq {after : Tree} (h : (batchOn after).2 = ([], [])) :
    oneBrand.runIncremental after mirrorOf (changes first after) (deletions first after) = ((batchOn after).1, [], []) :=
  Prod.ext rfl h

theorem second_agrees_iff :
    (SameStrms (batchOn second).1.tree (result (oneBrand.runFull second mirrorOf)).tree ∧
        SameStrms (result (oneBrand.runFull second (batchOn second).1)).tree (batchOn second).1.tree) ↔
      oneBrand.Agrees second mirrorOf.tree (changes first second) (deletions first second) :=
  incremental_agrees_iff (honest_of_rows (by with_unfolding_all decide)) mirrorOf_eq rfl
    (honest_of_rows (by with_unfolding_all decide)) (batch_of first second) (batchOn_eq (by with_unfolding_all decide))
    (eq_ok_result (by with_unfolding_all decide)) (eq_ok_result (by with_unfolding_all decide))

/-- The copy of a `.STRM` is made by the batch, and taken away by the full run. -/
theorem capitals_disagree :
    ¬ ∀ (m : MappingPipeline) (before after : Tree) (start mirror incremental full next : Dest) (changed deleted : List StrmPath),
      m.runFull before start = .ok mirror → Batch before after changed deleted →
      m.runIncremental after mirror changed deleted = (incremental, [], []) → m.runFull after mirror = .ok full →
      m.runFull after incremental = .ok next → SameStrms incremental.tree full.tree ∧ SameStrms next.tree incremental.tree := by
  intro h
  have hsame := (h oneBrand first capitals copied _ _ _ _ _ _ mirrorOf_eq (batch_of first capitals)
    (batchOn_eq (by with_unfolding_all decide)) (eq_ok_result (by with_unfolding_all decide)) (eq_ok_result (by with_unfolding_all decide))).1
  have hcopy := hsame ⟨["jav", "ABC-002"], "ABC-002.STRM"⟩ (by with_unfolding_all decide)
  revert hcopy
  with_unfolding_all decide

end MappingPipeline

end EmbyxManager.Mapping
