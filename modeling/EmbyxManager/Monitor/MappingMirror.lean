import EmbyxManager.Monitor.MappingAgreement
/-!
# What a full run leaves

After `run_full` the destination is the mirror of what the walk found in the source: every
source with an AVID has its copy, every strm left has its source, and no directory is without a
strm. So a second run finds nothing to write, no stray and no empty directory. It deletes no
metadata either: what the first run left in a directory belongs to a strm that is still there,
or to nobody.
-/

namespace EmbyxManager.Mapping

open Atom

/-! ## Trees -/

namespace Tree
variable {t t' : Tree} {p q : StrmPath} {d e : List String}

theorem isDir_iff : t.isDir d = true ↔ d = [] ∨ (∃ d' ∈ t.dirs, d <+: d') ∨ ∃ p, t.isFile p = true ∧ d <+: p.dir := by
  have hfiles : (∃ f ∈ t.files.rows, d <+: f.1.dir) ↔ ∃ p, t.isFile p = true ∧ d <+: p.dir := by
    constructor
    · rintro ⟨f, hf, hd⟩
      exact ⟨f.1, mem_paths.1 (List.mem_map_of_mem hf), hd⟩
    · rintro ⟨p, hp, hd⟩
      obtain ⟨f, hf, rfl⟩ := List.mem_map.1 (mem_paths.2 hp)
      exact ⟨f, hf, hd⟩
  simp only [isDir, Bool.or_eq_true, decide_eq_true_eq, List.any_eq_true, hfiles, or_assoc]

theorem isDir_above (h : t.isDir e = true) (hd : d <+: e) : t.isDir d = true := by
  rcases isDir_iff.1 h with rfl | ⟨d', hd', he⟩ | ⟨p, hp, he⟩
  · rw [List.prefix_nil.1 hd]
    exact isDir_iff.2 (.inl rfl)
  · exact isDir_iff.2 (.inr (.inl ⟨d', hd', hd.trans he⟩))
  · exact isDir_iff.2 (.inr (.inr ⟨p, hp, hd.trans he⟩))

theorem mem_allDirs : d ∈ t.allDirs ↔ d ≠ [] ∧ t.isDir d = true := by
  simp only [allDirs, List.mem_flatMap, List.mem_filter, List.mem_inits, decide_eq_true_eq, List.mem_append, List.mem_map, isDir_iff]
  constructor
  · rintro ⟨e, he | ⟨p, hp, rfl⟩, hd, hne⟩
    · exact ⟨hne, .inr (.inl ⟨e, he, hd⟩)⟩
    · exact ⟨hne, .inr (.inr ⟨p, mem_paths.1 hp, hd⟩)⟩
  · rintro ⟨hne, rfl | ⟨e, he, hd⟩ | ⟨p, hp, hd⟩⟩
    · exact absurd rfl hne
    · exact ⟨e, .inl he, hd, hne⟩
    · exact ⟨p.dir, .inr ⟨p, mem_paths.2 hp, rfl⟩, hd, hne⟩

theorem isDir_mkdir_iff : (t.mkdir e).isDir d = true ↔ t.isDir d = true ∨ d <+: e := by
  rw [isDir_iff, isDir_iff]
  constructor
  · rintro (hd | ⟨d', hd', hd⟩ | hd)
    · exact .inl (.inl hd)
    · rcases List.mem_cons.1 hd' with rfl | hd'
      · exact .inr hd
      · exact .inl (.inr (.inl ⟨d', hd', hd⟩))
    · exact .inl (.inr (.inr hd))
  · rintro ((hd | ⟨d', hd', hd⟩ | hd) | hd)
    · exact .inl hd
    · exact .inr (.inl ⟨d', List.mem_cons_of_mem _ hd', hd⟩)
    · exact .inr (.inr hd)
    · exact .inr (.inl ⟨e, List.mem_cons_self, hd⟩)

theorem isDir_write_iff (f : File) : (t.write p f).isDir d = true ↔ t.isDir d = true ∨ d <+: p.dir := by
  have hfile : ∀ q, (t.write p f).isFile q = true ↔ q = p ∨ t.isFile q = true := by
    intro q
    rw [isFile, file_write, isFile]
    by_cases hq : q = p <;> simp [hq]
  rw [isDir_iff, isDir_iff]
  constructor
  · rintro (hd | hd | ⟨q, hq, hd⟩)
    · exact .inl (.inl hd)
    · exact .inl (.inr (.inl hd))
    · rcases (hfile q).1 hq with rfl | hq
      · exact .inr hd
      · exact .inl (.inr (.inr ⟨q, hq, hd⟩))
  · rintro ((hd | hd | ⟨q, hq, hd⟩) | hd)
    · exact .inl hd
    · exact .inr (.inl hd)
    · exact .inr (.inr ⟨q, (hfile q).2 (.inr hq), hd⟩)
    · exact .inr (.inr ⟨p, (hfile p).2 (.inl rfl), hd⟩)

/-- A directory that is made for a file that is there changes nothing. -/
theorem isDir_mkdir (h : t.isFile p = true) : (t.mkdir p.dir).isDir d = t.isDir d := by
  rw [Bool.eq_iff_iff, isDir_mkdir_iff]
  exact or_iff_left_of_imp fun hd => isDir_iff.2 (.inr (.inr ⟨p, h, hd⟩))

/-- No file is there that was not, and none has changed. -/
def Within (t' t : Tree) : Prop := ∀ q, t'.isFile q = true → t'.file q = t.file q

theorem Within.refl (t : Tree) : Within t t := fun _ _ => rfl

theorem Within.trans {t₁ t₂ t₃ : Tree} (h : Within t₁ t₂) (h' : Within t₂ t₃) : Within t₁ t₃ := by
  intro q hq
  have hq₂ : t₂.isFile q = true := by rw [isFile, ← h q hq]; exact hq
  exact (h q hq).trans (h' q hq₂)

theorem Within.isFile (h : Within t' t) (hq : t'.isFile q = true) : t.isFile q = true := by
  rw [Tree.isFile, ← h q hq]
  exact hq

theorem within_keep (keep : StrmPath × File → Bool) (dirs : List (List String)) : Within ⟨t.files.keep keep, dirs⟩ t := by
  intro q hq
  simp only [Tree.isFile, file, Table.find_keep] at hq ⊢
  cases h : t.files.find q with
  | none => simp [h] at hq
  | some r =>
    rw [h] at hq
    by_cases hk : keep r = true
    · simp [Option.filter_some, hk]
    · simp [Option.filter_some, hk] at hq

theorem within_unlink (p : StrmPath) : Within (t.unlink p) t := within_keep _ _

theorem within_rmtree (d : List String) : Within (t.rmtree d) t := within_keep _ _

theorem within_foldl {α : Type} {f : Tree → α → Tree} (hf : ∀ t a, Within (f t a) t) (as : List α) (t : Tree) :
    Within (as.foldl f t) t := by
  induction as generalizing t with
  | nil => exact .refl t
  | cons a as ih => exact (ih (f t a)).trans (hf t a)

theorem prefix_snoc_iff {n : String} :
    (if d <+: e then (e.drop d.length).head? else none) = some n ↔ (d ++ [n]) <+: e := by
  constructor
  · intro h
    split at h
    · rename_i hd
      obtain ⟨rest, rfl⟩ := hd
      rw [List.drop_left] at h
      obtain ⟨rest, rfl⟩ := List.head?_eq_some_iff.1 h
      exact ⟨rest, by simp⟩
    · cases h
  · rintro ⟨rest, rfl⟩
    simp [List.append_assoc]

theorem mem_subdirs {n : String} : n ∈ t.subdirs d ↔ t.isDir (d ++ [n]) = true := by
  simp only [subdirs, List.mem_filterMap, prefix_snoc_iff, List.mem_append, List.mem_map, isDir_iff]
  constructor
  · rintro ⟨e, he | ⟨p, hp, rfl⟩, hpre⟩
    · exact .inr (.inl ⟨e, he, hpre⟩)
    · exact .inr (.inr ⟨p, mem_paths.1 hp, hpre⟩)
  · rintro (h | ⟨e, he, hpre⟩ | ⟨p, hp, hpre⟩)
    · simp at h
    · exact ⟨e, .inl he, hpre⟩
    · exact ⟨p.dir, .inr ⟨p, mem_paths.2 hp, rfl⟩, hpre⟩

/-- A file takes no directory with it. -/
theorem isDir_unlink (h : t.isDir p.dir = true) (d : List String) : (t.unlink p).isDir d = t.isDir d := by
  rw [Bool.eq_iff_iff]
  constructor
  · intro hd
    rcases isDir_iff.1 hd with rfl | ⟨d', hd', hpre⟩ | ⟨q, hq, hpre⟩
    · exact isDir_iff.2 (.inl rfl)
    · rcases List.mem_cons.1 hd' with rfl | hd'
      · exact isDir_above h hpre
      · exact isDir_iff.2 (.inr (.inl ⟨d', hd', hpre⟩))
    · exact isDir_iff.2 (.inr (.inr ⟨q, (within_unlink p).isFile hq, hpre⟩))
  · intro hd
    rcases isDir_iff.1 hd with rfl | ⟨d', hd', hpre⟩ | ⟨q, hq, hpre⟩
    · exact isDir_iff.2 (.inl rfl)
    · exact isDir_iff.2 (.inr (.inl ⟨d', List.mem_cons_of_mem _ hd', hpre⟩))
    · by_cases hqp : q = p
      · subst hqp
        exact isDir_iff.2 (.inr (.inl ⟨q.dir, List.mem_cons_self, hpre⟩))
      · refine isDir_iff.2 (.inr (.inr ⟨q, ?_, hpre⟩))
        rw [isFile_eq, content_unlink, if_neg hqp, ← isFile_eq]
        exact hq

theorem isDir_of_isFile (h : t.isFile p = true) : t.isDir p.dir = true := isDir_iff.2 (.inr (.inr ⟨p, h, List.prefix_rfl⟩))

theorem isDir_foldl_unlink {ps : List StrmPath} (hps : ∀ p ∈ ps, t.isDir p.dir = true) (d : List String) :
    (ps.foldl unlink t).isDir d = t.isDir d := by
  induction ps generalizing t with
  | nil => rfl
  | cons p ps ih =>
    obtain ⟨hp, hps⟩ := List.forall_mem_cons.1 hps
    rw [List.foldl_cons, ih fun p' hp' => (isDir_unlink hp _).trans (hps p' hp'), isDir_unlink hp]

theorem isFile_foldl_unlink {ps : List StrmPath} : (ps.foldl unlink t).isFile q = true ↔ t.isFile q = true ∧ q ∉ ps := by
  rw [isFile_eq, content_foldl_unlink, isFile_eq]
  by_cases h : q ∈ ps <;> simp [h]

end Tree

open EmbyxManager.Mapping.Tree

namespace MappingPipeline
variable {m : MappingPipeline} {src dst t t' : Tree} {p q e : StrmPath} {x : List String} {stems : List (List Char)}

/-! ## Metadata -/

/-- The strm's name, followed by `.` or `-`, starts the file's. -/
def Claims (name s : List Char) : Prop := (s ++ ['.']) <+: name ∨ (s ++ ['-']) <+: name

theorem Claims.prefix {name s : List Char} (h : Claims name s) : s <+: name := by
  rcases h with h | h
  · exact (List.prefix_append s _).trans h
  · exact (List.prefix_append s _).trans h

theorem longest_spec {ss : List (List Char)} :
    (longest ss = none ↔ ss = []) ∧ ∀ s, longest ss = some s → s ∈ ss ∧ ∀ s' ∈ ss, s'.length ≤ s.length := by
  induction ss with
  | nil => simp [longest]
  | cons s ss ih =>
    unfold longest
    cases hrest : longest ss with
    | none =>
      rw [ih.1.1 hrest]
      simp
    | some r =>
      obtain ⟨hmem, hmax⟩ := ih.2 r hrest
      dsimp only
      by_cases hlen : s.length < r.length
      · rw [if_pos hlen]
        refine ⟨by simp, ?_⟩
        rintro _ ⟨⟩
        refine ⟨List.mem_cons_of_mem _ hmem, List.forall_mem_cons.2 ⟨hlen.le, hmax⟩⟩
      · rw [if_neg hlen]
        refine ⟨by simp, ?_⟩
        rintro _ ⟨⟩
        refine ⟨List.mem_cons_self, List.forall_mem_cons.2 ⟨le_rfl, fun s' hs' => ?_⟩⟩
        exact (hmax s' hs').trans (Nat.not_lt.1 hlen)

theorem owner_eq_none {name : List Char} : owner name stems = none ↔ ∀ s ∈ stems, ¬ Claims name s := by
  rw [owner, longest_spec.1, List.filter_eq_nil_iff]
  simp [Claims]

/-- The longest name that claims the file owns it, whoever else there is. -/
theorem owner_eq_some {name s : List Char} :
    owner name stems = some s ↔ s ∈ stems ∧ Claims name s ∧ ∀ s' ∈ stems, Claims name s' → s'.length ≤ s.length := by
  have hspec : ∀ {s}, owner name stems = some s →
      s ∈ stems ∧ Claims name s ∧ ∀ s' ∈ stems, Claims name s' → s'.length ≤ s.length := by
    intro s h
    obtain ⟨hmem, hmax⟩ := longest_spec.2 s h
    simp only [List.mem_filter, decide_eq_true_eq] at hmem hmax
    exact ⟨hmem.1, hmem.2, fun s' hs' hc => hmax s' ⟨hs', hc⟩⟩
  refine ⟨hspec, fun ⟨hs, hc, hmax⟩ => ?_⟩
  cases hown : owner name stems with
  | none => exact absurd hc (owner_eq_none.1 hown s hs)
  | some r =>
    obtain ⟨hr, hrc, hrmax⟩ := hspec hown
    have hlen : s.length = r.length := le_antisymm (hrmax s hs hc) (hmax r hr hrc)
    rw [(List.prefix_of_prefix_length_le hc.prefix hrc.prefix hlen.le).eq_of_length hlen]

theorem length_le_owner {name s : List Char} (hs : s ∈ stems) (hc : Claims name s) :
    s.length ≤ ((owner name stems).getD []).length := by
  cases hown : owner name stems with
  | none => exact absurd hc (owner_eq_none.1 hown s hs)
  | some r => exact (owner_eq_some.1 hown).2.2 s hs hc

/-- A file's name names a part that has no strm, and no strm claims more of the name; or one that is gone
claims more of it than any that is there. -/
def Orphaned (live gone : List Char → Prop) (name : List Char) : Prop :=
  (∃ part, partStem name = some part ∧ part ≠ [] ∧ (∃ s, live s) ∧ ¬ live part ∧
      ∀ s, live s ∨ gone s → Claims name s → s.length < part.length) ∨
    ∃ s, gone s ∧ ¬ live s ∧ Claims name s ∧ ∀ s', live s' → Claims name s' → s'.length < s.length

/-- It is those that `_delete_sidecars` deletes. -/
theorem orphaned_iff {name : List Char} {live : List (List Char)} :
    (∃ s, ownerOf live (stems.filter (· ∉ live)) true name = some s ∧ s ∉ live) ↔ Orphaned (· ∈ live) (· ∈ stems) name := by
  have hmem : ∀ s, s ∈ live ++ stems.filter (· ∉ live) ↔ s ∈ live ∨ s ∈ stems := by
    intro s
    by_cases hs : s ∈ live <;> simp [hs]
  unfold ownerOf
  dsimp only
  constructor
  · rintro ⟨s, hs, hlive⟩
    have hown : owner name (live ++ stems.filter (· ∉ live)) = some s → Orphaned (· ∈ live) (· ∈ stems) name := by
      intro hown
      obtain ⟨hmem', hc, hmax⟩ := owner_eq_some.1 hown
      refine .inr ⟨s, ((hmem s).1 hmem').resolve_left hlive, hlive, hc, fun s' hs' hc' => ?_⟩
      refine lt_of_le_of_ne (hmax s' ((hmem s').2 (.inl hs')) hc') fun hlen => hlive ?_
      rwa [← (List.prefix_of_prefix_length_le hc'.prefix hc.prefix hlen.le).eq_of_length hlen]
    -- the part stem wins where it is longer than the owner among all stems
    split at hs
    · rename_i part hpart
      split at hpart
      · rename_i hne
        split at hs
        · rename_i hlong
          cases hs
          refine .inl ⟨s, hpart, ?_, List.exists_mem_of_ne_nil _ hne.2, hlive, fun s' hs' hc' => ?_⟩
          · rintro rfl
            exact absurd hlong.2 (by simp)
          · exact (length_le_owner ((hmem s').2 hs') hc').trans_lt hlong.2
        · exact hown hs
      · cases hpart
    · exact hown hs
  · have hpartOr : ∀ part, (if true = true ∧ live ≠ [] then partStem name else none) = some part → part ∉ live →
        ((owner name (live ++ stems.filter (· ∉ live))).getD []).length < part.length →
        ∃ s, ownerOf live (stems.filter (· ∉ live)) true name = some s ∧ s ∉ live := by
      intro part hpart hlive hlen
      unfold ownerOf
      dsimp only
      rw [hpart]
      exact ⟨part, if_pos ⟨hlive, hlen⟩, hlive⟩
    rintro (⟨part, hpart, hne, ⟨s, hs⟩, hlive, hshort⟩ | ⟨s, hgone, hlive, hc, hshort⟩)
    · refine hpartOr part (by rw [if_pos ⟨rfl, List.ne_nil_of_mem hs⟩, hpart]) hlive ?_
      cases hown : owner name (live ++ stems.filter (· ∉ live)) with
      | none => exact List.length_pos_iff.2 hne
      | some r =>
        obtain ⟨hr, hrc, -⟩ := owner_eq_some.1 hown
        exact hshort r ((hmem r).1 hr) hrc
    · obtain ⟨r, hown⟩ : ∃ r, owner name (live ++ stems.filter (· ∉ live)) = some r :=
        Option.ne_none_iff_exists'.1 fun hnone => owner_eq_none.1 hnone s ((hmem s).2 (.inr hgone)) hc
      have hr : r ∉ live := by
        intro hr
        obtain ⟨-, hrc, hmax⟩ := owner_eq_some.1 hown
        exact absurd (hshort r hr hrc) (Nat.not_lt.2 (hmax s ((hmem s).2 (.inr hgone)) hc))
      cases hpart : if true = true ∧ live ≠ [] then partStem name else none with
      | none => exact ⟨r, hown, hr⟩
      | some part =>
        dsimp only
        split
        · rename_i hlong
          exact ⟨part, rfl, hlong.1⟩
        · exact ⟨r, hown, hr⟩

theorem mem_live {s : List Char} : s ∈ live t x ↔
    (∃ q, t.isFile q = true ∧ q.dir = x ∧ isStrm q.name = true ∧ stem q.name = s) ∨
      ∃ n, t.isDir (x ++ [n]) = true ∧ isStrm n = true ∧ stem n = s := by
  simp only [live, List.mem_map, List.mem_filter, List.mem_append, mem_subdirs, mem_paths, decide_eq_true_eq]
  constructor
  · rintro ⟨n, ⟨⟨q, ⟨hq, hd⟩, rfl⟩ | hn, hs⟩, rfl⟩
    · exact .inl ⟨q, hq, hd, hs, rfl⟩
    · exact .inr ⟨n, hn, hs, rfl⟩
  · rintro (⟨q, hq, hd, hs, rfl⟩ | ⟨n, hn, hs, rfl⟩)
    · exact ⟨q.name, ⟨.inl ⟨q, ⟨hq, hd⟩, rfl⟩, hs⟩, rfl⟩
    · exact ⟨n, ⟨.inr hn, hs⟩, rfl⟩

/-- What counts as live is a matter of the strms that are files and of the directories. -/
theorem live_congr (hfile : ∀ q, q.dir = x → isStrm q.name = true → t'.isFile q = t.isFile q)
    (hdir : ∀ n, isStrm n = true → t'.isDir (x ++ [n]) = t.isDir (x ++ [n])) : (· ∈ live t' x) = (· ∈ live t x) := by
  funext s
  simp only [mem_live, eq_iff_iff]
  refine or_congr (exists_congr fun q => ?_) (exists_congr fun n => ?_)
  · constructor
    · rintro ⟨hq, hd, hs, he⟩
      exact ⟨hfile q hd hs ▸ hq, hd, hs, he⟩
    · rintro ⟨hq, hd, hs, he⟩
      exact ⟨(hfile q hd hs).symm ▸ hq, hd, hs, he⟩
  · constructor
    · rintro ⟨hn, hs, he⟩
      exact ⟨hdir n hs ▸ hn, hs, he⟩
    · rintro ⟨hn, hs, he⟩
      exact ⟨(hdir n hs).symm ▸ hn, hs, he⟩

theorem mem_sidecars : p ∈ sidecars t x stems true ↔ t.isFile p = true ∧ p.dir = x ∧ isStrm p.name = false ∧
    Orphaned (· ∈ live t x) (· ∈ stems) p.name.toList := by
  unfold sidecars
  simp only [List.mem_filter, mem_paths, decide_eq_true_eq, Bool.and_eq_true, Bool.not_eq_true', Option.any_eq_true,
    and_assoc, orphaned_iff]

theorem within_deleteSidecars (directory : List String) (orphaned : Bool) : Within (deleteSidecars t directory stems orphaned) t :=
  within_foldl (fun _ p => within_unlink p) _ t

theorem isFile_deleteSidecars : (deleteSidecars t x stems true).isFile e = true ↔
    t.isFile e = true ∧ ¬ (e.dir = x ∧ isStrm e.name = false ∧ Orphaned (· ∈ live t x) (· ∈ stems) e.name.toList) := by
  rw [deleteSidecars, isFile_foldl_unlink, mem_sidecars]
  exact and_congr_right fun h => by simp [h]

theorem isDir_deleteSidecars (d : List String) : (deleteSidecars t x stems true).isDir d = t.isDir d :=
  isDir_foldl_unlink (fun _ hp => isDir_of_isFile (mem_sidecars.1 hp).1) d

theorem live_deleteSidecars (d : List String) : (· ∈ live (deleteSidecars t x stems true) d) = (· ∈ live t d) := by
  refine live_congr (fun q _ hs => ?_) fun _ _ => isDir_deleteSidecars _
  rw [Bool.eq_iff_iff, isFile_deleteSidecars]
  simp [hs]

/-- Nothing in the directory is left over from a strm that is gone. -/
def Tidy (t : Tree) (x : List String) : Prop :=
  ∀ e, t.isFile e = true → e.dir = x → isStrm e.name = false → ¬ Orphaned (· ∈ live t x) (fun _ => False) e.name.toList

theorem tidy_iff : Tidy t x ↔ sidecars t x [] true = [] := by
  rw [List.eq_nil_iff_forall_not_mem]
  simp only [mem_sidecars, List.not_mem_nil]
  exact forall_congr' fun e => ⟨fun h ⟨he, hd, hs, ho⟩ => h he hd hs ho, fun h he hd hs ho => h ⟨he, hd, hs, ho⟩⟩

/-! ## Empty directories -/

/-- Whatever is still a directory was one, and is below none that was gone through. -/
theorem isDir_rmtrees (ds : List (List String)) (hds : ∀ d ∈ ds, d ≠ []) :
    ∀ (t : Tree) (e : List String), e ≠ [] → (ds.foldl (fun t d => if t.isDir d then t.rmtree d else t) t).isDir e = true →
      t.isDir e = true ∧ ∀ d ∈ ds, ¬ d <+: e := by
  have hone : ∀ (t : Tree) (d e : List String), d ≠ [] → e ≠ [] → (if t.isDir d then t.rmtree d else t).isDir e = true →
      t.isDir e = true ∧ ¬ d <+: e := by
    intro t d e hd he h
    split at h
    · rename_i hdir
      rcases isDir_iff.1 h with rfl | ⟨d', hd', hpre⟩ | ⟨p, hp, hpre⟩
      · exact absurd rfl he
      · rcases List.mem_cons.1 hd' with rfl | hd'
        · refine ⟨isDir_above hdir (hpre.trans (List.dropLast_prefix d)), fun hde => ?_⟩
          have hlen := (hde.trans hpre).length_le
          rw [List.length_dropLast] at hlen
          have := List.length_pos_iff.2 hd
          omega
        · obtain ⟨hmem, hnot⟩ := List.mem_filter.1 hd'
          refine ⟨isDir_iff.2 (.inr (.inl ⟨d', hmem, hpre⟩)), fun hde => ?_⟩
          simp only [decide_not, Bool.not_eq_true', decide_eq_false_iff_not] at hnot
          exact hnot (hde.trans hpre)
      · refine ⟨isDir_iff.2 (.inr (.inr ⟨p, (within_rmtree d).isFile hp, hpre⟩)), fun hde => ?_⟩
        rw [isFile_eq, content_rmtree, if_pos (hde.trans hpre)] at hp
        cases hp
    · rename_i hdir
      exact ⟨h, fun hde => hdir (isDir_above h hde)⟩
  induction ds with
  | nil => exact fun t e _ h => ⟨h, fun d hd => absurd hd List.not_mem_nil⟩
  | cons d ds ih =>
    intro t e he h
    obtain ⟨hd, hds⟩ := List.forall_mem_cons.1 hds
    obtain ⟨hdir, hrest⟩ := ih hds _ e he h
    obtain ⟨hdir, hnot⟩ := hone t d e hd he hdir
    exact ⟨hdir, List.forall_mem_cons.2 ⟨hnot, hrest⟩⟩

theorem within_deleteEmptyDirs (t : Tree) : Within (deleteEmptyDirs t) t := by
  refine within_foldl (fun t d => ?_) _ t
  split
  · exact within_rmtree d
  · exact .refl t

/-- What is left covers every directory that is left. -/
theorem covered_of_isDir (h : (deleteEmptyDirs t).isDir d = true) : Covered t d := by
  by_cases hne : d = []
  · exact .inl hne
  have hds : ∀ e ∈ (emptyDirs t).mergeSort fun a b => b ≤ a, e ≠ [] := fun e he =>
    ne_nil_of_mem_allDirs (mem_emptyDirs.1 (List.mem_mergeSort.1 he)).1
  obtain ⟨hdir, hnot⟩ := isDir_rmtrees _ hds t d hne h
  by_contra hc
  refine hnot d (List.mem_mergeSort.2 (mem_emptyDirs.2 ⟨mem_allDirs.2 ⟨hne, hdir⟩, fun p hp hpre => hc (.inr ?_)⟩)) List.prefix_rfl
  exact ⟨p, (mem_glob.1 hp).1, (mem_glob.1 hp).2, hpre⟩

theorem isFile_deleteEmptyDirs (h : Covered t e.dir) : (deleteEmptyDirs t).isFile e = t.isFile e := by
  rw [isFile_eq, content_deleteEmptyDirs_of_covered h, isFile_eq]

theorem isDir_deleteEmptyDirs : (deleteEmptyDirs t).isDir x = true ↔ Covered t x := by
  refine ⟨covered_of_isDir, fun h => ?_⟩
  rcases h with rfl | ⟨p, hp, hm, hpre⟩
  · exact isDir_iff.2 (.inl rfl)
  · refine isDir_iff.2 (.inr (.inr ⟨p, ?_, hpre⟩))
    rw [isFile_deleteEmptyDirs (.inr ⟨p, hp, hm, List.prefix_rfl⟩)]
    exact hp

/-! ## The copies -/

variable {d d' d₁ d'' : Dest}

/-- The copy has what its source has, and the next walk leaves it alone. -/
def UpToDate (src : Tree) (d : Dest) (p q : StrmPath) : Prop :=
  ∃ file old, src.file p = some file ∧ d.tree.file q = some old ∧ old.content = file.content ∧ file.mtime ≤ old.mtime ∧
    (old = file ∨ (cmp d.memory p q file old).1 = true)

theorem UpToDate.of_eq (h : UpToDate src d p q) (hf : d'.tree.file q = d.tree.file q) (hm : d'.memory = d.memory) :
    UpToDate src d' p q := by
  obtain ⟨file, old, hfile, hold, hc, hle, hcmp⟩ := h
  exact ⟨file, old, hfile, hf.trans hold, hc, hle, hm ▸ hcmp⟩

theorem upToDate_updateOne (h : m.updateOne src d p = .ok d') (hfile : src.isFile p = true) (hmap : m.mapStrmPath p = some q)
    (hright : d'.tree.content q = src.content p) : UpToDate src d' p q := by
  cases updateOne_cases h with
  | idle hnone _ => simp [isFile, hnone q hmap] at hfile
  | @skipped q' file old hc hsame tree memory =>
    obtain ⟨hmap', hsrc, hold, hle⟩ := compared_eq_some.1 hc
    obtain rfl : q = q' := Option.some.inj (hmap.symm.trans hmap')
    have hcopy : d'.tree.file q = some old := by rw [tree, file_mkdir, hold]
    have heq : old.content = file.content := by simpa [content, hcopy, hsrc] using hright
    refine ⟨file, old, hsrc, hcopy, heq, hle, .inr ?_⟩
    rw [memory, remember, hc]
    exact cmp_still hsame heq fun _ => heq
  | @written q' file hmap' hsrc _ tree _ =>
    obtain rfl : q = q' := Option.some.inj (hmap.symm.trans hmap')
    exact ⟨file, file, hsrc, by rw [tree, file_write, if_pos rfl], rfl, le_rfl, .inl rfl⟩

/-- Another source that is brought up is nothing to it. -/
theorem UpToDate.updateOne {p' : StrmPath} (hup : UpToDate src d p q) (hmap : m.mapStrmPath p = some q) (hne : p ≠ p')
    (h : m.updateOne src d p' = .ok d') : UpToDate src d' p q := by
  obtain ⟨file, old, hfile, hold, heq, hle, hcmp⟩ := hup
  refine ⟨file, old, hfile, ?_, heq, hle, hcmp.imp_right fun hsame => ?_⟩
  · rw [file_updateOne h fun hmap' => absurd ((mapStrmPath_eq_some hmap).2.1.symm.trans (mapStrmPath_eq_some hmap').2.1) hne, hold]
  · rw [memory_updateOne h, remember]
    split
    · exact cmp_still hsame heq fun hp => absurd hp hne
    · exact hsame

theorem UpToDate.updateAll {ps : List StrmPath} (hup : UpToDate src d p q) (hmap : m.mapStrmPath p = some q) (hne : p ∉ ps)
    (h : ps.foldlM (m.updateOne src) d = .ok d') : UpToDate src d' p q := by
  induction ps generalizing d with
  | nil =>
    cases h
    exact hup
  | cons p' ps ih =>
    obtain ⟨hp', hps⟩ := not_or.1 (mt List.mem_cons.2 hne)
    obtain ⟨d₁, h₁, h⟩ := foldlM_cons_ok h
    exact ih (hup.updateOne hmap hp' h₁) hps h

/-- A walk that leaves every copy right leaves it up to date. -/
theorem upToDate_updateAll {ps : List StrmPath} (hnodup : ps.Nodup) (h : ps.foldlM (m.updateOne src) d = .ok d')
    (hright : ∀ p ∈ ps, ∀ q, m.mapStrmPath p = some q → src.isFile p = true → d'.tree.content q = src.content p) :
    ∀ p ∈ ps, ∀ q, m.mapStrmPath p = some q → src.isFile p = true → UpToDate src d' p q := by
  induction ps generalizing d with
  | nil => exact fun p hp => absurd hp List.not_mem_nil
  | cons p ps ih =>
    obtain ⟨hp, hnodup⟩ := List.nodup_cons.1 hnodup
    obtain ⟨hone, hright⟩ := List.forall_mem_cons.1 hright
    obtain ⟨d₁, h₁, h⟩ := foldlM_cons_ok h
    refine List.forall_mem_cons.2 ⟨fun q hmap hfile => ?_, ih hnodup h hright⟩
    refine (upToDate_updateOne h₁ hfile hmap ?_).updateAll hmap hp h
    rw [← hone q hmap hfile, content, content, file_updateAll h fun p' hp' hmap' => absurd hp' ?_]
    rwa [← (mapStrmPath_eq_some hmap').2.1, (mapStrmPath_eq_some hmap).2.1]

/-- The same files and the same directories. -/
structure Same (t' t : Tree) : Prop where
  files : t'.files = t.files
  dirs : ∀ x, t'.isDir x = t.isDir x

theorem Same.file (h : Same t' t) (q : StrmPath) : t'.file q = t.file q := by rw [Tree.file, h.files, Tree.file]

theorem Same.isFile (h : Same t' t) (q : StrmPath) : t'.isFile q = t.isFile q := by rw [Tree.isFile, h.file, Tree.isFile]

theorem Same.glob (h : Same t' t) : t'.glob = t.glob := by rw [Tree.glob, paths, h.files, Tree.glob, paths]

theorem Same.live (h : Same t' t) (x : List String) : (· ∈ live t' x) = (· ∈ live t x) :=
  live_congr (fun q _ _ => h.isFile q) fun _ _ => h.dirs _

/-- A copy that is up to date is left alone, or written as it is. -/
theorem same_updateOne (h : m.updateOne src d p = .ok d')
    (hup : ∀ q, m.mapStrmPath p = some q → src.isFile p = true → UpToDate src d p q) : Same d'.tree d.tree := by
  cases updateOne_cases h with
  | idle _ same => exact same ▸ ⟨rfl, fun _ => rfl⟩
  | skipped hc _ tree _ =>
    obtain ⟨-, -, hold, -⟩ := compared_eq_some.1 hc
    rw [tree]
    exact ⟨rfl, fun x => isDir_mkdir (by simp [Tree.isFile, hold])⟩
  | @written q file hmap hfile hdiffers tree _ =>
    obtain ⟨file', old, hfile', hold, -, hle, hcmp⟩ := hup q hmap (by simp [Tree.isFile, hfile])
    obtain rfl : file = file' := Option.some.inj (hfile.symm.trans hfile')
    have hsame : old = file := by
      refine hcmp.resolve_right fun hcmp => ?_
      rw [hdiffers old (compared_eq_some.2 ⟨hmap, hfile, hold, hle⟩)] at hcmp
      cases hcmp
    subst hsame
    obtain ⟨r, hr, hold⟩ := Option.map_eq_some_iff.1 hold
    obtain rfl : r = (q, old) := Prod.ext (Table.find_key hr) hold
    have hfiles : d'.tree.files = d.tree.files := by
      rw [tree]
      exact Table.put_eq_self hr
    refine ⟨hfiles, fun x => ?_⟩
    have hmkdir := isDir_mkdir (t := d.tree) (p := q) (d := x) (by simp [Tree.isFile, Tree.file, hr])
    rw [← hmkdir, isDir, isDir, hfiles, tree]
    rfl

theorem same_updateAll {ps : List StrmPath} (hnodup : ps.Nodup) (h : ps.foldlM (m.updateOne src) d = .ok d')
    (hup : ∀ p ∈ ps, ∀ q, m.mapStrmPath p = some q → src.isFile p = true → UpToDate src d p q) : Same d'.tree d.tree := by
  induction ps generalizing d with
  | nil =>
    cases h
    exact ⟨rfl, fun _ => rfl⟩
  | cons p ps ih =>
    obtain ⟨hp, hnodup⟩ := List.nodup_cons.1 hnodup
    obtain ⟨hone, hups⟩ := List.forall_mem_cons.1 hup
    obtain ⟨d₁, h₁, h⟩ := foldlM_cons_ok h
    have hfirst := same_updateOne h₁ hone
    have hrest := ih hnodup h fun p' hp' q hmap hfile =>
      (hups p' hp' q hmap hfile).updateOne hmap (fun he : p' = p => hp (he ▸ hp')) h₁
    exact ⟨hrest.files.trans hfirst.files, fun x => (hrest.dirs x).trans (hfirst.dirs x)⟩

theorem isDir_updateOne (h : m.updateOne src d p = .ok d') :
    d'.tree.isDir x = true ↔ d.tree.isDir x = true ∨ ∃ q, m.mapStrmPath p = some q ∧ src.isFile p = true ∧ x <+: q.dir := by
  cases updateOne_cases h with
  | idle hnone same =>
    rw [same]
    refine ⟨.inl, fun h => h.resolve_right ?_⟩
    rintro ⟨q, hmap, hfile, -⟩
    simp [Tree.isFile, hnone q hmap] at hfile
  | @skipped q file old hc _ tree _ =>
    obtain ⟨hmap, hfile, -, -⟩ := compared_eq_some.1 hc
    rw [tree, isDir_mkdir_iff, hmap]
    simp [Tree.isFile, hfile]
  | @written q file hmap hfile _ tree _ =>
    rw [tree, isDir_write_iff, isDir_mkdir_iff, hmap, or_assoc, or_self]
    simp [Tree.isFile, hfile]

theorem isDir_updateAll {ps : List StrmPath} (h : ps.foldlM (m.updateOne src) d = .ok d') :
    d'.tree.isDir x = true ↔
      d.tree.isDir x = true ∨ ∃ p ∈ ps, ∃ q, m.mapStrmPath p = some q ∧ src.isFile p = true ∧ x <+: q.dir := by
  induction ps generalizing d with
  | nil =>
    cases h
    simp
  | cons p ps ih =>
    obtain ⟨d₁, h₁, h⟩ := foldlM_cons_ok h
    rw [ih h, isDir_updateOne h₁, or_assoc]
    simp only [List.mem_cons, exists_eq_or_imp]

/-! ## Strays -/

/-- The metadata of the directories that had a strm, one after the other. -/
def sweep (deleted : List (List String × List Char)) (xs : List (List String)) (t : Tree) : Tree :=
  xs.foldl (fun t x => deleteSidecars t x ((deleted.filter (·.1 = x)).map (·.2)) true) t

section Sweep
variable {deleted : List (List String × List Char)} {xs : List (List String)}

theorem isDir_sweep (y : List String) : (sweep deleted xs t).isDir y = t.isDir y := by
  induction xs generalizing t with
  | nil => rfl
  | cons x xs ih => exact (ih (t := deleteSidecars t x _ true)).trans (isDir_deleteSidecars y)

theorem live_sweep (y : List String) : (· ∈ live (sweep deleted xs t) y) = (· ∈ live t y) := by
  induction xs generalizing t with
  | nil => rfl
  | cons x xs ih => exact (ih (t := deleteSidecars t x _ true)).trans (live_deleteSidecars y)

/-- What is orphaned as the strms of the directory were before. -/
theorem isFile_sweep : (sweep deleted xs t).isFile e = true ↔ t.isFile e = true ∧ ¬ (e.dir ∈ xs ∧ isStrm e.name = false ∧
    Orphaned (· ∈ live t e.dir) (fun s => (e.dir, s) ∈ deleted) e.name.toList) := by
  induction xs generalizing t with
  | nil => simp [sweep]
  | cons x xs ih =>
    have hone : (deleteSidecars t x ((deleted.filter (·.1 = x)).map (·.2)) true).isFile e = true ↔ _ := isFile_deleteSidecars
    have hrest := ih (t := deleteSidecars t x ((deleted.filter (·.1 = x)).map (·.2)) true)
    rw [live_deleteSidecars, hone] at hrest
    refine hrest.trans ?_
    have hstems : ∀ y, y = x → (· ∈ (deleted.filter (·.1 = x)).map (·.2)) = fun s => (y, s) ∈ deleted := by
      rintro _ rfl
      funext s
      simp
    by_cases hx : e.dir = x
    · rw [hstems _ hx]
      simp only [hx, List.mem_cons, true_and, true_or]
      tauto
    · simp only [hx, List.mem_cons, false_and, not_false_eq_true, and_true, false_or]

end Sweep

/-- The strms go first, then the metadata. -/
theorem deleteStrays_eq_sweep (src t : Tree) : m.deleteStrays src t =
    sweep (t.glob.foldl (m.deleteStray src) (t, [])).2 (t.glob.map (·.dir)).eraseDups (t.glob.foldl (m.deleteStray src) (t, [])).1 := rfl

theorem within_deleteStrays (src t : Tree) : Within (m.deleteStrays src t) t := by
  have hstray : ∀ (ps : List StrmPath) (acc : Tree × List (List String × List Char)),
      Within (ps.foldl (m.deleteStray src) acc).1 acc.1 := by
    intro ps
    induction ps with
    | nil => exact fun acc => .refl acc.1
    | cons p ps ih =>
      refine fun acc => (ih _).trans ?_
      unfold deleteStray
      split
      · exact within_unlink p
      · exact .refl acc.1
  exact (within_foldl (fun t x => within_deleteSidecars x true) _ _).trans (hstray t.glob (t, []))

theorem deleted_strays {ps : List StrmPath} (acc : Tree × List (List String × List Char))
    (hps : ∀ p ∈ ps, matchesStrm p.name = true) (hI : m.Mirrored src acc.1) :
    (ps.foldl (m.deleteStray src) acc).2 = acc.2 ++ (ps.filter (m.stray src)).map fun p => (p.dir, stem p.name) := by
  induction ps generalizing acc with
  | nil => simp
  | cons p ps ih =>
    have hmatch := hps p List.mem_cons_self
    rw [List.foldl_cons, ih _ (fun p hp => hps p (List.mem_cons_of_mem _ hp)) (mirrored_deleteStray acc hmatch hI)]
    unfold deleteStray
    rw [stray_eq hmatch hI]
    by_cases hs : m.stray src p = true
    · simp [hs]
    · simp [hs]

theorem isDir_strays {ps : List StrmPath} (acc : Tree × List (List String × List Char))
    (hps : ∀ p ∈ ps, acc.1.isDir p.dir = true) : (ps.foldl (m.deleteStray src) acc).1.isDir x = acc.1.isDir x := by
  induction ps generalizing acc with
  | nil => rfl
  | cons p ps ih =>
    obtain ⟨hp, hps⟩ := List.forall_mem_cons.1 hps
    have hone : ∀ y, (m.deleteStray src acc p).1.isDir y = acc.1.isDir y := by
      intro y
      unfold deleteStray
      split
      · exact isDir_unlink hp y
      · rfl
    rw [List.foldl_cons, ih _ fun p' hp' => (hone _).trans (hps p' hp'), hone]

theorem isDir_deleteStrays : (m.deleteStrays src t).isDir x = t.isDir x := by
  rw [deleteStrays_eq_sweep, isDir_sweep, isDir_strays (t, []) fun p hp => isDir_of_isFile (mem_glob.1 hp).1]

/-- What is left of a file that is no strm. -/
theorem isFile_deleteStrays (hI : m.Mirrored src t) (hm : matchesStrm e.name = false) (hs : isStrm e.name = false)
    (hdir : e.dir ∈ t.glob.map (·.dir)) :
    (m.deleteStrays src t).isFile e = true ↔ t.isFile e = true ∧ ¬ Orphaned (· ∈ live (m.deleteStrays src t) e.dir)
      (fun s => ∃ q ∈ t.glob, q.dir = e.dir ∧ stem q.name = s ∧ m.stray src q = true) e.name.toList := by
  have hps : ∀ p ∈ t.glob, matchesStrm p.name = true := fun p hp => (mem_glob.1 hp).2
  have hfile : (t.glob.foldl (m.deleteStray src) (t, [])).1.isFile e = t.isFile e := by
    rw [isFile_eq, content_strays (t, []) hps hI, if_neg fun h => by simp [hps e h.1] at hm, isFile_eq]
  have hgone : (fun s => (e.dir, s) ∈ (t.glob.foldl (m.deleteStray src) (t, [])).2) =
      fun s => ∃ q ∈ t.glob, q.dir = e.dir ∧ stem q.name = s ∧ m.stray src q = true := by
    funext s
    rw [deleted_strays (t, []) hps hI]
    simp only [List.nil_append, List.mem_map, List.mem_filter, Prod.mk.injEq, eq_iff_iff]
    exact exists_congr fun q => ⟨fun ⟨⟨hq, hs⟩, hd, he⟩ => ⟨hq, hd, he, hs⟩, fun ⟨hq, hd, he, hs⟩ => ⟨⟨hq, hs⟩, hd, he⟩⟩
  rw [deleteStrays_eq_sweep, isFile_sweep, live_sweep, hfile, hgone, List.mem_eraseDups]
  simp only [hdir, hs, true_and]

/-- Where no copy is a stray, only metadata is deleted. -/
theorem strays_eq_self (hI : m.Mirrored src t) (hstray : ∀ q ∈ t.glob, m.stray src q = false) :
    t.glob.foldl (m.deleteStray src) (t, []) = (t, []) := by
  have hnone : ∀ ps : List StrmPath, (∀ q ∈ ps, q ∈ t.glob) → ps.foldl (m.deleteStray src) (t, []) = (t, []) := by
    intro ps
    induction ps with
    | nil => exact fun _ => rfl
    | cons p ps ih =>
      intro hps
      obtain ⟨hp, hps⟩ := List.forall_mem_cons.1 hps
      have hone : m.deleteStray src (t, []) p = (t, []) := by
        unfold deleteStray
        rw [stray_eq (mem_glob.1 hp).2 hI, if_neg (by simp [hstray p hp])]
      rw [List.foldl_cons, hone, ih hps]
  exact hnone t.glob fun _ h => h

/-- Where no copy is a stray and no metadata is left over, nothing is deleted. -/
theorem deleteStrays_eq (hI : m.Mirrored src t) (hstray : ∀ q ∈ t.glob, m.stray src q = false)
    (htidy : ∀ q ∈ t.glob, Tidy t q.dir) : m.deleteStrays src t = t := by
  have hloop : ∀ xs : List (List String), (∀ x ∈ xs, Tidy t x) → sweep [] xs t = t := by
    intro xs
    induction xs with
    | nil => exact fun _ => rfl
    | cons x xs ih =>
      intro hxs
      obtain ⟨hx, hxs⟩ := List.forall_mem_cons.1 hxs
      have hone : deleteSidecars t x [] true = t := by
        unfold deleteSidecars
        rw [tidy_iff.1 hx]
        rfl
      change sweep [] xs (deleteSidecars t x [] true) = t
      rw [hone, ih hxs]
  rw [deleteStrays_eq_sweep, strays_eq_self hI hstray]
  refine hloop _ fun x hx => ?_
  obtain ⟨q, hq, rfl⟩ := List.mem_map.1 (List.mem_eraseDups.1 hx)
  exact htidy q hq

theorem deleteEmptyDirs_eq (h : ∀ x, t.isDir x = true → Covered t x) : deleteEmptyDirs t = t := by
  have hnone : emptyDirs t = [] := by
    refine List.eq_nil_iff_forall_not_mem.2 fun x hx => ?_
    obtain ⟨hall, hempty⟩ := mem_emptyDirs.1 hx
    obtain ⟨hne, hdir⟩ := mem_allDirs.1 hall
    rcases h x hdir with rfl | ⟨p, hp, hm, hpre⟩
    · exact hne rfl
    · exact hempty p (mem_glob.2 ⟨hp, hm⟩) hpre
  rw [deleteEmptyDirs, hnone, List.mergeSort_nil]
  rfl


/-! ## The full run -/

/-- A strm that stays, where its directory keeps one that the walks find. -/
def Stays (m : MappingPipeline) (src dst : Tree) (q : StrmPath) : Prop :=
  if matchesStrm q.name then (m.mirrored src dst q).isSome = true else dst.isFile q = true

/-- The strms of a directory after a full run: files that stay, and directories that are spelled like a strm. -/
def LiveAfter (m : MappingPipeline) (src dst : Tree) (x : List String) (s : List Char) : Prop :=
  (∃ q, q.dir = x ∧ isStrm q.name = true ∧ stem q.name = s ∧ m.Stays src dst q) ∨
    ∃ n, isStrm n = true ∧ stem n = s ∧ m.WillCover src dst (x ++ [n])

/-- And while it goes through the metadata, when no directory is deleted yet. -/
def LiveDuring (m : MappingPipeline) (src dst : Tree) (x : List String) (s : List Char) : Prop :=
  m.LiveAfter src dst x s ∨ ∃ n, isStrm n = true ∧ stem n = s ∧ dst.isDir (x ++ [n]) = true

/-- The strms that it deletes from a directory. -/
def GoneFrom (m : MappingPipeline) (src dst : Tree) (x : List String) (s : List Char) : Prop :=
  ∃ q, q.dir = x ∧ stem q.name = s ∧ matchesStrm q.name = true ∧ dst.isFile q = true ∧ m.stray src q = true

/-- Metadata of a part that has no strm, which a directory that is spelled like one keeps until the run deletes it. -/
def Shielded (m : MappingPipeline) (src dst : Tree) (e : StrmPath) : Prop :=
  Orphaned (m.LiveAfter src dst e.dir) (fun _ => False) e.name.toList ∧
    ¬ Orphaned (m.LiveDuring src dst e.dir) (m.GoneFrom src dst e.dir) e.name.toList

/-- No directory that keeps a strm has such metadata. -/
def Unshielded (m : MappingPipeline) (src dst : Tree) : Prop :=
  ∀ e, dst.isFile e = true → isStrm e.name = false →
    (∃ q, q.dir = e.dir ∧ matchesStrm q.name = true ∧ (m.mirrored src dst q).isSome = true) → ¬ m.Shielded src dst e

section Walk
variable (htold : m.Told src d.tree d.memory src.glob) (hall : src.glob.foldlM (m.updateOne src) d = .ok d₁)
include htold hall

theorem isFile_walk (hs : isStrm q.name = true) : (m.deleteStrays src d₁.tree).isFile q = true ↔ m.Stays src d.tree q := by
  obtain ⟨hmatches, hothers⟩ := content_walk_strays htold hall
  unfold Stays
  cases hm : matchesStrm q.name with
  | true =>
    rw [isFile_eq, hmatches q hm]
    simp
  | false =>
    rw [isFile_eq, hothers q (by simp [odd, hs, hm]), ← isFile_eq]
    simp

theorem covered_walk : Covered (m.deleteStrays src d₁.tree) x ↔ m.WillCover src d.tree x := by
  have hmatches := (content_walk_strays htold hall).1
  refine or_congr .rfl (exists_congr fun p => ?_)
  constructor
  · rintro ⟨hp, hm, hd⟩
    rw [isFile_eq, hmatches p hm] at hp
    exact ⟨hp, hm, hd⟩
  · rintro ⟨hp, hm, hd⟩
    rw [← hmatches p hm, ← isFile_eq] at hp
    exact ⟨hp, hm, hd⟩

/-- The walk makes no directory but for the copies that stay. -/
theorem isDir_walk : (m.deleteStrays src d₁.tree).isDir x = true ↔ d.tree.isDir x = true ∨ m.WillCover src d.tree x := by
  rw [isDir_deleteStrays, isDir_updateAll hall]
  constructor
  · rintro (hdir | ⟨p, hp, q, hmap, hfile, hpre⟩)
    · exact .inl hdir
    · obtain ⟨-, rfl, hname⟩ := mapStrmPath_eq_some hmap
      refine .inr (.inr ⟨q, ?_, hname ▸ (mem_glob.1 hp).2, hpre⟩)
      rw [mirrored, if_pos hfile, hmap]
      simpa [← isFile_eq] using hfile
  · rintro (hdir | hcover)
    · exact .inl hdir
    · have hstrays : (m.deleteStrays src d₁.tree).isDir x = d₁.tree.isDir x := isDir_deleteStrays
      rw [← isDir_updateAll hall, ← hstrays]
      rcases (covered_walk htold hall).2 hcover with rfl | ⟨p, hp, -, hpre⟩
      · exact isDir_iff.2 (.inl rfl)
      · exact isDir_iff.2 (.inr (.inr ⟨p, hp, hpre⟩))

theorem live_walk : (· ∈ live (m.deleteStrays src d₁.tree) x) = m.LiveDuring src d.tree x := by
  funext s
  simp only [mem_live, isDir_walk htold hall, LiveDuring, LiveAfter, eq_iff_iff]
  constructor
  · rintro (⟨q, hq, hd, hs, he⟩ | ⟨n, hdir | hcover, hs, he⟩)
    · exact .inl (.inl ⟨q, hd, hs, he, (isFile_walk htold hall hs).1 hq⟩)
    · exact .inr ⟨n, hs, he, hdir⟩
    · exact .inl (.inr ⟨n, hs, he, hcover⟩)
  · rintro ((⟨q, hd, hs, he, hq⟩ | ⟨n, hs, he, hcover⟩) | ⟨n, hs, he, hdir⟩)
    · exact .inl ⟨q, (isFile_walk htold hall hs).2 hq, hd, hs, he⟩
    · exact .inr ⟨n, .inr hcover, hs, he⟩
    · exact .inr ⟨n, .inl hdir, hs, he⟩

theorem live_full (hx : Covered (m.deleteStrays src d₁.tree) x) :
    (· ∈ live (deleteEmptyDirs (m.deleteStrays src d₁.tree)) x) = m.LiveAfter src d.tree x := by
  funext s
  simp only [mem_live, isDir_deleteEmptyDirs, covered_walk htold hall, LiveAfter, eq_iff_iff]
  refine or_congr (exists_congr fun q => ?_) (exists_congr fun n => ?_)
  · constructor
    · rintro ⟨hq, rfl, hs, he⟩
      rw [isFile_deleteEmptyDirs hx, isFile_walk htold hall hs] at hq
      exact ⟨rfl, hs, he, hq⟩
    · rintro ⟨rfl, hs, he, hq⟩
      rw [isFile_deleteEmptyDirs hx, isFile_walk htold hall hs]
      exact ⟨hq, rfl, hs, he⟩
  · exact ⟨fun ⟨hc, hs, he⟩ => ⟨hs, he, hc⟩, fun ⟨hs, he, hc⟩ => ⟨hc, hs, he⟩⟩

theorem gone_walk : (fun s => ∃ q ∈ d₁.tree.glob, q.dir = x ∧ stem q.name = s ∧ m.stray src q = true) = m.GoneFrom src d.tree x := by
  have hstray : ∀ q, m.stray src q = true → d₁.tree.isFile q = d.tree.isFile q := by
    intro q hq
    rw [isFile_eq, content_updateAll (nodup_glob src) htold hall, brought, if_neg, ← isFile_eq]
    rintro ⟨-, hmap, hsrc⟩
    simp [stray, hsrc, hmap] at hq
  funext s
  simp only [GoneFrom, mem_glob, eq_iff_iff]
  refine exists_congr fun q => ?_
  constructor
  · rintro ⟨⟨hq, hm⟩, hd, he, hs⟩
    exact ⟨hd, he, hm, (hstray q hs).symm.trans hq, hs⟩
  · rintro ⟨hd, he, hm, hq, hs⟩
    exact ⟨⟨(hstray q hs).trans hq, hm⟩, hd, he, hs⟩

omit htold in
/-- A file that is no strm is written by no walk. -/
theorem isFile_other_walk (hs : isStrm e.name = false) : d₁.tree.isFile e = d.tree.isFile e := by
  rw [Tree.isFile, file_updateAll hall fun p _ hmap => ?_, Tree.isFile]
  obtain ⟨hp, -, hname⟩ := mapStrmPath_eq_some hmap
  rw [hname, hp] at hs
  cases hs

/-- Which directories a full run leaves tidy. -/
theorem tidy_full (hq : (m.deleteStrays src d₁.tree).isFile q = true) (hm : matchesStrm q.name = true) (hx : q.dir = x) :
    Tidy (deleteEmptyDirs (m.deleteStrays src d₁.tree)) x ↔
      ∀ e, d.tree.isFile e = true → e.dir = x → isStrm e.name = false → ¬ m.Shielded src d.tree e := by
  have hcovered : Covered (m.deleteStrays src d₁.tree) x := .inr ⟨q, hq, hm, by rw [hx]⟩
  have hkey : x ∈ d₁.tree.glob.map (·.dir) :=
    List.mem_map.2 ⟨q, mem_glob.2 ⟨(within_deleteStrays src d₁.tree).isFile hq, hm⟩, hx⟩
  have hname : ∀ {e : StrmPath}, Orphaned (m.LiveAfter src d.tree x) (fun _ => False) e.name.toList → isStrm e.name = false →
      matchesStrm e.name = false := by
    rintro e (⟨part, hpart, -⟩ | ⟨s, hs, -⟩) hstrm
    · by_contra hme
      rw [stem_of_not_isStrm (by simpa using hme) hstrm, partStem_dotStrm] at hpart
      cases hpart
    · exact hs.elim
  have hfile : ∀ {e : StrmPath}, e.dir = x → matchesStrm e.name = false → isStrm e.name = false →
      ((deleteEmptyDirs (m.deleteStrays src d₁.tree)).isFile e = true ↔ d.tree.isFile e = true ∧
        ¬ Orphaned (m.LiveDuring src d.tree e.dir) (m.GoneFrom src d.tree e.dir) e.name.toList) := by
    rintro e rfl hme hs
    rw [isFile_deleteEmptyDirs hcovered, isFile_deleteStrays (mirrored_walk htold hall) hme hs hkey, isFile_other_walk hall hs,
      live_walk htold hall, gone_walk htold hall]
  unfold Tidy
  rw [live_full htold hall hcovered]
  refine forall_congr' fun e => ?_
  constructor
  · rintro h he rfl hs ⟨hafter, hduring⟩
    exact h ((hfile rfl (hname hafter hs) hs).2 ⟨he, hduring⟩) rfl hs hafter
  · rintro h he rfl hs hafter
    obtain ⟨he, hduring⟩ := (hfile rfl (hname hafter hs) hs).1 he
    exact h he rfl hs ⟨hafter, hduring⟩

end Walk

/-- What a full run leaves of the copies, and that each is where its source maps to. -/
theorem mirrored_runFull (htold : m.Told src d.tree d.memory src.glob) (h : m.runFull src d = .ok d') :
    (∀ p q, src.isFile p = true → matchesStrm p.name = true → m.mapStrmPath p = some q → d'.tree.content q = src.content p) ∧
      ∀ q, d'.tree.isFile q = true → matchesStrm q.name = true → src.isFile (sourceOf q) = true ∧
        (m.mapStrmPath (sourceOf q) = some q ∨ m.mapStrmPath (sourceOf q) = none) := by
  obtain ⟨hmatches, -⟩ := content_runFull htold h
  refine ⟨fun p q hp hm hmap => ?_, fun q hq hm => ?_⟩
  · obtain ⟨-, rfl, hname⟩ := mapStrmPath_eq_some hmap
    rw [hmatches q (by rw [hname]; exact hm), mirrored, if_pos hp, hmap]
    simp
  · have hsome : (m.mirrored src d.tree q).isSome = true := by rw [← hmatches q hm, ← isFile_eq]; exact hq
    unfold mirrored at hsome
    split at hsome
    · rename_i hsrc
      refine ⟨hsrc, ?_⟩
      cases hmap : m.mapStrmPath (sourceOf q) with
      | none => exact .inr rfl
      | some q' =>
        rw [hmap] at hsome
        dsimp only at hsome
        by_cases hqq : q' = q
        · exact .inl (congrArg some hqq)
        · rw [if_neg hqq] at hsome
          cases hsome
    · cases hsome

theorem covered_runFull_isDir (h : m.runFull src d = .ok d') (hx : d'.tree.isDir x = true) : Covered d'.tree x := by
  obtain ⟨d₁, -, htree, -⟩ := runFull_ok h
  rw [htree] at hx ⊢
  have hc := isDir_deleteEmptyDirs.1 hx
  refine (covered_congr fun p hm => ?_).2 hc
  cases hfile : (m.deleteStrays src d₁.tree).isFile p with
  | true => exact content_deleteEmptyDirs_of_covered (.inr ⟨p, hfile, hm, List.prefix_rfl⟩)
  | false =>
    refine (content_eq_none.2 (Bool.eq_false_iff.2 fun hp => ?_)).trans (content_eq_none.2 hfile).symm
    rw [(within_deleteEmptyDirs _).isFile hp] at hfile
    cases hfile

/-- The walk of a second run changes nothing, and finds no stray. -/
theorem second_walk {d₂ : Dest} (htold : m.Told src d.tree d.memory src.glob) (h : m.runFull src d = .ok d')
    (hagain : src.glob.foldlM (m.updateOne src) d' = .ok d₂) :
    Same d₂.tree d'.tree ∧ m.Mirrored src d₂.tree ∧ ∀ q ∈ d₂.tree.glob, m.stray src q = false := by
  obtain ⟨hcopies, hleft⟩ := mirrored_runFull htold h
  obtain ⟨d₁, hall, htree, hmemory⟩ := runFull_ok h
  have hwithin : Within d'.tree d₁.tree := htree ▸ (within_deleteEmptyDirs _).trans (within_deleteStrays src d₁.tree)
  have hthere : ∀ p q, src.isFile p = true → matchesStrm p.name = true → m.mapStrmPath p = some q → d'.tree.isFile q = true := by
    intro p q hp hm hmap
    rw [isFile_eq, hcopies p q hp hm hmap, ← isFile_eq]
    exact hp
  have hsame : Same d₂.tree d'.tree := by
    refine same_updateAll (nodup_glob src) hagain fun p hp q hmap hfile => ?_
    have hup := upToDate_updateAll (nodup_glob src) hall ((told_iff (nodup_glob src) hall).1 htold) p hp q hmap hfile
    exact hup.of_eq (hwithin q (hthere p q hfile (mem_glob.1 hp).2 hmap)) hmemory
  refine ⟨hsame, fun p q hp hm hmap => ?_, fun q hq => ?_⟩
  · rw [hsame.isFile]
    exact hthere p q hp hm hmap
  · rw [hsame.glob, mem_glob] at hq
    obtain ⟨hsrc, hmap⟩ := hleft q hq.1 hq.2
    rcases hmap with hmap | hmap <;> simp [stray, hsrc, hmap]

theorem Same.tidy (h : Same t' t) : Tidy t' x ↔ Tidy t x := by
  unfold Tidy
  rw [h.live]
  exact forall_congr' fun e => by rw [h.isFile]

/-- A second run changes nothing exactly when the first has left the directories tidy. -/
theorem settled_iff (htold : m.Told src d.tree d.memory src.glob) (h : m.runFull src d = .ok d') (hagain : m.runFull src d' = .ok d'') :
    ((∀ q, d''.tree.file q = d'.tree.file q) ∧ ∀ x, d''.tree.isDir x = d'.tree.isDir x) ↔ ∀ q ∈ d'.tree.glob, Tidy d'.tree q.dir := by
  obtain ⟨d₂, hall₂, htree₂, -⟩ := runFull_ok hagain
  obtain ⟨hsame, hI, hstray⟩ := second_walk htold h hall₂
  constructor
  · rintro ⟨hfiles, -⟩ q hq e he hdir hs horphan
    have hkey : e.dir ∈ (d₂.tree.glob.map (·.dir)).eraseDups := by
      rw [hsame.glob, List.mem_eraseDups, hdir]
      exact List.mem_map_of_mem hq
    have hgone : (m.deleteStrays src d₂.tree).isFile e ≠ true := by
      rw [deleteStrays_eq_sweep, strays_eq_self hI hstray, Ne, isFile_sweep, hsame.live]
      refine fun hfile => hfile.2 ⟨hkey, hs, ?_⟩
      rw [hdir]
      simpa using horphan
    refine hgone ((within_deleteEmptyDirs _).isFile ?_)
    rw [← htree₂, Tree.isFile, hfiles, ← Tree.isFile]
    exact he
  · intro htidy
    have hstrays : m.deleteStrays src d₂.tree = d₂.tree := by
      refine deleteStrays_eq hI hstray fun q hq => hsame.tidy.2 (htidy q ?_)
      rwa [← hsame.glob]
    have hdirs : ∀ x, d₂.tree.isDir x = true → Covered d₂.tree x := by
      intro x hx
      rw [hsame.dirs] at hx
      refine (covered_congr fun p _ => ?_).2 (covered_runFull_isDir h hx)
      rw [content, hsame.file p, content]
    rw [htree₂, hstrays, deleteEmptyDirs_eq hdirs]
    exact ⟨hsame.file, hsame.dirs⟩

/-- The directories are left tidy exactly when no directory shields metadata. -/
theorem tidy_runFull_iff (htold : m.Told src d.tree d.memory src.glob) (h : m.runFull src d = .ok d') :
    (∀ q ∈ d'.tree.glob, Tidy d'.tree q.dir) ↔ m.Unshielded src d.tree := by
  obtain ⟨d₁, hall, htree, -⟩ := runFull_ok h
  have hmirrored := (content_runFull htold h).1
  have hwithin : Within d'.tree (m.deleteStrays src d₁.tree) := htree ▸ within_deleteEmptyDirs _
  have htidy : ∀ {q x}, d'.tree.isFile q = true → matchesStrm q.name = true → q.dir = x → (Tidy d'.tree x ↔
      ∀ e, d.tree.isFile e = true → e.dir = x → isStrm e.name = false → ¬ m.Shielded src d.tree e) := by
    intro q x hq hm hx
    rw [htree]
    exact tidy_full htold hall (hwithin.isFile hq) hm hx
  constructor
  · rintro htidies e he hs ⟨q, hdir, hm, hq⟩
    rw [← hmirrored q hm, ← isFile_eq] at hq
    exact (htidy hq hm hdir).1 (hdir ▸ htidies q (mem_glob.2 ⟨hq, hm⟩)) e he rfl hs
  · intro hshield q hq
    obtain ⟨hq, hm⟩ := mem_glob.1 hq
    refine (htidy hq hm rfl).2 fun e he hdir hs => hshield e he hs ⟨q, hdir.symm, hm, ?_⟩
    rw [← hmirrored q hm, ← isFile_eq]
    exact hq

/-- That `t` is the mirror of the sources, and `t'`, which a second run makes of it, no other. -/
structure Mirrors (m : MappingPipeline) (src t t' : Tree) : Prop where
  /-- Every source the walk finds has its copy. -/
  copied : ∀ p q, src.isFile p = true → matchesStrm p.name = true → m.mapStrmPath p = some q → t.content q = src.content p
  /-- Every strm has its source, and is where that maps to. -/
  sourced : ∀ q, t.isFile q = true → matchesStrm q.name = true → src.isFile (sourceOf q) = true ∧
    (m.mapStrmPath (sourceOf q) = some q ∨ m.mapStrmPath (sourceOf q) = none)
  /-- No directory is without a strm. -/
  covered : ∀ x, t.isDir x = true → x ≠ [] → ∃ p, t.isFile p = true ∧ matchesStrm p.name = true ∧ x <+: p.dir
  settled : (∀ q, t'.file q = t.file q) ∧ ∀ x, t'.isDir x = t.isDir x

/-- A full run leaves the mirror, and a second one changes nothing, exactly when no comparison of the walk is
answered `equal` for files that differ, and no directory that is spelled like a strm shields metadata. -/
theorem full_run_mirrors_iff (h : m.runFull src d = .ok d') (hagain : m.runFull src d' = .ok d'') :
    m.Mirrors src d'.tree d''.tree ↔ m.Told src d.tree d.memory src.glob ∧ m.Unshielded src d.tree := by
  constructor
  · intro hm
    obtain ⟨d₁, hall, htree, -⟩ := runFull_ok h
    have hwithin : Within d'.tree d₁.tree := htree ▸ (within_deleteEmptyDirs _).trans (within_deleteStrays src d₁.tree)
    have htold : m.Told src d.tree d.memory src.glob := by
      refine (told_iff (nodup_glob src) hall).2 fun p hp q hmap hfile => ?_
      have hcopied := hm.copied p q hfile (mem_glob.1 hp).2 hmap
      have hq : d'.tree.isFile q = true := by
        rw [isFile_eq, hcopied, ← isFile_eq]
        exact hfile
      rw [← hcopied, content, content, hwithin q hq]
    exact ⟨htold, (tidy_runFull_iff htold h).1 ((settled_iff htold h hagain).1 hm.settled)⟩
  · rintro ⟨htold, hshield⟩
    obtain ⟨hcopies, hleft⟩ := mirrored_runFull htold h
    exact ⟨hcopies, hleft, fun x hx hne => (covered_runFull_isDir h hx).resolve_left hne,
      (settled_iff htold h hagain).2 ((tidy_runFull_iff htold h).2 hshield)⟩

/-- Without a directory that is spelled like a strm, nothing is shielded. -/
theorem unshielded_of_dirs (h : ∀ x ∈ dst.dirs ++ dst.paths.map (·.dir), ∀ n ∈ x, isStrm n = false) : m.Unshielded src dst := by
  have hduring : ∀ x, m.LiveDuring src dst x = m.LiveAfter src dst x := by
    intro x
    funext s
    simp only [LiveDuring, eq_iff_iff, or_iff_left_iff_imp]
    rintro ⟨n, hs, -, hdir⟩
    obtain ⟨y, hy, hpre⟩ : ∃ y ∈ dst.dirs ++ dst.paths.map (·.dir), x ++ [n] <+: y := by
      simpa only [subdirs, List.mem_filterMap, prefix_snoc_iff] using mem_subdirs.2 hdir
    rw [h y hy n (hpre.subset (by simp))] at hs
    cases hs
  rintro e - - - ⟨⟨part, hpart, hne, hlive, hnot, hshort⟩ | ⟨s, hs, -⟩, hduring'⟩
  · refine hduring' ?_
    rw [hduring]
    by_cases hgone : ∃ s, m.GoneFrom src dst e.dir s ∧ ¬ m.LiveAfter src dst e.dir s ∧ Claims e.name.toList s ∧ part.length ≤ s.length
    · obtain ⟨s, hs, hdead, hc, hlong⟩ := hgone
      exact .inr ⟨s, hs, hdead, hc, fun s' hs' hc' => (hshort s' (.inl hs') hc').trans_le hlong⟩
    · refine .inl ⟨part, hpart, hne, hlive, hnot, fun s hs hc => ?_⟩
      rcases hs with hs | hs
      · exact hshort s (.inl hs) hc
      · by_cases hdead : m.LiveAfter src dst e.dir s
        · exact hshort s (.inl hdead) hc
        · exact Nat.lt_of_not_le fun hlong => hgone ⟨s, hs, hdead, hc, hlong⟩
  · exact hs

/-- A copy that is out of date, metadata of a part that is gone, and a title without its source. -/
def cluttered : Tree :=
  ((Tree.empty.write ⟨["jav", "ABC-001"], "ABC-001.strm"⟩ ⟨"a", 3⟩).write ⟨["jav", "ABC-001"], "ABC-001-cd2.nfo"⟩ ⟨"", 1⟩).write
    ⟨["jav", "ABC-009"], "ABC-009.strm"⟩ ⟨"c", 1⟩

/-- The process remembers a comparison with what the copy was before. -/
def compareds : Memory := Table.empty.put (⟨⟨["jav"], "ABC-001.strm"⟩, ⟨["jav", "ABC-001"], "ABC-001.strm"⟩, (1, 2), (1, 2)⟩, true)

/-- What the full run makes of it. -/
def tidied : Dest := result (oneBrand.runFull second ⟨cluttered, compareds⟩)

example : tidied.tree.paths = [⟨["jav", "ABC-001"], "ABC-001.strm"⟩, ⟨["jav", "ABC-002"], "ABC-002.strm"⟩] := by with_unfolding_all decide

theorem full_run_mirrors_cluttered : oneBrand.Mirrors second tidied.tree (result (oneBrand.runFull second tidied)).tree :=
  (full_run_mirrors_iff (d := ⟨cluttered, compareds⟩) (eq_ok_result (by with_unfolding_all decide))
    (eq_ok_result (by with_unfolding_all decide))).2
      ⟨(honest_of_rows (by with_unfolding_all decide)).told _, unshielded_of_dirs (by with_unfolding_all decide)⟩

/-- One part of a title, metadata of another, and a directory that is named like that other part's strm. -/
def shielding : Tree :=
  ((Tree.empty.write ⟨["jav", "ABC-123"], "ABC-123-cd1.strm"⟩ ⟨"a", 1⟩).write ⟨["jav", "ABC-123"], "ABC-123-cd4.nfo"⟩ ⟨"", 1⟩).mkdir
    ["jav", "ABC-123", "ABC-123-cd4.STRM"]

def onePart : Tree := Tree.empty.write ⟨["jav"], "ABC-123-cd1.strm"⟩ ⟨"a", 1⟩

def shielded : Dest := result (oneBrand.runFull onePart ⟨shielding, .empty⟩)

/-- The first run takes the directory, and the second the metadata. -/
theorem metadata_shielded :
    ¬ ∀ (m : MappingPipeline) (src : Tree) (d d' d'' : Dest), m.runFull src d = .ok d' → m.runFull src d' = .ok d'' →
      m.Mirrors src d'.tree d''.tree := by
  intro h
  have hfiles := (h oneBrand onePart ⟨shielding, .empty⟩ shielded _ (eq_ok_result (by with_unfolding_all decide))
    (eq_ok_result (by with_unfolding_all decide))).settled.1 ⟨["jav", "ABC-123"], "ABC-123-cd4.nfo"⟩
  revert hfiles
  with_unfolding_all decide

end MappingPipeline

end EmbyxManager.Mapping
