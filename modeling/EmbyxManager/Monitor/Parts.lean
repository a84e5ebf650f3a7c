import EmbyxManager.Atom.Regex
import EmbyxManager.Monitor.Library
/-!
# Several videos in one folder

`_arrange_videos` explains a folder that holds several videos of one AVID: they are the
parts of one video, or cuts of it of which the best is kept, or the extras are phone rips.
All of it is read off the names, with the quality tags stripped where cuts are compared.
-/

namespace EmbyxManager.Parts

open Atom

/-! ## Characters -/

/-- A character as `IGNORECASE` compares it with the letters of a pattern. -/
def ignoreCase (c : Char) : Char :=
  if c = 'ſ' then 's' else if c = 'K' then 'k' else if c = 'ı' ∨ c = 'İ' then 'i' else c.toLower

/-- `[a-z\d]` under `IGNORECASE`. -/
def alphanumeric (c : Char) : Bool := (ignoreCase c).isLower || isDecimal c

/-- `[-_. ]`. -/
def isSeparator (c : Char) : Bool := c = '-' || c = '_' || c = '.' || c = ' '

/-- `[-_ ]`. -/
def beforeIndex (c : Char) : Bool := c = '-' || c = '_' || c = ' '

/-- `.` of a pattern. -/
def notLineFeed (c : Char) : Bool := c ≠ '\n'

/-- `str.upper` of a character a tag can hold. -/
def upperOf (c : Char) : Char := if c = 'ſ' then 'S' else if c = 'ı' then 'I' else c.toUpper

/-! ## Patterns -/

open Regex

def word (s : String) : Regex := Regex.text (fun c x => ignoreCase x = c) s.toList

def oneOf (s : String) : Regex := .one fun x => ignoreCase x ∈ s.toList

def digits : Regex := .star true (.one isDecimal)

/-- `_TAG_ALTERNATIVES`. -/
def tagAlternatives : Regex :=
  .any [word "dvd", word "iso", word "mkv", word "mp4", .seq (opt (word "c")) (word "avi"), .seq digits (word "fps"),
    word "whole", .all [opt (.alt (word "f") (word "hhb")), word "hd", digits], .seq (word "sd") digits, word "lt",
    .seq (.any [word "144", word "240", word "360", word "480", word "720", word "1080", word "2160"]) (oneOf "pi"),
    word "x1080x", word "uhd", word "hq", word "uncensored", word "leak", .all [oneOf "2468", word "k", opt (word "s")],
    .all [oneOf "xh", word "26", oneOf "45"]]

/-- `_TAG_RE`. -/
def tagRe : Regex :=
  .all [.alt .start (.behind fun c => !alphanumeric c), plus tagAlternatives,
    .ahead (.alt .finish (.one fun c => !alphanumeric c))]

/-- `_SEPARATOR_RUN_RE`. -/
def separatorRunRe : Regex := .all [.one isSeparator, .one isSeparator, .star true (.one isSeparator)]

/-- `\d{1,2}`. -/
def twoDigits : Regex := .seq (.one isDecimal) (opt (.one isDecimal))

/-- `_TRAILING_INDEX_RE`: the base is group 1, the index group 2. -/
def trailingIndexRe : Regex :=
  .all [.start, .group 1 (.seq (.one notLineFeed) (.star false (.one notLineFeed))), .one beforeIndex, .group 2 twoDigits, .finish]

/-- `_TRAILING_LETTER_RE`: the base is group 1, the letter group 2. -/
def trailingLetterRe : Regex :=
  .all [.start, .group 1 (plus (.one notLineFeed)), .group 2 (.one Char.isLower), .finish]

/-- `_PHONE_RIP_RE`: the base is group 1. -/
def phoneRipRe : Regex :=
  .all [.start, .group 1 (plus (.one notLineFeed)), .one fun c => c = '-' || c = '_', .one (· = '5'), .finish]

/-- The name of the lead, and an index in group 1. -/
def siblingRe (lead : List Char) : Regex :=
  .all [Regex.text (fun c x => x = c) lead, .one beforeIndex, .group 1 twoDigits, .finish]

/-! ## Names -/

def maxExtensionLength : Nat := 7

/-- `strip_extension`. -/
def stripExtension (name : String) : List Char :=
  let extension := suffix name
  if 0 < extension.length ∧ extension.length < maxExtensionLength then
    name.toList.take (name.toList.length - extension.length)
  else name.toList

def stripVariantTags (name : String) : List Char := tagRe.sub [] (stripExtension name)

/-- `variant_tags`: runs of tags are located first and split afterwards. -/
def variantTags (name : String) : List String :=
  (tagRe.findAll (stripExtension name)).flatMap fun run =>
    (tagAlternatives.findAll run).map fun tag => String.ofList (tag.map upperOf)

/-- `HIGH_RESOLUTION_TAGS`. -/
def highResolutionTags : List String := ["2K", "4K", "6K", "8K", "2160P", "2160I", "UHD"]

def is4kVideo (video : Video) : Bool := (variantTags video.name).any (· ∈ highResolutionTags)

/-- `str.strip(chars)`. -/
def stripChars (p : Char → Bool) (s : List Char) : List Char := ((s.dropWhile p).reverse.dropWhile p).reverse

/-- `_variant_base`; `fold` is `str.casefold` of one character. -/
def variantBase (fold : Char → List Char) (name : String) : List Char :=
  (stripChars isSeparator (separatorRunRe.sub ['-'] (stripVariantTags name))).flatMap fold

/-- `re.sub(r'\d+', '', name)`. -/
def withoutDigits (name : String) : List Char := name.toList.filter fun c => !isDecimal c

/-- `re.sub(r'-[A-Z]', '', name)`. -/
def withoutLetters : List Char → List Char
  | '-' :: c :: rest => if c.isUpper then withoutLetters rest else '-' :: withoutLetters (c :: rest)
  | c :: rest => c :: withoutLetters rest
  | [] => []

/-- `len({...}) == 1`. -/
def allSame (texts : List (List Char)) : Bool := texts.dedup.length = 1

def minMultiPartVideos : Nat := 2

/-- Whether these files are parts of one video rather than separate videos. -/
def multiPartVideoCheck (videos : List Video) : Bool :=
  decide (minMultiPartVideos ≤ videos.length) &&
    (allSame (videos.map fun v => withoutDigits v.name) || allSame (videos.map fun v => withoutLetters v.name.toList))

/-- `sorted(videos, key=lambda video: video.name)`. -/
def byName (videos : List Video) : List Video := videos.insertionSort fun v v' => v.name ≤ v'.name

/-! ## Ordering what reads as one set -/

/-- Each video with what `read` makes of it; none when one of them reads as nothing. -/
def readAll {κ : Type} (read : Video → Option κ) : List Video → Option (List (Video × κ))
  | [] => some []
  | v :: vs => do
    let key ← read v
    let rest ← readAll read vs
    pure ((v, key) :: rest)

variable (fold : Char → List Char)

/-- `_indexed_run`. -/
def indexedRun (videos : List Video) : Option (List Video) := do
  let parsed ← readAll (fun v => do
    let a ← trailingIndexRe.matchStart (variantBase fold v.name)
    pure ((a.group 1).getD [], intOf ((a.group 2).getD []))) videos
  if !allSame (parsed.map (·.2.1)) then none
  else
    let ordered := parsed.insertionSort fun p q => p.2.2 ≤ q.2.2
    if ordered.map (·.2.2) = List.range' 1 videos.length then some (ordered.map (·.1)) else none

/-- `_unindexed_first`. -/
def unindexedFirst (videos : List Video) : Option (List Video) :=
  videos.findSome? fun lead => do
    let parsed ← readAll (fun v => do
      let a ← (siblingRe (variantBase fold lead.name)).matchStart (variantBase fold v.name)
      pure (intOf ((a.group 1).getD []))) (videos.filter (· ≠ lead))
    let ordered := parsed.insertionSort fun p q => p.2 ≤ q.2
    if ordered.map (·.2) = List.range' 2 (videos.length - 1) then some (lead :: ordered.map (·.1)) else none

/-- `_letter_run`. -/
def letterRun (videos : List Video) : Option (List Video) := do
  let parsed ← readAll (fun v => do
    let a ← trailingLetterRe.matchStart (variantBase fold v.name)
    pure ((a.group 1).getD [], (a.group 2).getD [])) videos
  if !allSame (parsed.map (·.2.1)) then none
  else
    let ordered := parsed.insertionSort fun p q => p.2.2 ≤ q.2.2
    if ordered.map (·.2.2) = (List.range videos.length).map (fun offset => [Char.ofNat ('a'.toNat + offset)]) then
      some (ordered.map (·.1))
    else none

/-- The videos ordered as `cd1` to `cdN`, or none when they do not read as one set. -/
def orderAsParts (videos : List Video) : Option (List Video) :=
  (indexedRun fold videos).orElse fun _ => (unindexedFirst fold videos).orElse fun _ => letterRun fold videos

/-! ## Cuts and rips -/

/-- What is kept of the videos that are cuts of the same thing. -/
def winner (cuts : List Video) : Option Video :=
  match cuts with
  | [v] => some v
  | _ =>
    match cuts.filter is4kVideo with
    | [v] => some v
    | _ => none

/-- One winner for each group; none when one cannot be decided. -/
def winners : List (List Video) → Option (List Video)
  | [] => some []
  | cuts :: rest => do
    let v ← winner cuts
    let rest ← winners rest
    pure (v :: rest)

/-- The videos by the name that is left without tags, in the order of the first of each. -/
def groups (videos : List Video) : List (List Video) :=
  (videos.map fun v => variantBase fold v.name).eraseDups.map fun base =>
    videos.filter fun v => variantBase fold v.name = base

/-- `_collapse_resolution_variants`. -/
def collapseResolutionVariants (videos : List Video) : Option (List Video) := (winners (groups fold videos)).map byName

/-- `max(videos, key=size)`: the first of the largest. -/
def dominant : List Video → Option Video
  | [] => none
  | v :: vs => some (vs.foldl (fun best v => if best.size < v.size then v else best) v)

/-- A companion that is a phone rip of the main file. -/
def isPhoneRip (avidOf : String → Avid) (avid : Avid) (main rip : Video) : Bool :=
  match phoneRipRe.matchStart (variantBase fold rip.name) with
  | none => false
  | some a =>
    Archive.paddingEquivalent (avidOf (String.ofList ((a.group 1).getD []))) avid && decide (2 * rip.size ≤ main.size)

/-- `_drop_phone_rips`. -/
def dropPhoneRips (avidOf : String → Avid) (videos : List Video) (avid : Avid) : Option (List Video) := do
  let main ← dominant videos
  if (videos.filter (· ≠ main)).all (isPhoneRip fold avidOf avid main) then some [main] else none

/-- `_arrange_videos`: the videos to archive in order, or none for an operator. -/
def arrangeVideos (avidOf : String → Avid) (videos : List Video) (avid : Avid) : Option (List Video) :=
  if multiPartVideoCheck videos then some (byName videos)
  else do
    let collapsed ← collapseResolutionVariants fold videos
    if collapsed.length = 1 then some collapsed
    else (orderAsParts fold collapsed).orElse fun _ => dropPhoneRips fold avidOf collapsed avid

/-! ## What comes out was there -/

@[simp] theorem mem_byName {videos : List Video} {v : Video} : v ∈ byName videos ↔ v ∈ videos :=
  List.mem_insertionSort _

theorem readAll_map {κ : Type} {read : Video → Option κ} {videos : List Video} {parsed : List (Video × κ)}
    (h : readAll read videos = some parsed) : parsed.map (·.1) = videos := by
  induction videos generalizing parsed with
  | nil =>
    cases h
    rfl
  | cons v vs ih =>
    simp only [readAll, Option.bind_eq_bind, Option.bind_eq_some_iff, Option.pure_def, Option.some.injEq] at h
    obtain ⟨key, -, rest, hrest, rfl⟩ := h
    simp [ih hrest]

/-- A reordering of what was read holds the same videos. -/
theorem mem_of_sorted {κ : Type} {read : Video → Option κ} {videos : List Video} {parsed : List (Video × κ)}
    (h : readAll read videos = some parsed) (r : Video × κ → Video × κ → Prop) [DecidableRel r] {v : Video} :
    v ∈ (parsed.insertionSort r).map (·.1) ↔ v ∈ videos := by
  rw [← readAll_map h]
  simp [List.mem_map, List.mem_insertionSort]

theorem mem_of_indexedRun {videos ordered : List Video} (h : indexedRun fold videos = some ordered) : ordered ⊆ videos := by
  simp only [indexedRun, Option.bind_eq_bind, Option.bind_eq_some_iff] at h
  obtain ⟨parsed, hparsed, h⟩ := h
  split at h
  · cases h
  · split at h
    · cases h
      exact fun v hv => (mem_of_sorted hparsed _).1 hv
    · cases h

theorem mem_of_unindexedFirst {videos ordered : List Video} (h : unindexedFirst fold videos = some ordered) :
    ordered ⊆ videos := by
  obtain ⟨lead, hlead, h⟩ := List.exists_of_findSome?_eq_some h
  simp only [Option.bind_eq_bind, Option.bind_eq_some_iff] at h
  obtain ⟨parsed, hparsed, h⟩ := h
  split at h
  · cases h
    intro v hv
    rcases List.mem_cons.1 hv with rfl | hv
    · exact hlead
    · exact List.mem_of_mem_filter ((mem_of_sorted hparsed _).1 hv)
  · cases h

theorem mem_of_letterRun {videos ordered : List Video} (h : letterRun fold videos = some ordered) : ordered ⊆ videos := by
  simp only [letterRun, Option.bind_eq_bind, Option.bind_eq_some_iff] at h
  obtain ⟨parsed, hparsed, h⟩ := h
  split at h
  · cases h
  · split at h
    · cases h
      exact fun v hv => (mem_of_sorted hparsed _).1 hv
    · cases h

theorem orElse_cases {α : Type} {o : Option α} {f : Unit → Option α} {a : α} (h : o.orElse f = some a) :
    o = some a ∨ f () = some a := by
  rw [Option.orElse_eq_or, Option.or_eq_some_iff] at h
  exact h.imp_right (·.2)

theorem mem_of_orderAsParts {videos ordered : List Video} (h : orderAsParts fold videos = some ordered) :
    ordered ⊆ videos := by
  rcases orElse_cases h with h | h
  · exact mem_of_indexedRun fold h
  · rcases orElse_cases h with h | h
    · exact mem_of_unindexedFirst fold h
    · exact mem_of_letterRun fold h

theorem mem_of_dominant {videos : List Video} {main : Video} (h : dominant videos = some main) : main ∈ videos := by
  cases videos with
  | nil => cases h
  | cons v vs =>
    have go : ∀ (rest : List Video) (best : Video),
        rest.foldl (fun best v => if best.size < v.size then v else best) best ∈ best :: rest := by
      intro rest
      induction rest with
      | nil => simp
      | cons x xs ih =>
        intro best
        rw [List.foldl_cons]
        split
        · exact List.mem_cons_of_mem _ (ih x)
        · rcases List.mem_cons.1 (ih best) with he | hm
          · rw [he]
            exact List.mem_cons_self
          · exact List.mem_cons_of_mem _ (List.mem_cons_of_mem _ hm)
    cases h
    exact go vs v

theorem mem_of_dropPhoneRips {avidOf : String → Avid} {videos ordered : List Video} {avid : Avid}
    (h : dropPhoneRips fold avidOf videos avid = some ordered) : ordered ⊆ videos := by
  simp only [dropPhoneRips, Option.bind_eq_bind, Option.bind_eq_some_iff] at h
  obtain ⟨main, hmain, h⟩ := h
  split at h
  · cases h
    exact fun v hv => List.mem_singleton.1 hv ▸ mem_of_dominant hmain
  · cases h

/-! ## One cut of each -/

theorem nodup_eraseDups {α : Type} [BEq α] [LawfulBEq α] (l : List α) : l.eraseDups.Nodup := by
  induction hn : l.length using Nat.strong_induction_on generalizing l with
  | _ n ih =>
    cases l with
    | nil => exact List.nodup_nil
    | cons a as =>
      rw [List.eraseDups_cons, List.nodup_cons]
      refine ⟨fun h => ?_, ih _ ?_ _ rfl⟩
      · have := List.of_mem_filter (List.mem_eraseDups.1 h)
        simp at this
      · rw [← hn, List.length_cons]
        exact Nat.lt_succ_of_le (List.length_filter_le _ _)

theorem mem_of_winner {cuts : List Video} {v : Video} (h : winner cuts = some v) : v ∈ cuts := by
  unfold winner at h
  split at h
  · cases h
    exact List.mem_singleton_self v
  · split at h
    · rename_i high
      cases h
      exact List.mem_of_mem_filter (p := is4kVideo) (high ▸ List.mem_singleton_self v)
    · cases h

section winners
variable {base : Video → List Char} {videos kept : List Video}

/-- The winners have the names of their groups, one each. -/
theorem winners_bases {bases : List (List Char)}
    (h : winners (bases.map fun b => videos.filter fun v => base v = b) = some kept) :
    kept.map base = bases ∧ kept ⊆ videos := by
  induction bases generalizing kept with
  | nil =>
    cases h
    exact ⟨rfl, List.nil_subset _⟩
  | cons b rest ih =>
    simp only [List.map_cons, winners, Option.bind_eq_bind, Option.bind_eq_some_iff, Option.pure_def, Option.some.injEq] at h
    obtain ⟨v, hv, kept', hkept, rfl⟩ := h
    obtain ⟨hmem, hbase⟩ := List.mem_filter.1 (mem_of_winner hv)
    obtain ⟨hmap, hsub⟩ := ih hkept
    exact ⟨by rw [List.map_cons, hmap, of_decide_eq_true hbase], List.cons_subset.2 ⟨hmem, hsub⟩⟩

theorem winners_apart
    (h : winners ((videos.map base).eraseDups.map fun b => videos.filter fun v => base v = b) = some kept)
    {v w : Video} (hv : v ∈ kept) (hw : w ∈ kept) (hbase : base v = base w) : v = w := by
  have hnodup : (kept.map base).Nodup := by
    rw [(winners_bases h).1]
    exact nodup_eraseDups _
  exact List.inj_on_of_nodup_map hnodup hv hw hbase

end winners

/-- No two videos that are left have the same name without tags. -/
theorem collapsed_apart {videos collapsed : List Video} (h : collapseResolutionVariants fold videos = some collapsed)
    {v w : Video} (hv : v ∈ collapsed) (hw : w ∈ collapsed) (hbase : variantBase fold v.name = variantBase fold w.name) :
    v = w := by
  obtain ⟨kept, hkept, rfl⟩ := Option.map_eq_some_iff.1 h
  unfold groups at hkept
  exact @winners_apart (fun v => variantBase fold v.name) _ _ hkept _ _ (mem_byName.1 hv) (mem_byName.1 hw) hbase

/-- Where the folder does not pass for parts by its names alone, cuts are never filed together. -/
theorem arrange_apart {avidOf : String → Avid} {videos : List Video} {avid : Avid}
    (hcheck : multiPartVideoCheck videos = false) {ordered : List Video}
    (h : arrangeVideos fold avidOf videos avid = some ordered) {v w : Video} (hv : v ∈ ordered) (hw : w ∈ ordered)
    (hbase : variantBase fold v.name = variantBase fold w.name) : v = w := by
  rw [arrangeVideos, hcheck, if_neg (by decide)] at h
  simp only [Option.bind_eq_bind, Option.bind_eq_some_iff] at h
  obtain ⟨collapsed, hcollapsed, h⟩ := h
  have hsub : ordered ⊆ collapsed := by
    split at h
    · cases h
      exact List.Subset.refl _
    · rcases orElse_cases h with h | h
      · exact mem_of_orderAsParts fold h
      · exact mem_of_dropPhoneRips fold h
  exact collapsed_apart fold hcollapsed (hsub hv) (hsub hw) hbase

/-- Two of the videos are cuts of the same thing: they differ only in quality tags. -/
def HoldsCuts (videos : List Video) : Prop :=
  ∃ v ∈ videos, ∃ w ∈ videos, v ≠ w ∧ variantBase fold v.name = variantBase fold w.name

/-- Two cuts are never filed together exactly when the folder that holds them does not pass for parts. -/
theorem cuts_apart_iff (fold : Char → List Char) (avidOf : String → Avid) (videos : List Video) (avid : Avid) :
    (∀ v ∈ videos, ∀ w ∈ videos, v ≠ w → variantBase fold v.name = variantBase fold w.name →
      ∀ ordered, arrangeVideos fold avidOf videos avid = some ordered → ¬(v ∈ ordered ∧ w ∈ ordered)) ↔
    (multiPartVideoCheck videos = true → ¬HoldsCuts fold videos) := by
  constructor
  · rintro h hcheck ⟨v, hv, w, hw, hne, hbase⟩
    refine h v hv w hw hne hbase (byName videos) ?_ ⟨mem_byName.2 hv, mem_byName.2 hw⟩
    rw [arrangeVideos, if_pos hcheck]
  · rintro h v hv w hw hne hbase ordered hordered ⟨hmv, hmw⟩
    cases hcheck : multiPartVideoCheck videos with
    | true => exact h hcheck ⟨v, hv, w, hw, hne, hbase⟩
    | false => exact hne (arrange_apart fold hcheck hordered hmv hmw hbase)

/-- `ABC-123-1080p.mp4` and `ABC-123-2160p.mp4` differ in digits only, and are filed as two parts. -/
theorem cuts_filed_as_parts :
    ¬ ∀ (fold : Char → List Char) (avidOf : String → Avid) (videos : List Video) (avid : Avid), videos.Nodup →
      (∀ v ∈ videos, avidOf v.name = avid) →
      ∀ v ∈ videos, ∀ w ∈ videos, v ≠ w → variantBase fold v.name = variantBase fold w.name →
        ∀ ordered, arrangeVideos fold avidOf videos avid = some ordered → ¬(v ∈ ordered ∧ w ∈ ordered) := by
  intro h
  let hd : Video := ⟨"/f/ABC-123-1080p.mp4", "ABC-123-1080p.mp4", 1⟩
  let uhd : Video := ⟨"/f/ABC-123-2160p.mp4", "ABC-123-2160p.mp4", 2⟩
  exact h (fun c => [c.toLower]) (fun _ => "ABC-123") [hd, uhd] "ABC-123" (by decide) (by simp) hd (by simp) uhd (by simp)
    (by decide) (by decide) [hd, uhd] (by decide) ⟨by simp, by simp⟩

end EmbyxManager.Parts
