import EmbyxManager.FillActor.ScanSettings
/-!
# What a plan says

A stored plan names every video that some actor's listing has, once, with exactly the actors
that list it (`Scans.complete`); and a candidate it shows without a conflict is the only one of
the plan that would end up where it does (`Scans.unflagged_apart`).
-/

namespace EmbyxManager.FillActor.Scan

open Atom Prog

/-! ## Sorted sets -/

theorem mem_sortedSet {xs : List String} {x : String} : x ∈ sortedSet xs ↔ x ∈ xs := by
  rw [sortedSet, List.mem_insertionSort, List.mem_dedup]

theorem sortedSet_sorted (xs : List String) : (sortedSet xs).Pairwise (· < ·) := by
  have hle : (sortedSet xs).Pairwise (· ≤ ·) := List.pairwise_insertionSort _ _
  have hne : (sortedSet xs).Nodup := (List.perm_insertionSort _ _).nodup_iff.2 (List.nodup_dedup xs)
  exact (hle.and hne).imp fun h => lt_of_le_of_ne h.1 h.2

/-! ## Entries and candidates -/

/-- An entry for a video and its actors. -/
def EntryOf (videoId : String) (actorIds : List String) (r : VideoPlan × List CandidateRecord × Bool) : Prop :=
  r.1.videoId = videoId ∧ r.1.actorIds = actorIds

theorem under_entryOf (names : Names) (mover : Bool) (videoId : String) (actorIds : List String) :
    Under (fun _ => True) (createVideoPlan names mover videoId actorIds) (EntryOf videoId actorIds) := by
  have hentry : ∀ (plan : VideoPlan) records missing, plan.videoId = videoId → plan.actorIds = actorIds →
      Under (fun _ => True) (pure (plan, records, missing)) (EntryOf videoId actorIds) := fun _ _ _ h h' => .pure ⟨h, h'⟩
  refine .after _ fun _ => .ite (fun _ => hentry _ _ _ rfl rfl) fun _ => .after _ fun _ => .after _ fun _ => ?_
  refine .ite (fun _ => hentry _ _ _ rfl rfl) fun _ => .after _ fun _ => .ite (fun _ => hentry _ _ _ rfl rfl) fun _ => ?_
  refine .after _ fun _ => .ite (fun _ => ?_) fun _ => .after _ fun _ => hentry _ _ _ rfl rfl
  refine .after _ fun _ => .ite (fun _ => .raise _) fun _ => .after _ fun _ => .after _ fun _ => .after _ fun _ => .after _ fun _ => ?_
  refine .ite (fun _ => hentry _ _ _ rfl rfl) fun _ => .ite (fun _ => hentry _ _ _ rfl rfl) fun _ => hentry _ _ _ rfl rfl

/-- What the hand-over leaves of an entry. -/
def VideoPlan.entry (v : VideoPlan) : String × List String × List MoveCandidate := (v.videoId, v.actorIds, v.moveCandidates)

theorem withOutcome_entries (videos : List VideoPlan) (x : Submitted) :
    (withOutcome videos x).map VideoPlan.entry = videos.map VideoPlan.entry := by
  rw [withOutcome, List.map_map]
  refine List.map_congr_left fun v _ => ?_
  by_cases h : v.videoId = x.1 <;> simp [h, VideoPlan.entry]

theorem foldl_withOutcome_entries (submitted : List Submitted) (videos : List VideoPlan) :
    (submitted.foldl withOutcome videos).map VideoPlan.entry = videos.map VideoPlan.entry := by
  induction submitted generalizing videos with
  | nil => rfl
  | cons x submitted ih => rw [List.foldl_cons, ih, withOutcome_entries]

/-! ## The catalog -/

/-- The ids a listing has, as the ledger spells them; one that failed has none. -/
def listedIds (names : Names) : Except Exc CatalogListing → List String
  | .ok listing => listing.normalizedIds names
  | .error _ => []

/-- The catalog is what the listings have said. -/
structure Heard (names : Names) (listed : List (String × Except Exc CatalogListing)) (c : Catalog) : Prop where
  actors : c.actorPlans.map (·.actorId) = listed.map (·.1)
  pairs : c.videoActors = listed.flatMap fun x => (listedIds names x.2).map fun videoId => (videoId, x.1)

namespace Heard
variable {names : Names} {listed : List (String × Except Exc CatalogListing)} {c : Catalog}

theorem mem_videoIds (h : Heard names listed c) {videoId : String} :
    videoId ∈ c.videoIds ↔ ∃ x ∈ listed, videoId ∈ listedIds names x.2 := by
  rw [Catalog.videoIds, mem_sortedSet, h.pairs]
  simp

theorem mem_actorsOf (h : Heard names listed c) {videoId actorId : String} :
    actorId ∈ c.actorsOf videoId ↔ ∃ x ∈ listed, x.1 = actorId ∧ videoId ∈ listedIds names x.2 := by
  rw [Catalog.actorsOf, mem_sortedSet, h.pairs]
  simp only [List.mem_map, List.mem_filter, List.mem_flatMap, decide_eq_true_eq]
  constructor
  · rintro ⟨pair, ⟨⟨x, hx, id, hid, rfl⟩, rfl⟩, rfl⟩
    exact ⟨x, hx, rfl, hid⟩
  · rintro ⟨x, hx, rfl, hid⟩
    exact ⟨(videoId, x.1), ⟨⟨x, hx, videoId, hid, rfl⟩, rfl⟩, rfl⟩

theorem withListing {svc : Service} {next : Catalog} {actorId : String} {answer : Except Exc CatalogListing}
    (h : Heard svc.names listed c) (hnext : svc.withListing c actorId answer = .ok next) :
    Heard svc.names (listed ++ [(actorId, answer)]) next := by
  cases answer with
  | error e =>
    obtain rfl := Except.ok.inj hnext
    refine ⟨by simp [Catalog.failed, h.actors], ?_⟩
    simp [Catalog.failed, h.pairs, listedIds]
  | ok listing =>
    unfold Service.withListing at hnext
    dsimp only at hnext
    split at hnext
    · cases hnext
    · obtain rfl := Except.ok.inj hnext
      refine ⟨by simp [Catalog.listed, h.actors], ?_⟩
      simp [Catalog.listed, h.pairs, listedIds]

end Heard

/-! ## The plan -/

/-- An actor's id as it was asked for, without the blanks around it. -/
def stripped (actorId : String) : String := String.ofList (Core.strip actorId.toList)

/-- Every actor asked for has one entry and one listing; every listed video has one entry, with exactly the
actors that list it. -/
structure Complete (names : Names) (s : Stored) : Prop where
  asked : s.plan.actors.map (·.actorId) = (s.asked.map stripped).eraseDups
  actors : s.plan.actors.map (·.actorId) = s.listed.map (·.1)
  sorted : (s.plan.videos.map (·.videoId)).Pairwise (· < ·)
  videos : ∀ videoId, videoId ∈ s.plan.videos.map (·.videoId) ↔ ∃ x ∈ s.listed, videoId ∈ listedIds names x.2
  credits : ∀ v ∈ s.plan.videos, v.actorIds.Pairwise (· < ·) ∧
    ∀ actorId, actorId ∈ v.actorIds ↔ ∃ x ∈ s.listed, x.1 = actorId ∧ v.videoId ∈ listedIds names x.2

/-- A candidate without a conflict shares its destination with no other. -/
def Apart (s : Stored) : Prop :=
  ∀ v ∈ s.plan.videos, ∀ c ∈ v.moveCandidates, c.destinationConflict = false →
    ∀ r ∈ s.record.candidates, r.candidateId = c.candidateId →
      ∀ r' ∈ s.record.candidates, r'.candidateId ≠ c.candidateId → candidateDestinationKey r' ≠ candidateDestinationKey r

theorem find?_of_unique {records : List CandidateRecord} (hunique : (records.map (·.candidateId)).Nodup) {r : CandidateRecord}
    (hr : r ∈ records) : records.find? (·.candidateId = r.candidateId) = some r := by
  cases hfind : records.find? (·.candidateId = r.candidateId) with
  | none => simpa using List.find?_eq_none.1 hfind r hr
  | some r₀ =>
    have hsame : r₀.candidateId = r.candidateId := by simpa using List.find?_some hfind
    rw [List.inj_on_of_nodup_map hunique (List.mem_of_find?_eq_some hfind) hr hsame]

/-- Two records that end up at one place are counted as two. -/
theorem one_lt_destinationCount {records : List CandidateRecord} {r r' : CandidateRecord} (hr : r ∈ records) (hr' : r' ∈ records)
    (hne : r' ≠ r) (hkey : candidateDestinationKey r' = candidateDestinationKey r) :
    1 < destinationCount records (candidateDestinationKey r) := by
  rw [destinationCount, List.countP_eq_length_filter]
  have hmem : ∀ x ∈ [r', r], x ∈ records.filter fun record => candidateDestinationKey record = candidateDestinationKey r := by
    simp [hr, hr', hkey]
  exact (List.subperm_of_subset (by simp [hne]) hmem).length_le

theorem apart_of_mark {plan : Plan} {record : PlanRecord} {asked : List String}
    {listed : List (String × Except Exc CatalogListing)} {scanned : List VideoPlan}
    (h : plan.videos.map VideoPlan.entry = (scanned.map (markDuplicateDestinationConflicts record.candidates)).map VideoPlan.entry) :
    Apart ⟨plan, record, asked, listed⟩ := by
  intro v hv c hc hconflict r hr hrc r' hr' hne hkey
  obtain ⟨v', hv', hentry⟩ := List.mem_map.1 (h ▸ List.mem_map_of_mem (f := VideoPlan.entry) hv)
  obtain ⟨v₀, -, rfl⟩ := List.mem_map.1 hv'
  have hcandidates : (markDuplicateDestinationConflicts record.candidates v₀).moveCandidates = v.moveCandidates :=
    congrArg (·.2.2) hentry
  rw [← hcandidates] at hc
  obtain ⟨c₀, -, rfl⟩ := List.mem_map.1 hc
  -- the record the candidate's id finds is `r`, and `r'` is counted beside it
  have hfind : record.candidates.find? (·.candidateId = c₀.candidateId) = some r := by
    rw [← hrc]
    exact find?_of_unique record.valid.unique hr
  have hcount : ¬ destinationCount record.candidates (candidateDestinationKey r) > 1 := by
    simpa [hfind] using (Bool.or_eq_false_iff.1 hconflict).2
  refine hcount (one_lt_destinationCount hr hr' ?_ hkey)
  rintro rfl
  exact hne hrc

/-! ## The runs -/

section runs
variable {svc : Service} {settings : Nat → FillActorRuntime} {w : World}

/-- Part of the actors have been listed, and the catalog is as the listings have said. -/
structure Listed (svc : Service) (asked actorIds : List String) (rest : List (String × Nat)) (c : Catalog) (w : World) : Prop where
  asked : w.asked = asked
  heard : Heard svc.names w.listed c
  each : w.listed.map (·.1) ++ rest.map (·.1) = actorIds

/-- The listings are one for each actor, and leave the catalog as they have been heard. -/
theorem wp_listActors (actorIds : List String) (P : Stored → Prop) (hw : w.listed = []) :
    (svc.listActors actorIds).wp (live settings) (StoresOnly P) (Listed svc w.asked actorIds []) (fun _ _ => True) w := by
  refine (wp_bind _ _).2 (wp_mono (wp_scanning_frame _ P) ?_ fun _ _ _ => trivial)
  rintro _ w₁ ⟨-, hasked, hsame⟩
  refine wp_foldEach (Listed svc w.asked actorIds) ?_ (fun _ _ h => h) ?_
  · intro x xs c w₂ hlisting
    have hanswer : (listVideos x.1).attempt.wp (live settings) (StoresOnly P)
        (fun answer w₃ => w₃.asked = w₂.asked ∧ w₃.listed = w₂.listed ++ [(x.1, answer)]) (fun _ _ => True) w₂ :=
      (wp_attempt _).2 ((wp_call _).2 ⟨trivial, fun _ _ ht => ⟨ht.2.1, ht.2.2.1⟩, fun _ _ ht => ⟨ht.2.1, ht.2.2.1⟩⟩)
    refine (wp_bind _ _).2 (wp_mono hanswer (fun answer w₃ h₃ => ?_) fun _ _ _ => trivial)
    obtain ⟨hasked₃, hlisted⟩ := h₃
    cases hwith : svc.withListing c x.1 answer with
    | error e => trivial
    | ok next =>
      refine (wp_bind _ _).2 (wp_mono (wp_scanning_frame _ P) (fun _ w₄ h₄ => ?_) fun _ _ _ => trivial)
      obtain ⟨-, hasked₄, hlisted₄⟩ := h₄
      rw [hlisted] at hlisted₄
      refine ⟨hasked₄.trans (hasked₃.trans hlisting.asked), ?_, ?_⟩
      · rw [hlisted₄]
        exact hlisting.heard.withListing hwith
      · rw [hlisted₄, List.map_append, List.append_assoc]
        exact hlisting.each
  · refine ⟨hasked, ?_, ?_⟩
    · rw [hsame, hw]
      exact ⟨rfl, rfl⟩
    · rw [hsame, hw]
      exact List.zipIdx_map_fst 0 actorIds

/-- What the check of the ids lets through: each id once, in the order asked for. -/
theorem validateActorIds_ok {maxActors : Nat} {actorIds normalized : List String}
    (h : validateActorIds maxActors actorIds = .ok normalized) : normalized = (actorIds.map stripped).eraseDups := by
  unfold validateActorIds at h
  dsimp only at h
  split at h
  · cases h
  · split at h
    · cases h
    · split at h
      · cases h
      · exact (Except.ok.inj h).symm

/-- Who an entry is about. -/
def VideoPlan.about (v : VideoPlan) : String × List String := (v.videoId, v.actorIds)

/-- The entry the catalog asks for. -/
def Catalog.entry (c : Catalog) (videoId : String) : String × List String := (videoId, c.actorsOf videoId)

theorem under_scanVideo (catalog : Catalog) (total : Nat) (s : Scanned) (x : String × Nat) :
    Under (fun _ => True) (svc.scanVideo catalog total s x) fun s' =>
      s'.videos.map VideoPlan.about = s.videos.map VideoPlan.about ++ [catalog.entry x.1] := by
  have hnext : ∀ next : Scanned, next.videos.map VideoPlan.about = s.videos.map VideoPlan.about ++ [catalog.entry x.1] →
      Under (fun _ => True) (do
        report ⟨.libraryScan, x.2 + 1, some total, .videos, some x.1⟩
        pure next) fun s' => s'.videos.map VideoPlan.about = s.videos.map VideoPlan.about ++ [catalog.entry x.1] :=
    fun _ h => .after _ fun _ => .pure h
  refine .bind (under_entryOf _ _ x.1 (catalog.actorsOf x.1)).attempt fun r hr => ?_
  cases r with
  | error e => exact .bind (.pure (by simp [VideoPlan.about, Catalog.entry])) hnext
  | ok r =>
    obtain ⟨hid, hactors⟩ := hr r rfl
    exact .bind (.pure (by simp [VideoPlan.about, Catalog.entry, hid, hactors])) hnext

/-- The library scan makes one entry of each video, in order. -/
theorem under_scanLibrary_entries (catalog : Catalog) :
    Under (fun _ => True) (svc.scanLibrary catalog) fun r => ∃ scanned : List VideoPlan,
      scanned.map VideoPlan.about = catalog.videoIds.map catalog.entry ∧
      r.1.map VideoPlan.entry = (scanned.map (markDuplicateDestinationConflicts r.2)).map VideoPlan.entry := by
  refine .after _ fun _ => .bind (.foldList (fun rest s =>
    s.videos.map VideoPlan.about ++ rest.map (fun x => catalog.entry x.1) = catalog.videoIds.map catalog.entry) ?_ ?_) fun scanned h => ?_
  · have hfst : (catalog.videoIds.zipIdx.map Prod.fst).map catalog.entry = catalog.videoIds.map catalog.entry := by
      rw [List.zipIdx_map_fst]
    rw [List.map_map] at hfst
    exact hfst
  · intro x xs s h
    refine (under_scanVideo catalog _ s x).mono fun s' hs' => ?_
    rw [hs', List.append_assoc]
    exact h
  · rw [List.map_nil, List.append_nil] at h
    exact .after _ fun _ => .after _ fun submitted => .pure ⟨scanned.videos, h, foldl_withOutcome_entries submitted _⟩

theorem complete_of_entries {names : Names} {asked : List String} {listed : List (String × Except Exc CatalogListing)} {catalog : Catalog} {plan : Plan}
    {record : PlanRecord} {records : List CandidateRecord} {scanned : List VideoPlan} (hheard : Heard names listed catalog)
    (hasked : listed.map (·.1) = (asked.map stripped).eraseDups) (hactors : plan.actors = catalog.actorPlans) (habout : scanned.map VideoPlan.about = catalog.videoIds.map catalog.entry)
    (hentries : plan.videos.map VideoPlan.entry = (scanned.map (markDuplicateDestinationConflicts records)).map VideoPlan.entry) :
    Complete names ⟨plan, record, asked, listed⟩ := by
  have hplan : plan.videos.map VideoPlan.about = catalog.videoIds.map catalog.entry := by
    have hsame := congrArg (List.map fun x : String × List String × List MoveCandidate => (x.1, x.2.1)) hentries
    rw [List.map_map, List.map_map, List.map_map] at hsame
    exact hsame.trans habout
  have hids : plan.videos.map (·.videoId) = catalog.videoIds := by
    have hfst := congrArg (List.map Prod.fst) hplan
    rw [List.map_map, List.map_map] at hfst
    exact hfst.trans (List.map_id _)
  refine ⟨?_, ?_, ?_, fun videoId => ?_, fun v hv => ?_⟩
  · rw [hactors, hheard.actors, hasked]
  · rw [hactors, hheard.actors]
  · rw [hids]
    exact sortedSet_sorted _
  · rw [hids, hheard.mem_videoIds]
  · obtain ⟨videoId, -, hentry⟩ := List.mem_map.1 (hplan ▸ List.mem_map_of_mem (f := VideoPlan.about) hv)
    obtain ⟨rfl, hv'⟩ : videoId = v.videoId ∧ catalog.actorsOf videoId = v.actorIds := Prod.ext_iff.1 hentry
    rw [← hv']
    exact ⟨sortedSet_sorted _, fun actorId => hheard.mem_actorsOf⟩

/-- What a scan stores. -/
theorem wp_createPlan_plan {actorIds : List String} (hasked : w.asked = actorIds) (hw : w.listed = []) (planId revision : Option String) :
    (svc.createPlan actorIds planId revision).wp (live settings) (StoresOnly fun s => Complete svc.names s ∧ Apart s)
      (fun _ _ => True) (fun _ _ => True) w := by
  refine (wp_bind _ _).2 (wp_mono (wp_scanning_frame _ _) (fun rt w₁ h₁ => ?_) fun _ _ _ => trivial)
  cases hvalid : validateActorIds svc.maxActors actorIds with
  | error e => trivial
  | ok normalized =>
    have hw₁ := h₁.2.2.trans hw
    refine (wp_bind _ _).2 (wp_mono (wp_listActors normalized _ hw₁) (fun catalog w₂ hlisting => ?_) fun _ _ _ => trivial)
    have hassemble : Under (fun _ => True) (svc.assemble catalog planId revision) fun r =>
        r.1.actors = catalog.actorPlans ∧ ∃ scanned : List VideoPlan,
          scanned.map VideoPlan.about = catalog.videoIds.map catalog.entry ∧
          r.1.videos.map VideoPlan.entry = (scanned.map (markDuplicateDestinationConflicts r.2)).map VideoPlan.entry := by
      refine .bind (under_scanLibrary_entries catalog) fun r hr => ?_
      exact .after _ fun _ => .after _ fun _ => .after _ fun _ => .after _ fun _ => .pure ⟨rfl, hr⟩
    refine (wp_bind _ _).2 (wp_mono (wp_and (wp_scanning_frame _ _) (wp_scanning hassemble.always)) ?_ fun _ _ _ => trivial)
    rintro ⟨plan, records⟩ w₃ ⟨⟨-, hasked₃, hlisted⟩, hactors, scanned, habout, hentries⟩
    refine (wp_bind _ _).2 (wp_mono (wp_scanning_frame _ _) (fun rt' w₄ h₄ => ?_) fun _ _ _ => trivial)
    refine wp_ite (fun _ => trivial) fun _ => ?_
    cases hmake : PlanRecord.make (plan.stored svc.content) records rt.version with
    | error e => trivial
    | ok record =>
      obtain ⟨hcandidates, -⟩ := PlanRecord.make_ok hmake
      refine (wp_bind _ _).2 ((wp_call _).2 ⟨⟨?_, ?_⟩, fun _ w₅ _ => ?_, fun _ _ _ => trivial⟩)
      · have heach : w₂.listed.map (·.1) = normalized := by simpa using hlisting.each
        rw [h₄.2.1, h₄.2.2, hasked₃, hlisted, hlisting.asked, h₁.2.1, hasked]
        exact complete_of_entries hlisting.heard (heach.trans (validateActorIds_ok hvalid)) hactors habout hentries
      · exact apart_of_mark (hcandidates ▸ hentries)
      · exact (wp_bind _ _).2 (wp_mono (wp_scanning_frame _ _) (fun _ _ _ => trivial) fun _ _ _ => trivial)

/-- Every stored plan has one entry for each actor its scan was asked for, and one for each video of the
listings it was told, with exactly the actors that list it. -/
theorem Scans.complete (h : Scans svc settings w) : ∀ s ∈ w.saved, Complete svc.names s :=
  fun s hs => (h.stored (fun _ _ planId revision hasked hw => wp_createPlan_plan hasked hw planId revision) s hs).1

theorem sample_complete : sampleEnd.saved.map (fun s => (s.asked, s.plan.actors.map (·.actorId), s.plan.videos.map (·.videoId))) =
      [([" a "], ["a"], ["AB-1", "AB-2"])] ∧
    ∀ s ∈ sampleEnd.saved, Complete sampleService.names s :=
  ⟨by decide, sampleScans.complete⟩

/-- No two candidates of a stored plan end up in one place without both being shown as conflicts. -/
theorem Scans.unflagged_apart (h : Scans svc settings w) : ∀ s ∈ w.saved, Apart s :=
  fun s hs => (h.stored (fun _ _ planId revision hasked hw => wp_createPlan_plan hasked hw planId revision) s hs).2

theorem sample_unflagged_apart :
    sampleEnd.saved.map (fun s => s.plan.videos.flatMap fun v => v.moveCandidates.map (·.destinationConflict)) = [[false]] ∧
      ∀ s ∈ sampleEnd.saved, Apart s :=
  ⟨by decide, sampleScans.unflagged_apart⟩

end runs

end EmbyxManager.FillActor.Scan
