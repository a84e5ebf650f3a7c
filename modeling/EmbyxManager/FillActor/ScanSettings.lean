import EmbyxManager.FillActor.Scan
/-!
# The settings behind a plan

A scan reads its settings many times, and a new configuration can be saved between any two
of the reads. The plan it stores is still the product of one configuration: the one whose
version it is stored under (`Scans.one_configuration`).
-/

namespace EmbyxManager.FillActor.Scan

open Atom Prog
open Local (pathName)

/-! ## Under one configuration -/

/-- Every read of the settings answers some that `S` holds of; nothing else is known. -/
def reading (S : FillActorRuntime → Prop) : Env Res Exc Unit := fun _ op r _ => ∀ h : op = .runtime, ∃ rt, S rt ∧ h ▸ r = .ok rt

/-- What the program returns under such settings, if it returns. -/
def Under {α : Type} (S : FillActorRuntime → Prop) (p : M α) (Q : α → Prop) : Prop :=
  p.wp (reading S) (fun _ _ => True) (fun a _ => Q a) (fun _ _ => True) ()

namespace Under
variable {α β γ : Type} {S : FillActorRuntime → Prop} {rt : FillActorRuntime} {Q : α → Prop}

theorem pure {a : α} (h : Q a) : Under S (Pure.pure a : M α) Q := h

theorem raise (e : Exc) : Under S (Prog.raise e : M α) Q := trivial

theorem any (p : M α) : Under S p fun _ => True := wp_trivial p

theorem mono {p : M α} {Q' : α → Prop} (h : Under S p Q) (hQ : ∀ a, Q a → Q' a) : Under S p Q' :=
  wp_mono h (fun a _ => hQ a) fun _ _ h => h

theorem bind {p : M α} {f : α → M β} {Q' : β → Prop} (h : Under S p Q) (hf : ∀ a, Q a → Under S (f a) Q') :
    Under S (p >>= f) Q' :=
  (wp_bind p f).2 (wp_mono h (fun a _ => hf a) fun _ _ h => h)

/-- Where nothing is known of what comes first. -/
theorem after (p : M α) {f : α → M β} {Q' : β → Prop} (hf : ∀ a, Under S (f a) Q') : Under S (p >>= f) Q' :=
  (any p).bind fun a _ => hf a

theorem attempt {p : M α} (h : Under S p Q) : Under S p.attempt fun r => ∀ a, r = .ok a → Q a := by
  refine (wp_attempt p).2 (wp_mono h (fun a _ ha => ?_) fun e _ _ => ?_)
  · rintro _ ⟨⟩
    exact ha
  · rintro _ ⟨⟩

theorem ite {c : Prop} [Decidable c] {p q : M α} (hp : c → Under S p Q) (hq : ¬c → Under S q Q) :
    Under S (if c then p else q) Q :=
  wp_ite hp hq

theorem foldEach {f : γ → β → M γ} {xs : List β} {acc : γ} (I : γ → Prop) (hacc : I acc)
    (hf : ∀ acc, I acc → ∀ x ∈ xs, Under S (f acc x) I) : Under S (Prog.foldEach xs acc f) I := by
  refine wp_foldEach (fun ys acc _ => ys ⊆ xs ∧ I acc) ?_ (fun _ _ h => h.2) ⟨List.Subset.refl xs, hacc⟩
  rintro x ys acc - ⟨hsub, hI⟩
  refine wp_mono (hf acc hI x (hsub List.mem_cons_self)) (fun acc' _ h => ⟨fun y hy => hsub (List.mem_cons_of_mem x hy), h⟩) ?_
  exact fun _ _ h => h

/-- The loop rule, with what is left to go through. -/
theorem foldList {f : γ → β → M γ} {xs : List β} {acc : γ} (I : List β → γ → Prop) (hacc : I xs acc)
    (hf : ∀ x xs acc, I (x :: xs) acc → Under S (f acc x) (I xs)) : Under S (Prog.foldEach xs acc f) (I []) :=
  wp_foldEach (fun ys acc _ => I ys acc) (fun x xs acc _ h => hf x xs acc h) (fun _ _ h => h) hacc

theorem orRaise {e : Exc} {a : Option α} (h : ∀ b, a = some b → Q b) : Under S (Scan.orRaise e a) Q := by
  cases a with
  | none => trivial
  | some b => exact h b rfl

theorem runtime {Q : FillActorRuntime → Prop} (h : Q rt) : Under (· = rt) Scan.runtime Q := by
  refine (wp_call _).2 ⟨trivial, fun a _ hr => ?_, fun _ _ _ => trivial⟩
  obtain ⟨_, rfl, ha⟩ := hr rfl
  obtain rfl := Except.ok.inj ha
  exact h

theorem paths {Q : FillActorPaths → Prop} (h : ∀ ps, rt.paths = some ps → Q ps) : Under (· = rt) Scan.paths Q :=
  bind (runtime rfl) fun _ ha => ha ▸ orRaise h

theorem cloudMovePaths {Q : CloudMovePaths → Prop} (h : ∀ cp, rt.cloudMovePaths = some cp → Q cp) : Under (· = rt) Scan.cloudMovePaths Q :=
  bind (runtime rfl) fun _ ha => ha ▸ orRaise h

theorem additionalBrandPath {index : Nat} {Q : String → Prop}
    (h : ∀ ps root, rt.paths = some ps → ps.additionalBrandPaths[index]? = some root → Q root) :
    Under (· = rt) (Scan.additionalBrandPath index) Q :=
  bind (paths fun _ hps => hps) fun ps hps => orRaise fun root => h ps root hps

end Under

/-! ## What one configuration makes of a candidate -/

/-- A candidate as one configuration has it: found in a brand's directory under an additional root, and
to be moved to where that configuration moves it. -/
structure Configured (mover : Bool) (rt : FillActorRuntime) (ps : FillActorPaths) (brand : String) (index : Nat)
    (record : CandidateRecord) : Prop where
  configured : rt.paths = some ps
  safe : isSafeSegment brand = true
  root : ps.additionalBrandPaths[index]? = some record.sourceRoot
  source : ∃ name, record.source = pathJoin (pathJoin record.sourceRoot brand) name ∧ matchesVideoFileName name record.videoId = true
  destination : record.destination =
    pathJoin (if rt.moveInByBrand then pathJoin ps.moveInPath brand else ps.moveInPath) (pathName record.source)
  onDisk : record.cloud = none → (mover && rt.cloudMovePaths.isSome) = false
  atCloud : ∀ cloud, record.cloud = some cloud → mover = true ∧ ∃ cp root, rt.cloudMovePaths = some cp ∧
    cloud.destinationDir = pathJoin cp.moveInApiRoot brand ∧ cp.sourceApiRoots[index]? = some root ∧
    (relativeTo cloud.file.path root).isSome = true ∧ matchesVideoFileName cloud.file.name record.videoId = true

def AsConfigured (mover : Bool) (rt : FillActorRuntime) (record : CandidateRecord) : Prop :=
  ∃ ps brand index, Configured mover rt ps brand index record

section
variable {rt : FillActorRuntime} {ps : FillActorPaths} {names : Names} {mover : Bool} {brand videoId : String}

/-- A file of a video in a brand's directory. -/
def FileOf (root brand videoId path : String) : Prop :=
  ∃ name, path = pathJoin (pathJoin root brand) name ∧ matchesVideoFileName name videoId = true

/-- A file of a video under the additional root of an index. -/
def Additional (ps : FillActorPaths) (brand videoId : String) (x : Nat × String) : Prop :=
  ∃ root, ps.additionalBrandPaths[x.1]? = some root ∧ FileOf root brand videoId x.2

theorem under_findMatchingFiles (root : String) :
    Under (· = rt) (findMatchingFiles root brand videoId) fun found => ∀ path ∈ found, FileOf root brand videoId path := by
  unfold findMatchingFiles
  refine .after _ fun _ => .ite (fun _ => .pure (by simp)) fun _ => .after _ fun _ => .ite (fun _ => .raise _) fun _ => ?_
  refine .after _ fun _ => .ite (fun _ => .raise _) fun _ => .after _ fun _ => .ite (fun _ => .pure (by simp)) fun _ => ?_
  refine .after _ fun _ => .ite (fun _ => .pure (by simp)) fun _ => .after _ fun _ => .ite (fun _ => .raise _) fun _ => ?_
  refine .after _ fun _ => .ite (fun _ => .raise _) fun _ => .after _ fun entries => ?_
  refine .bind (.foldEach (fun found => ∀ ns ∈ found, ∀ name ∈ ns, matchesVideoFileName name videoId = true) ?_ ?_) ?_
  · rintro _ ⟨⟩ name hname
    cases hname
  · intro found hfound name _
    cases found with
    | none => exact .pure hfound
    | some found =>
      refine .after _ fun _ => .ite (fun _ => .pure (by simp)) fun _ => .after _ fun _ => .ite (fun _ => .pure hfound) fun _ => ?_
      refine .after _ fun _ => .ite (fun _ => .pure hfound) fun _ => .ite (fun hmatch => .pure ?_) fun _ => .pure hfound
      rintro _ ⟨⟩ n hn
      rcases List.mem_append.1 hn with hn | hn
      · exact hfound found rfl n hn
      · exact List.mem_singleton.1 hn ▸ hmatch
  · intro found hfound
    refine .pure fun path hpath => ?_
    obtain ⟨name, hname, rfl⟩ := List.mem_map.1 hpath
    rw [List.mem_insertionSort] at hname
    cases found with
    | none => cases hname
    | some found => exact ⟨name, rfl, hfound found rfl name hname⟩

theorem under_findAdditionalFiles (hps : rt.paths = some ps) :
    Under (· = rt) (findAdditionalFiles brand videoId) fun found => ∀ x ∈ found, Additional ps brand videoId x := by
  refine .bind (.paths fun ps' hps' => Option.some.inj (hps'.symm.trans hps)) fun ps' hps' => ?_
  subst hps'
  refine .bind (.foldEach (fun found => ∀ xs ∈ found, ∀ x ∈ xs, Additional ps' brand videoId x) ?_ ?_) ?_
  · rintro _ ⟨⟩ x hx
    cases hx
  · rintro found hfound ⟨root, index⟩ hroot
    cases found with
    | none => exact .pure hfound
    | some found =>
      refine .after _ fun _ => .ite (fun _ => .pure (by simp)) fun _ => .bind (under_findMatchingFiles root) fun matching hmatching => .pure ?_
      rintro _ ⟨⟩ x hx
      rcases List.mem_append.1 hx with hx | hx
      · exact hfound found rfl x hx
      · obtain ⟨path, hpath, rfl⟩ := List.mem_map.1 hx
        exact ⟨root, List.mk_mem_zipIdx_iff_getElem?.1 hroot, hmatching path hpath⟩
  · intro found hfound
    refine .pure fun x hx => ?_
    rw [List.mem_insertionSort] at hx
    cases found with
    | none => cases hx
    | some found => exact hfound found rfl x hx

theorem under_destinationRoot (hps : rt.paths = some ps) :
    Under (· = rt) (destinationRoot brand) fun root => root = if rt.moveInByBrand then pathJoin ps.moveInPath brand else ps.moveInPath := by
  refine .bind (.runtime rfl) fun rt' hrt => .bind (.paths fun ps' hps' => Option.some.inj (hps'.symm.trans hps)) fun ps' hps' => .pure ?_
  rw [hrt, hps']

theorem under_additionalBrandPath {index : Nat} {root : String} (hps : rt.paths = some ps)
    (hroot : ps.additionalBrandPaths[index]? = some root) : Under (· = rt) (additionalBrandPath index) (· = root) :=
  .additionalBrandPath fun ps' root' hps' hroot' => by
    obtain rfl := Option.some.inj (hps'.symm.trans hps)
    exact Option.some.inj (hroot'.symm.trans hroot)

theorem under_localCandidate (hps : rt.paths = some ps) (hbrand : isSafeSegment brand = true)
    (hlocal : (mover && rt.cloudMovePaths.isSome) = false) {f : Found} (hf : ∀ record ∈ f.records, AsConfigured mover rt record)
    {x : Nat × String} (hx : Additional ps brand videoId x) :
    Under (· = rt) (localCandidate videoId brand f x) fun f => ∀ record ∈ f.records, AsConfigured mover rt record := by
  obtain ⟨root, hroot, name, hname, hmatch⟩ := hx
  refine .after _ fun candidateId => .bind (under_destinationRoot hps) fun destinationRoot hdestination => ?_
  refine .bind (under_additionalBrandPath hps hroot) fun sourceRoot hsource => .after _ fun _ => .after _ fun _ => .after _ fun _ => .pure ?_
  intro record hrecord
  rcases List.mem_append.1 hrecord with hrecord | hrecord
  · exact hf record hrecord
  · obtain rfl := List.mem_singleton.1 hrecord
    subst hsource hdestination
    refine ⟨ps, brand, x.1, hps, hbrand, hroot, ⟨name, hname, hmatch⟩, rfl, fun _ => hlocal, ?_⟩
    rintro cloud ⟨⟩

theorem strmTarget_under {cloud : CloudMovePaths} {root : String} {payload : Payload} {parsed : ParsedStrmTarget}
    (h : strmTarget names cloud root payload = .ok parsed) : (relativeTo parsed.apiPath root).isSome = true := by
  unfold strmTarget at h
  split at h
  · cases h
  · split at h
    · cases h
    · split at h
      · cases h
      · split at h
        · cases h
        · split at h
          · cases h
          · split at h
            · cases h
            · dsimp only at h
              split at h
              · cases h
              · rename_i hroot
                obtain rfl := Except.ok.inj h
                simpa [Option.isSome_iff_ne_none] using hroot
    · cases h

theorem under_parseMapping {cloud : CloudMovePaths} (mappingPath : String) (index : Nat) :
    Under (· = rt) (parseMapping names cloud mappingPath index) fun parsed =>
      ∃ root, cloud.sourceApiRoots[index]? = some root ∧ (relativeTo parsed.apiPath root).isSome = true := by
  unfold parseMapping
  cases hroot : cloud.sourceApiRoots[index]? with
  | none => exact .raise _
  | some root =>
    refine .after _ fun payload => ?_
    rcases payload with (_ | _ | _ | _ | _ | _ | _ | _ | _ | _) | payload
    all_goals try exact .raise _
    dsimp only
    cases hparsed : strmTarget names cloud root payload with
    | error e => exact .raise e
    | ok parsed => exact .pure ⟨root, rfl, strmTarget_under hparsed⟩

theorem under_cloudFileCached (apiPath : String) :
    Under (· = rt) (cloudFileCached mover apiPath) fun file => ∀ f, file = some f → f.path = apiPath := by
  refine .after _ fun listing => .pure ?_
  intro f hf
  simpa using List.find?_some hf

/-- What `_cloud_mode` and a destination under the configuration say of a video's candidates. -/
structure CloudMode (rt : FillActorRuntime) (mover : Bool) (brand destinationDir : String) (cp : CloudMovePaths) : Prop where
  mover : mover = true
  configured : rt.cloudMovePaths = some cp
  destination : destinationDir = pathJoin cp.moveInApiRoot brand

theorem under_takeCloudFile {cp : CloudMovePaths} {destinationDir root : String} (hps : rt.paths = some ps)
    (hbrand : isSafeSegment brand = true) (hmode : CloudMode rt mover brand destinationDir cp) (conflict : Bool) {f : Found}
    (hf : ∀ record ∈ f.records, AsConfigured mover rt record) {x : Nat × String} (hx : Additional ps brand videoId x)
    {parsed : ParsedStrmTarget} {file : CloudFileMetadata} (hroot : cp.sourceApiRoots[x.1]? = some root)
    (hunder : (relativeTo parsed.apiPath root).isSome = true) (hfile : file.path = parsed.apiPath) :
    Under (· = rt) (takeCloudFile videoId brand destinationDir conflict f x parsed file) fun f =>
      ∀ record ∈ f.records, AsConfigured mover rt record := by
  obtain ⟨sourceRoot, hsourceRoot, name, hname, hmatch⟩ := hx
  refine .ite (fun _ => .pure hf) fun hfileName => .after _ fun candidateId => ?_
  refine .bind (under_destinationRoot hps) fun destinationRoot hdestination => ?_
  refine .bind (under_additionalBrandPath hps hsourceRoot) fun sourceRoot' hsource => .after _ fun _ => .after _ fun _ => .pure ?_
  intro record hrecord
  rcases List.mem_append.1 hrecord with hrecord | hrecord
  · exact hf record hrecord
  · obtain rfl := List.mem_singleton.1 hrecord
    subst hsource hdestination
    refine ⟨ps, brand, x.1, hps, hbrand, hsourceRoot, ⟨name, hname, hmatch⟩, rfl, ?_, ?_⟩
    · rintro ⟨⟩
    · rintro cloud ⟨⟩
      exact ⟨hmode.mover, cp, root, hmode.configured, hmode.destination, hroot, hfile ▸ hunder, by simpa using hfileName⟩

theorem under_cloudCandidate {cp : CloudMovePaths} {destinationDir : String} (hps : rt.paths = some ps)
    (hbrand : isSafeSegment brand = true) (hmode : CloudMode rt mover brand destinationDir cp)
    (destinationListing : Option (List CloudFileMetadata)) {f : Found} (hf : ∀ record ∈ f.records, AsConfigured mover rt record)
    {x : Nat × String} (hx : Additional ps brand videoId x) :
    Under (· = rt) (cloudCandidate names mover videoId brand destinationDir destinationListing f x) fun f =>
      ∀ record ∈ f.records, AsConfigured mover rt record := by
  unfold cloudCandidate
  refine .ite (fun _ => .pure hf) fun _ => ?_
  refine .bind (.cloudMovePaths fun cp' hcp' => Option.some.inj (hcp'.symm.trans hmode.configured)) fun cp' hcp' => ?_
  subst hcp'
  refine .bind (under_parseMapping x.2 x.1).attempt fun r hr => ?_
  rcases r with (_ | _ | _ | _ | _ | _ | _ | _ | _ | _) | parsed
  case ok =>
    obtain ⟨root, hroot, hunder⟩ := hr parsed rfl
    refine .bind (under_cloudFileCached parsed.apiPath) fun cloudFile hfile => ?_
    cases cloudFile with
    | none =>
      cases findCloudFile (pathJoin destinationDir (pathName parsed.apiPath)) destinationListing with
      | none => exact .pure hf
      | some file => exact .pure hf
    | some file => exact under_takeCloudFile hps hbrand hmode _ hf hx hroot hunder (hfile file rfl)
  -- a mapping that names nothing is a warning, and anything else is raised
  case error.invalidStrmTarget => exact .pure hf
  case error.value => exact .pure hf
  all_goals exact .raise _

theorem under_createCloudVideoPlan (hps : rt.paths = some ps) (hbrand : isSafeSegment brand = true) (hmover : mover = true)
    (actorIds : List String) {additional : List (Nat × String)} (hadditional : ∀ x ∈ additional, Additional ps brand videoId x) :
    Under (· = rt) (createCloudVideoPlan names mover videoId actorIds brand additional) fun r =>
      ∀ record ∈ r.2.1, AsConfigured mover rt record := by
  refine .after _ fun _ => .ite (fun _ => .raise _) fun _ => .bind (.cloudMovePaths fun cp hcp => hcp) fun cp hcp => ?_
  refine .bind (Q := fun dir => dir = pathJoin cp.moveInApiRoot brand) ?_ fun destinationDir hdir => .after _ fun listing => ?_
  · unfold destinationDirectory
    rw [hbrand]
    exact .pure rfl
  · have hmode : CloudMode rt mover brand destinationDir cp := ⟨hmover, hcp, hdir⟩
    refine .bind (.foldEach (fun f => ∀ record ∈ f.records, AsConfigured mover rt record) (fun _ h => absurd h List.not_mem_nil)
      fun f hf x hx => under_cloudCandidate hps hbrand hmode listing hf (hadditional x hx)) fun found hfound => ?_
    refine .ite (fun _ => .pure hfound) fun _ => .ite (fun _ => .pure ?_) fun _ => .pure ?_
    · exact fun _ h => absurd h List.not_mem_nil
    · exact fun _ h => absurd h List.not_mem_nil

theorem under_createVideoPlan (actorIds : List String) :
    Under (· = rt) (createVideoPlan names mover videoId actorIds) fun r => ∀ record ∈ r.2.1, AsConfigured mover rt record := by
  have hnone : ∀ record ∈ ([] : List CandidateRecord), AsConfigured mover rt record := fun _ h => absurd h List.not_mem_nil
  refine .after _ fun answer => .ite (fun _ => .pure hnone) fun hbrand => ?_
  have hbrand : isSafeSegment (Option.getD answer "") = true := by simpa using hbrand
  refine .bind (.paths fun ps hps => hps) fun ps hps => .after _ fun existing => .ite (fun _ => .pure hnone) fun _ => ?_
  refine .bind (under_findAdditionalFiles hps) fun additional hadditional => .ite (fun _ => .pure hnone) fun _ => ?_
  refine .bind (.runtime rfl) fun rt' hrt => ?_
  subst hrt
  refine .ite (fun hmode => ?_) fun hmode => ?_
  · exact under_createCloudVideoPlan hps hbrand (Bool.and_eq_true_iff.1 hmode).1 actorIds hadditional
  · have hlocal : (mover && rt.cloudMovePaths.isSome) = false := by simpa using hmode
    refine .bind (.foldEach (fun f => ∀ record ∈ f.records, AsConfigured mover rt record) (fun _ h => absurd h List.not_mem_nil)
      fun f hf x hx => under_localCandidate hps hbrand hlocal hf (hadditional x hx)) fun found hfound => .pure hfound

theorem mem_putRecord {records : List CandidateRecord} {record r : CandidateRecord} (h : r ∈ putRecord records record) :
    r = record ∨ r ∈ records := by
  unfold putRecord at h
  split at h
  · obtain ⟨r', hr', rfl⟩ := List.mem_map.1 h
    split
    · exact .inl rfl
    · exact .inr hr'
  · exact (List.mem_append.1 h).symm.imp_left List.mem_singleton.1

theorem mem_foldl_putRecord {new records : List CandidateRecord} {r : CandidateRecord} (h : r ∈ new.foldl putRecord records) :
    r ∈ new ∨ r ∈ records := by
  induction new generalizing records with
  | nil => exact .inr h
  | cons record new ih =>
    rcases ih h with h | h
    · exact .inl (List.mem_cons_of_mem _ h)
    · rcases mem_putRecord h with rfl | h
      · exact .inl List.mem_cons_self
      · exact .inr h

theorem under_scanLibrary (svc : Service) (catalog : Catalog) :
    Under (· = rt) (svc.scanLibrary catalog) fun r => ∀ record ∈ r.2, AsConfigured svc.mover rt record := by
  refine .after _ fun _ => .bind (.foldEach (fun s => ∀ record ∈ s.records, AsConfigured svc.mover rt record)
    (fun _ h => absurd h List.not_mem_nil) fun s hs x _ => ?_) fun scanned hscanned => .after _ fun _ => .after _ fun _ => .pure hscanned
  refine .bind (under_createVideoPlan _).attempt fun r hr => ?_
  have hnext : ∀ next : Scanned, (∀ record ∈ next.records, AsConfigured svc.mover rt record) → Under (· = rt) (do
      report ⟨.libraryScan, x.2 + 1, some catalog.videoIds.length, .videos, some x.1⟩
      pure next) fun s => ∀ record ∈ s.records, AsConfigured svc.mover rt record := fun _ h => .after _ fun _ => .pure h
  cases r with
  | error e => exact .bind (.pure hs) hnext
  | ok r =>
    refine .bind (.pure fun record hrecord => ?_) hnext
    rcases mem_foldl_putRecord hrecord with h | h
    · exact hr r rfl record h
    · exact hs record h

end

theorem PlanRecord.make_ok {plan : FillActorPlan} {records : List CandidateRecord} {version : Nat} {record : PlanRecord}
    (h : PlanRecord.make plan records version = .ok record) : record.candidates = records ∧ record.configVersion = version := by
  unfold PlanRecord.make at h
  split at h
  · obtain rfl := Except.ok.inj h
    exact ⟨rfl, rfl⟩
  · cases h

/-! ## While configurations are saved -/

/-- A stored plan, with the actors that the scan it is from was asked for and what the catalog has told it. -/
structure Stored where
  plan : Plan
  record : PlanRecord
  asked : List String
  listed : List (String × Except Exc CatalogListing)

/-- The version of the settings in force, the actors that the scan that runs was asked for, what the
catalog has told it, and the plans that have been stored. -/
structure World where
  version : Nat
  asked : List String
  listed : List (String × Except Exc CatalogListing)
  saved : List Stored

/-- The settings of a version. -/
def runtimeOf (settings : Nat → FillActorRuntime) (version : Nat) : FillActorRuntime := { settings version with version }

/-- What an action of a library scan may answer: the settings are those of a version, and no earlier one than
before. That versions never go back is assumed of the handle; two refreshes that cross at the store break it. -/
def looking (settings : Nat → FillActorRuntime) : Env Res Exc World := fun w op r w' =>
  w.version ≤ w'.version ∧ w'.asked = w.asked ∧ w'.listed = w.listed ∧ w'.saved = w.saved ∧
    ∀ h : op = .runtime, h ▸ r = .ok (runtimeOf settings w'.version)

def live (settings : Nat → FillActorRuntime) : Env PlanRes Exc World := fun w op r w' =>
  match op, r with
  | .scan op, r => looking settings w op r w'
  | .listVideos actorId, (r : Except Exc CatalogListing) =>
      w.version ≤ w'.version ∧ w'.asked = w.asked ∧ w'.listed = w.listed ++ [(actorId, r)] ∧ w'.saved = w.saved
  | .savePlan plan record, .ok _ => w.version ≤ w'.version ∧ w'.asked = w.asked ∧ w'.listed = w.listed ∧
      w'.saved = ⟨plan, record, w.asked, w.listed⟩ :: w.saved
  | .savePlan plan record, .error _ => w.version ≤ w'.version ∧ w'.asked = w.asked ∧ w'.listed = w.listed ∧
      (w'.saved = w.saved ∨ w'.saved = ⟨plan, record, w.asked, w.listed⟩ :: w.saved)

/-- Every candidate of a plan is as the configuration of the plan's version has it. -/
def OneConfiguration (mover : Bool) (settings : Nat → FillActorRuntime) (record : PlanRecord) : Prop :=
  ∀ c ∈ record.candidates, AsConfigured mover (runtimeOf settings record.configVersion) c

/-- Scans one after the other, each stopped after any action, while configurations are saved. -/
inductive Scans (svc : Service) (settings : Nat → FillActorRuntime) : World → Prop where
  | start {version : Nat} : Scans svc settings ⟨version, [], [], []⟩
  | scan {w w' : World} (actorIds : List String) (planId revision : Option String) : Scans svc settings w →
      Stops (live settings) { w with asked := actorIds, listed := [] } (svc.createPlan actorIds planId revision) w' → Scans svc settings w'

section live
variable {settings : Nat → FillActorRuntime} {svc : Service} {w w' : World}

/-- A plan is stored only if it is as `P` says. -/
def StoresOnly (P : Stored → Prop) (w : World) : PlanOp → Prop
  | .savePlan plan record => P ⟨plan, record, w.asked, w.listed⟩
  | _ => True

theorem saved_of_live {op : PlanOp} {r : Except Exc (PlanRes op)} (h : live settings w op r w') :
    w'.saved = w.saved ∨ ∃ plan record, op = .savePlan plan record ∧ w'.saved = ⟨plan, record, w.asked, w.listed⟩ :: w.saved := by
  cases op with
  | scan op => exact .inl h.2.2.2.1
  | listVideos actorId => exact .inl h.2.2.2
  | savePlan plan record =>
    cases r with
    | ok a => exact .inr ⟨plan, record, rfl, h.2.2.2⟩
    | error e => exact h.2.2.2.imp_right fun hs => ⟨plan, record, rfl, hs⟩

/-- What every scan stores, in whatever world it starts, is all there ever is. -/
theorem Scans.stored {P : Stored → Prop} (hscan : ∀ (w : World) actorIds planId revision, w.asked = actorIds → w.listed = [] →
      (svc.createPlan actorIds planId revision).wp (live settings) (StoresOnly P) (fun _ _ => True) (fun _ _ => True) w)
    (h : Scans svc settings w) : ∀ s ∈ w.saved, P s := by
  induction h with
  | start => exact fun _ h => absurd h List.not_mem_nil
  | scan actorIds planId revision _ hstops ih =>
    refine wp_stops (I := fun w => ∀ s ∈ w.saved, P s) ?_ (hscan _ actorIds planId revision rfl rfl) ih hstops
    intro w₁ op r w₂ hI hguard ht
    rcases saved_of_live ht with he | ⟨plan, record, rfl, he⟩
    · exact he ▸ hI
    · rw [he]
      intro s hs
      rcases List.mem_cons.1 hs with rfl | hs
      · exact hguard
      · exact hI s hs

theorem wp_scanning {α : Type} {p : M α} {P : Stored → Prop} {Q : α → World → Prop} {X : Exc → World → Prop}
    (h : p.wp (looking settings) (fun _ _ => True) Q X w) : (scanning p).wp (live settings) (StoresOnly P) Q X w :=
  wp_handle (fun _ _ _ => (wp_call _).2 ⟨trivial, fun _ _ ht => ht, fun _ _ ht => ht⟩) h

/-- What the library scan leaves as it was. -/
theorem wp_scanning_frame {α : Type} (p : M α) (P : Stored → Prop) :
    (scanning p).wp (live settings) (StoresOnly P)
      (fun _ w' => w.version ≤ w'.version ∧ w'.asked = w.asked ∧ w'.listed = w.listed) (fun _ _ => True) w := by
  have hkeeps := keeps_of_uses (T := looking settings) (G := fun _ _ => True)
    (I := fun w' : World => w.version ≤ w'.version ∧ w'.asked = w.asked ∧ w'.listed = w.listed) (uses_any p) (fun _ _ _ _ => trivial)
    (fun w₁ _ _ w₂ _ h ht => ⟨h.1.trans ht.1, ht.2.1.trans h.2.1, ht.2.2.1.trans h.2.2⟩) w ⟨Nat.le_refl _, rfl, rfl⟩
  exact wp_scanning (wp_mono hkeeps (fun _ _ h => h) fun _ _ _ => trivial)

/-- What a program returns under one configuration it has returned, unless another has been saved since. -/
theorem Under.looking {α : Type} {p : M α} {Q : α → Prop} (h : Under (· = runtimeOf settings w.version) p Q) :
    p.wp (looking settings) (fun _ _ => True) (fun a w' => w.version ≤ w'.version ∧ (w.version < w'.version ∨ Q a))
      (fun _ _ => True) w := by
  have hunless := wp_unless (fun _ : World => ()) (J := fun w' : World => w.version ≤ w'.version) (L := fun w' : World => w.version < w'.version)
    (U := Scan.looking settings) (fun w₁ op r w₂ hw ht => hw.trans ht.1) (fun w₁ op r w₂ _ hw ht => hw.trans_le ht.1) ?_
    (Nat.le_refl _) (.inr h)
  · exact wp_env (wp_mono hunless (fun _ _ h => h) fun _ _ _ => trivial) (fun _ _ _ _ ht => ht) fun _ _ _ => trivial
  · intro w₁ op r w₂ hw ht
    rcases Nat.lt_or_ge w.version w₂.version with hlt | hge
    · exact .inl hlt
    · refine .inr fun hop => ?_
      have hversion : w₂.version = w.version := Nat.le_antisymm hge (hw.trans ht.1)
      rw [← hversion]
      exact ⟨_, rfl, ht.2.2.2.2 hop⟩

/-- What a program returns under any settings. -/
theorem Under.always {α : Type} {p : M α} {Q : α → Prop} (h : Under (fun _ => True) p Q) :
    p.wp (Scan.looking settings) (fun _ _ => True) (fun a _ => Q a) (fun _ _ => True) w :=
  wp_through (fun _ : World => ()) (fun _ _ _ _ ht hop => ⟨_, trivial, ht.2.2.2.2 hop⟩) h

theorem listActors_version (actorIds : List String) (P : Stored → Prop) :
    (svc.listActors actorIds).wp (live settings) (StoresOnly P) (fun _ w' => w.version ≤ w'.version) (fun _ _ => True) w := by
  refine (wp_bind _ _).2 (wp_mono (wp_scanning_frame _ P) ?_ fun _ _ _ => trivial)
  rintro _ w₁ ⟨hle, -⟩
  refine wp_foldEach (fun _ _ (w' : World) => w.version ≤ w'.version) ?_ (fun _ _ h => h) hle
  intro x _ c w₂ hle
  refine (wp_bind _ _).2 ((wp_attempt _).2 ((wp_call _).2 ⟨trivial, fun listing w₃ ht => ?_, fun e w₃ ht => ?_⟩))
  all_goals
    cases svc.withListing c x.1 _ with
    | error e => trivial
    | ok next =>
      refine (wp_bind _ _).2 (wp_mono (wp_scanning_frame _ P) (fun _ w₄ h => ?_) fun _ _ _ => trivial)
      exact (hle.trans ht.1).trans h.1

/-- The version that is compared at the end is the one of the settings all along: had another
configuration been saved before that look, the look would have seen it. -/
theorem wp_createPlan_configuration (w : World) (actorIds : List String) (planId revision : Option String) :
    (svc.createPlan actorIds planId revision).wp (live settings) (StoresOnly fun s => OneConfiguration svc.mover settings s.record)
      (fun _ _ => True) (fun _ _ => True) w := by
  refine (wp_bind _ _).2 (wp_scanning ((wp_call _).2 ⟨trivial, fun rt w₁ hread => ?_, fun _ _ _ => trivial⟩))
  obtain rfl : rt = runtimeOf settings w₁.version := Except.ok.inj (hread.2.2.2.2 rfl)
  cases validateActorIds svc.maxActors actorIds with
  | error e => trivial
  | ok normalized =>
    refine (wp_bind _ _).2 (wp_mono (listActors_version normalized _) (fun catalog w₂ hle => ?_) fun _ _ _ => trivial)
    have hscan : Under (· = runtimeOf settings w₂.version) (svc.assemble catalog planId revision) fun r =>
        ∀ record ∈ r.2, AsConfigured svc.mover (runtimeOf settings w₂.version) record := by
      refine .bind (under_scanLibrary svc catalog) fun r hr => ?_
      exact .after _ fun _ => .after _ fun _ => .after _ fun _ => .after _ fun _ => .pure hr
    refine (wp_bind _ _).2 (wp_mono (wp_scanning hscan.looking) ?_ fun _ _ _ => trivial)
    rintro ⟨plan, records⟩ w₃ ⟨hle', hrecords⟩
    refine (wp_bind _ _).2 (wp_scanning ((wp_call _).2 ⟨trivial, fun rt' w₄ hread' => ?_, fun _ _ _ => trivial⟩))
    obtain rfl : rt' = runtimeOf settings w₄.version := Except.ok.inj (hread'.2.2.2.2 rfl)
    refine wp_ite (fun _ => trivial) fun hversion => ?_
    have hsame : w₄.version = w₁.version := by simpa [runtimeOf] using hversion
    have hlast := hread'.1
    have hrecords := hrecords.resolve_left (by omega)
    have hstart : w₂.version = w₁.version := by omega
    rw [hstart] at hrecords
    cases hmake : PlanRecord.make (plan.stored svc.content) records (runtimeOf settings w₁.version).version with
    | error e => trivial
    | ok record =>
      obtain ⟨hcandidates, hstored⟩ := PlanRecord.make_ok hmake
      refine (wp_bind _ _).2 ((wp_call _).2 ⟨?_, fun _ w₅ _ => ?_, fun _ _ _ => trivial⟩)
      · intro c hc
        rw [hstored]
        exact hrecords c (hcandidates ▸ hc)
      · exact (wp_bind _ _).2 (wp_mono (wp_scanning_frame _ _) (fun _ _ _ => trivial) fun _ _ _ => trivial)

/-- Every plan that is ever stored is the product of the one configuration whose version it carries. -/
theorem Scans.one_configuration (h : Scans svc settings w) : ∀ s ∈ w.saved, OneConfiguration svc.mover settings s.record :=
  h.stored fun w actorIds planId revision _ _ => wp_createPlan_configuration w actorIds planId revision

end live

/-! ## One actor with two videos -/

section sample

def sampleService : Service where
  names := ⟨id, id, id⟩
  mover := false
  maxActors := 20
  maxVideos := 2000
  planTtl := seconds 3600
  redact _ := none
  content _ := ""

def sampleSettings (_ : Nat) : FillActorRuntime :=
  { version := 0, paths := some ⟨"/actors", ["/more"], "/in"⟩, moveInByBrand := true, cloudMovePaths := none }

def sampleListing : CatalogListing := ⟨some "A", none, [], ["AB-2", "AB-1"], []⟩

/-- The library has neither video, the additional root has the first. -/
def sampleLook (w : World) : (op : Op) → Except Exc (Res op)
  | .runtime => .ok (runtimeOf sampleSettings w.version)
  | .stopRequested | .isSymlink _ | .hasSymlinkComponent .. | .pathExists _ => .ok false
  | .isFile _ | .isWithin .. => .ok true
  | .isDir path => .ok (path = "/actors" || path = "/more" || path = "/more/AB")
  | .resolveBrand _ => .ok (some "AB")
  | .iterdir _ => .ok ["AB-1.mp4", "AB-3.mp4"]
  | .fingerprint _ => .ok ⟨1, 2, 3, 4, 5⟩
  | .readBytes _ => .error .fileNotFound
  | .token => .ok "t"
  | .now => .ok (0 : Int)
  | .cached _ => .ok none
  | .listDirectory _ => .error .fileNotFound
  | .queueMissing videoIds _ => .ok (videoIds.map fun videoId => (videoId, .queued, none))
  | .progress _ | .keep .. => .ok ()

def sampleAnswer (w : World) : (op : PlanOp) → Except Exc (PlanRes op) × World
  | .scan op => (sampleLook w op, w)
  | .listVideos actorId => (.ok sampleListing, { w with listed := w.listed ++ [(actorId, .ok sampleListing)] })
  | .savePlan plan record => (.ok (), { w with saved := ⟨plan, record, w.asked, w.listed⟩ :: w.saved })

theorem sampleAnswer_live (w : World) (op : PlanOp) : live sampleSettings w op (sampleAnswer w op).1 (sampleAnswer w op).2 := by
  cases op with
  | scan op =>
    refine ⟨Nat.le_refl _, rfl, rfl, rfl, ?_⟩
    rintro rfl
    rfl
  | listVideos actorId => exact ⟨Nat.le_refl _, rfl, rfl, rfl⟩
  | savePlan plan record => exact ⟨Nat.le_refl _, rfl, rfl, rfl⟩

/-- The world after the scan. -/
def sampleEnd : World := (exec sampleAnswer ⟨7, [" a "], [], []⟩ (sampleService.createPlan [" a "] none none)).2

theorem sampleScans : Scans sampleService sampleSettings sampleEnd :=
  .scan [" a "] none none .start (exec_runs sampleAnswer_live _ _).stops

theorem sample_one_configuration :
    sampleEnd.saved.map (fun s => s.record.candidates.map (·.destination)) = [["/in/AB/AB-1.mp4"]] ∧
      ∀ s ∈ sampleEnd.saved, OneConfiguration sampleService.mover sampleSettings s.record :=
  ⟨by decide, sampleScans.one_configuration⟩

end sample

end EmbyxManager.FillActor.Scan
