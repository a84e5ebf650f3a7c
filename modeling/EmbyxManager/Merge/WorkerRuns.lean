import EmbyxManager.Merge.Worker
/-!
# What the merge worker leaves behind

The worker on a volume whose files its service may delete at any moment, and which any action
may fail on. A run may be killed between any two actions, and the next attempt starts on what
it left. The file under the final name is always a merge that passed its check
(`Attempts.output_checked`), ffmpeg only ever pairs streams that agree (`concat_linedUp`), and
a run that ends has said how (`run_reported`).
-/

namespace EmbyxManager.Merge.Worker

open Atom Prog

variable {C : Type}

/-- What ffprobe, `stat` and SHA-1 say of a file's content. -/
structure Media (C : Type) where
  ffprobe : C → FfprobeRun
  size : C → Nat
  sha1 : C → String

/-- The work volume, the process's status object, and what has been learned. -/
structure Volume (C : Type) where
  files : Path → Option C
  /-- The status file. -/
  status : Option Status
  object : StatusFile
  /-- What ffprobe has said of which file. -/
  probed : List (Path × FfprobeRun)
  /-- The process's runs of ffmpeg that have ended well. -/
  commands : List (List String)
  /-- What the process's concat script names. -/
  script : Option (List Path)

/-- What the world raises. -/
def Raised : Exc → Prop
  | .os _ | .other _ => True
  | _ => False

/-- The merge's own files may have been deleted, and any other file may have changed. -/
structure Thinned (output : Path) (v v' : Volume C) : Prop where
  files : ∀ p, p = output ∨ p = partialPath output → v'.files p = v.files p ∨ v'.files p = none
  status : v'.status = v.status ∨ v'.status = none
  object : v'.object = v.object
  probed : v'.probed = v.probed
  commands : v'.commands = v.commands
  script : v'.script = v.script

theorem Thinned.refl (output : Path) (v : Volume C) : Thinned output v v :=
  ⟨fun _ _ => .inl rfl, .inl rfl, rfl, rfl, rfl, rfl⟩

namespace Media

/-- A content that ffprobe reads like this. -/
def Reads (μ : Media C) (c : C) (p : Probe) : Prop := ∃ name, probe name (μ.ffprobe c) = .ok p

/-- What an action may answer. -/
def Answers (μ : Media C) (v : Volume C) : (op : Op) → Except Exc (Res op) → Volume C → Prop
  | .update force fields, r, v' => ∃ now,
      let next := v.object.update now force fields
      (v' = { v with object := next.1, status := next.2.or v.status } ∧ r = .ok ()) ∨
        v' = { v with object := next.1 } ∧ next.2 ≠ none ∧ ∃ e, r = .error e ∧ Raised e
  | .fileSize p, r, v' => v' = v ∧ (∀ n, r = .ok n → ∃ c, v.files p = some c ∧ n = μ.size c) ∧ ∀ e, r = .error e → Raised e
  | .ffprobe p, r, v' =>
      (∃ run, r = .ok run ∧ (run.returncode = 0 → ∃ c, v.files p = some c ∧ run = μ.ffprobe c) ∧
        v' = { v with probed := (p, run) :: v.probed }) ∨ v' = v ∧ ∃ e, r = .error e ∧ Raised e
  | .ffmpeg command p, r, v' =>
      (∀ q, q ≠ p → v'.files q = v.files q) ∧ v'.status = v.status ∧ v'.object = v.object ∧ v'.probed = v.probed ∧ v'.script = v.script ∧
        ((∃ run, r = .ok run ∧ run.returncode = 0) ∧ v'.commands = command :: v.commands ∨
          (¬∃ run, r = .ok run ∧ run.returncode = 0) ∧ v'.commands = v.commands) ∧ ∀ e, r = .error e → Raised e
  | .sha1 p, r, v' =>
      v' = v ∧ (∀ x, r = .ok x → ∃ c, v.files p = some c ∧ x.1 = μ.sha1 c) ∧ ∀ e, r = .error e → Raised e
  | .replace p q, r, v' =>
      (r = .ok () ∧ ∃ c, v.files p = some c ∧
        v' = { v with files := Function.update (Function.update v.files p none) q (some c) }) ∨
        v' = v ∧ ∃ e, r = .error e ∧ Raised e
  | .unlink p, r, v' =>
      (r = .ok () ∧ v' = { v with files := Function.update v.files p none }) ∨ v' = v ∧ ∃ e, r = .error e ∧ Raised e
  | .removeTree dir, r, v' =>
      r = .ok () ∧ (∀ p, v'.files p = v.files p ∨ dir <+: p ∧ v'.files p = none) ∧ v'.status = v.status ∧ v'.object = v.object ∧
        v'.probed = v.probed ∧ v'.commands = v.commands ∧ v'.script = v.script
  | .writeScript inputs _, r, v' =>
      (r = .ok () ∧ v' = { v with script := some inputs }) ∨ v' = { v with script := none } ∧ ∃ e, r = .error e ∧ Raised e
  | .memoryMax, r, v' | .freeSpace _, r, v' | .makeDir _, r, v' =>
      v' = v ∧ ∀ e, r = .error e → Raised e

/-- The same, on a volume where files may be deleted at any moment. -/
def world (μ : Media C) (output : Path) : Env Res Exc (Volume C) :=
  fun v op r v' => ∃ v₀, Thinned output v v₀ ∧ μ.Answers v₀ op r v'

end Media

/-! ## What ffmpeg copies -/

/-- The options that are followed by an argument. -/
def takesArgument (option : String) : Bool := option ∈ ["-loglevel", "-f", "-safe", "-i", "-map", "-c", "-progress"]

/-- The arguments of a command's `-map` options. -/
def mapped : List String → List String
  | option :: argument :: rest =>
    if option = "-map" then argument :: mapped rest
    else if takesArgument option then mapped rest
    else mapped (argument :: rest)
  | _ => []

/-- The kind of streams that an argument of `-map` takes from the one input; a question mark lets it have none. -/
def mappedKind (argument : String) : Option String :=
  if argument = "0:v" ∨ argument = "0:v?" then some "video"
  else if argument = "0:a" ∨ argument = "0:a?" then some "audio"
  else none

/-- The streams of one kind, in the file's order. -/
def Probe.ofKind (p : Probe) (kind : String) : List Stream := p.signature.filter (·.codecType = some kind)

/-- ffmpeg's stream copy: a command that ends well writes of a file what its `-map` options take from it, one
option after the other, and no other stream. -/
def Copies (writes : List String → Probe → List Stream) : Prop :=
  ∀ command p kinds, ["-c", "copy"] <:+: command → kinds ≠ [] → (mapped command).mapM mappedKind = some kinds →
    writes command p = kinds.flatMap p.ofKind

/-- What is mapped does not depend on the names in a command. -/
theorem mapped_remux (part file : Path) (muxer : String) :
    mapped (ffmpegCommand ["-i", shown part] muxer file) = ["0:v", "0:a?"] := by
  simp [ffmpegCommand, mapped, takesArgument]

theorem Probe.ofKind_video (p : Probe) : p.ofKind "video" = p.signature.filter (·.video) := rfl

theorem Probe.ofKind_audio (p : Probe) : p.ofKind "audio" = p.signature.filter (!·.video) := by
  refine List.filter_congr fun s hs => ?_
  have hmedia : s.video = true ∨ s.codecType = some "audio" := by simpa [Stream.media] using p.media s hs
  rcases hmedia with h | h
  · have hvideo : s.codecType = some "video" := by simpa [Stream.video] using h
    simp [Stream.video, hvideo]
  · simp [Stream.video, h]

/-- A remuxed part has its streams by kind. -/
theorem Copies.remux {writes : List String → Probe → List Stream} (h : Copies writes) (p : Probe) (part file : Path)
    (muxer : String) : writes (ffmpegCommand ["-i", shown part] muxer file) p = p.byKind := by
  have hcopy : ["-c", "copy"] <:+: ffmpegCommand ["-i", shown part] muxer file :=
    ⟨["ffmpeg", "-hide_banner", "-nostdin", "-loglevel", "error", "-y", "-i", shown part, "-map", "0:v", "-map", "0:a?"],
      ["-f", muxer, "-progress", "pipe:1", "-nostats", shown file], by simp [ffmpegCommand]⟩
  rw [h _ p ["video", "audio"] hcopy (by simp) (by rw [mapped_remux]; decide)]
  simp [Probe.ofKind_video, Probe.ofKind_audio, Probe.byKind]

section paths
variable (output : Path)

/-- The partial file is never the output: its name is longer. -/
theorem partialPath_ne : partialPath output ≠ output := by
  intro he
  have hname : ".".length + (nameOf output).length + ".part".length = (nameOf output).length := by
    have hlast := congrArg (fun p : Path => (nameOf p).length) he
    simpa only [partialPath, withName, nameOf, List.getLastD_concat, toString, String.length_append] using hlast
  have hdot : ".".length = 1 := rfl
  omega

/-- A remuxed part is never the output: it is a directory further down. -/
theorem staged_ne (name : String) : stagingDir output ++ [name] ≠ output := by
  intro he
  have hlength := congrArg List.length he
  simp only [stagingDir, withName, List.length_append, List.length_dropLast, List.length_singleton] at hlength
  omega

end paths

/-! ## What actions leave -/

/-- Actions that put no file at `p`, write no script and leave how the run ends open. -/
def Leaves (p : Path) : Op → Prop
  | .update _ fields => fields.state = none ∧ fields.refused = none
  | .ffmpeg _ q => q ≠ p
  | .replace .. | .writeScript .. => False
  | _ => True

/-- What such actions do to a volume. -/
structure Left (p : Path) (v v' : Volume C) : Prop where
  file : v'.files p = v.files p ∨ v'.files p = none
  status : v'.status = v.status ∨ v'.status = none ∨ v'.status = some v'.object.fields
  state : v'.object.fields.state = v.object.fields.state
  refused : v'.object.fields.refused = v.object.fields.refused
  probed : v.probed ⊆ v'.probed
  commands : v.commands ⊆ v'.commands
  script : v'.script = v.script

theorem Left.refl (p : Path) (v : Volume C) : Left p v v := ⟨.inl rfl, .inl rfl, rfl, rfl, fun _ h => h, fun _ h => h, rfl⟩

section leaves
variable {μ : Media C} {output p : Path} {v v' : Volume C} {op : Op} {r : Except Exc (Res op)}

theorem left_of_thinned {v₀ : Volume C} (hp : p = output ∨ p = partialPath output) (h : Thinned output v v₀) : Left p v v₀ where
  file := h.files p hp
  status := h.status.elim .inl fun hs => .inr (.inl hs)
  state := by rw [h.object]
  refused := by rw [h.object]
  probed := by rw [h.probed]; exact List.Subset.refl _
  commands := by rw [h.commands]; exact List.Subset.refl _
  script := h.script

theorem updated_state (s : StatusFile) (now : Time) (force : Bool) {fields : Status} (h : fields.state = none) :
    (s.update now force fields).1.fields.state = s.fields.state := by
  unfold StatusFile.update
  dsimp only
  split <;> simp [Status.updated, h]

theorem updated_refused (s : StatusFile) (now : Time) (force : Bool) {fields : Status} (h : fields.refused = none) :
    (s.update now force fields).1.fields.refused = s.fields.refused := by
  unfold StatusFile.update
  dsimp only
  split <;> simp [Status.updated, h]

/-- What is written is what the object then holds. -/
theorem update_written {s : StatusFile} {now : Time} {force : Bool} {fields written : Status}
    (h : (s.update now force fields).2 = some written) : written = (s.update now force fields).1.fields := by
  unfold StatusFile.update at h ⊢
  dsimp only at h ⊢
  split at h
  · cases h
  · rw [if_neg ‹_›]
    exact (Option.some.inj h).symm

/-- A forced update is written. -/
theorem update_forced (s : StatusFile) (now : Time) (fields : Status) :
    s.update now true fields = (⟨s.fields.updated fields, some now⟩, some (s.fields.updated fields)) := rfl

theorem left_of_answers (hop : Leaves p op) (h : μ.Answers v op r v') : Left p v v' := by
  cases op with
  | update force fields =>
    obtain ⟨now, ⟨rfl, -⟩ | ⟨rfl, -⟩⟩ := h
    · refine ⟨.inl rfl, ?_, updated_state _ _ _ hop.1, updated_refused _ _ _ hop.2, fun _ hx => hx, fun _ hx => hx, rfl⟩
      cases hw : (v.object.update now force fields).2 with
      | none => exact .inl rfl
      | some written => exact .inr (.inr (congrArg some (update_written hw)))
    · exact ⟨.inl rfl, .inl rfl, updated_state _ _ _ hop.1, updated_refused _ _ _ hop.2, fun _ hx => hx, fun _ hx => hx, rfl⟩
  | fileSize q =>
    obtain ⟨rfl, -⟩ := h
    exact .refl p _
  | ffprobe q =>
    obtain ⟨run, -, -, rfl⟩ | ⟨rfl, -⟩ := h
    · exact ⟨.inl rfl, .inl rfl, rfl, rfl, fun _ hx => List.mem_cons_of_mem _ hx, fun _ hx => hx, rfl⟩
    · exact .refl p _
  | ffmpeg command q =>
    obtain ⟨hfiles, hstatus, hobject, hprobed, hscript, hcommands, -⟩ := h
    refine ⟨.inl (hfiles p (Ne.symm hop)), .inl hstatus, by rw [hobject], by rw [hobject], by rw [hprobed]; exact fun _ hx => hx, ?_,
      hscript⟩
    rcases hcommands with ⟨-, he⟩ | ⟨-, he⟩
    · rw [he]
      exact fun _ hx => List.mem_cons_of_mem _ hx
    · rw [he]
      exact fun _ hx => hx
  | sha1 q =>
    obtain ⟨rfl, -⟩ := h
    exact .refl p _
  | replace q q' => exact hop.elim
  | writeScript inputs text => exact hop.elim
  | unlink q =>
    obtain ⟨-, rfl⟩ | ⟨rfl, -⟩ := h
    · -- the file itself may be the one that is unlinked
      refine ⟨?_, .inl rfl, rfl, rfl, fun _ hx => hx, fun _ hx => hx, rfl⟩
      by_cases hq : p = q
      · rw [hq]
        exact .inr (Function.update_self ..)
      · exact .inl (Function.update_of_ne hq ..)
    · exact .refl p _
  | removeTree dir =>
    obtain ⟨-, hfiles, hstatus, hobject, hprobed, hcommands, hscript⟩ := h
    exact ⟨(hfiles p).imp_right And.right, .inl hstatus, by rw [hobject], by rw [hobject], by rw [hprobed]; exact fun _ hx => hx,
      by rw [hcommands]; exact fun _ hx => hx, hscript⟩
  | memoryMax =>
    obtain ⟨rfl, -⟩ := h
    exact .refl p _
  | freeSpace dir =>
    obtain ⟨rfl, -⟩ := h
    exact .refl p _
  | makeDir dir =>
    obtain ⟨rfl, -⟩ := h
    exact .refl p _

/-- What a step that leaves every path of `ps` keeps. -/
def Stable (ps : List Path) (I : Volume C → Prop) : Prop := ∀ v v', I v → (∀ p ∈ ps, Left p v v') → I v'

theorem Stable.and {ps : List Path} {I I' : Volume C → Prop} (h : Stable ps I) (h' : Stable ps I') : Stable ps fun v => I v ∧ I' v :=
  fun v v' hv hl => ⟨h v v' hv.1 hl, h' v v' hv.2 hl⟩

end leaves

/-! ## Streams that line up -/

/-- A list is determined by which of its elements pass a test, those that do and those that do not. -/
theorem eq_of_filters {α : Type} (f : α → Bool) : ∀ {xs ys : List α}, xs.map f = ys.map f → xs.filter f = ys.filter f →
    (xs.filter fun a => !f a) = ys.filter (fun a => !f a) → xs = ys
  | [], [], _, _, _ => rfl
  | x :: xs, y :: ys, hmap, hpos, hneg => by
    obtain ⟨hxy, htail⟩ := List.cons.inj hmap
    cases hx : f x with
    | true =>
      have hy : f y = true := hxy ▸ hx
      simp only [List.filter_cons, hx, hy, Bool.not_true, if_pos, Bool.false_eq_true, if_false] at hpos hneg
      obtain ⟨rfl, hrest⟩ := List.cons.inj hpos
      rw [eq_of_filters f htail hrest hneg]
    | false =>
      have hy : f y = false := hxy ▸ hx
      simp only [List.filter_cons, hx, hy, Bool.not_false, if_pos, Bool.false_eq_true, if_false] at hpos hneg
      obtain ⟨rfl, hrest⟩ := List.cons.inj hneg
      rw [eq_of_filters f htail hpos hrest]

theorem Stream.kind_video (s : Stream) (h : s.media = true) : s.video = decide (s.kind = "video") := by
  cases hc : s.codecType <;> simp [Stream.media, Stream.kind, Stream.video, hc] at h ⊢

section probes
variable {p q : Probe}

theorem map_video_eq {ss ts : List Stream} (hs : ∀ s ∈ ss, s.media = true) (ht : ∀ s ∈ ts, s.media = true)
    (h : ss.map Stream.kind = ts.map Stream.kind) : ss.map Stream.video = ts.map Stream.video := by
  have hvideo : ∀ us : List Stream, (∀ s ∈ us, s.media = true) → us.map Stream.video = (us.map Stream.kind).map (decide <| · = "video") := by
    intro us hus
    rw [List.map_map]
    exact List.map_congr_left fun s hmem => s.kind_video (hus s hmem)
  rw [hvideo ss hs, hvideo ts ht, h]

theorem Probe.byKind_media (p : Probe) : ∀ s ∈ p.byKind, s.media = true := by
  intro s hs
  rcases List.mem_append.1 hs with h | h
  · exact p.media s (List.mem_filter.1 h).1
  · exact p.media s (List.mem_filter.1 h).1

theorem Probe.byKind_video (p : Probe) : p.byKind.filter (·.video) = p.signature.filter (·.video) := by
  have hnone : (p.signature.filter (!·.video)).filter (·.video) = [] := by simp [List.filter_filter]
  simp [Probe.byKind, List.filter_append, hnone]

theorem Probe.byKind_rest (p : Probe) : p.byKind.filter (!·.video) = p.signature.filter (!·.video) := by
  have hnone : (p.signature.filter (·.video)).filter (!·.video) = [] := by simp [List.filter_filter]
  simp [Probe.byKind, List.filter_append, hnone]

/-- The same streams behind the same layout are in the same order. -/
theorem signature_eq (hkind : p.byKind = q.byKind) (hlayout : p.layout = q.layout) : p.signature = q.signature := by
  refine eq_of_filters Stream.video (map_video_eq p.media q.media ?_) ?_ ?_
  · rw [p.paired, q.paired, hlayout]
  · rw [← p.byKind_video, ← q.byKind_video, hkind]
  · rw [← p.byKind_rest, ← q.byKind_rest, hkind]

/-- A part that is in order has its streams by kind. -/
theorem signature_inOrder (h : p.inOrder = true) : p.signature = p.byKind := by
  have hlayout : p.layout = p.byKind.map Stream.kind := by simpa [Probe.inOrder] using h
  refine eq_of_filters Stream.video (map_video_eq p.media p.byKind_media ?_) p.byKind_video.symm p.byKind_rest.symm
  rw [p.paired, hlayout, List.filter_eq_self.2]
  intro kind hkind
  obtain ⟨s, hs, rfl⟩ := List.mem_map.1 hkind
  rw [s.mediaKind_kind, p.byKind_media s hs]

end probes

/-! ## What holds at all times -/

section inv
variable (μ : Media C) (parts : List Path) (output : Path)

/-- ffprobe has said this of the parts. -/
def Told (v : Volume C) (parts : List Path) (probes : List Probe) : Prop :=
  List.Forall₂ (fun part p => ∃ run, (part, run) ∈ v.probed ∧ probe (nameOf part) run = .ok p) parts probes

/-- There are parts to merge, and they carry the same streams. -/
structure Agreed (v : Volume C) (probes : List Probe) : Prop where
  several : 2 ≤ parts.length
  told : Told v parts probes
  kinds : ∀ p ∈ probes, ∀ q ∈ probes, p.byKind = q.byKind

/-- A merge of the parts that has passed its check. -/
def Checked (v : Volume C) (c : C) : Prop :=
  ∃ probes merged, Agreed parts v probes ∧ μ.Reads c merged ∧ drifts merged.duration (probes.map (·.duration)).sum = false

/-- What a status says of the merged file. -/
def Describes (size : Option Nat) (sha1 : Option String) (duration : Option Int) (c : C) : Prop :=
  size = some (μ.size c) ∧ sha1 = some (μ.sha1 c) ∧ ∃ merged, μ.Reads c merged ∧ duration = some merged.duration

/-- An input of the concatenation stands for its part: it is the part, with these streams as it was probed, or
a remux of it has ended well, and these are its streams by kind. -/
def StandsFor (v : Volume C) (muxer : String) (streams : List Stream) (layout : List String) (input part : Path) : Prop :=
  ∃ run p, (part, run) ∈ v.probed ∧ probe (nameOf part) run = .ok p ∧
    ((input = part ∧ streams = p.signature ∧ layout = p.layout) ∨
      ffmpegCommand ["-i", shown part] muxer input ∈ v.commands ∧ streams = p.byKind ∧ layout = p.byKind.map Stream.kind)

/-- Every input stands for its part, with the same streams behind the same layout. -/
def Alike (v : Volume C) (inputs : List Path) : Prop :=
  ∃ muxer streams layout, List.Forall₂ (StandsFor v muxer streams layout) inputs parts

structure Inv (v : Volume C) : Prop where
  checked : ∀ c, v.files output = some c → Checked μ parts v c
  done : ∀ s, v.status = some s → s.state = some "done" → ∀ c, v.files output = some c → Describes μ s.size s.sha1 s.duration c
  alike : ∀ inputs, v.script = some inputs → Alike parts v inputs

/-- A process that has not said how it ends. -/
structure On (v : Volume C) : Prop where
  inv : Inv μ parts output v
  state : v.object.fields.state = some "running"
  refused : v.object.fields.refused = none

/-- The process has begun to say how far it is. -/
structure Running (v : Volume C) : Prop extends On μ parts output v where
  quiet : ∀ s, v.status = some s → s.state ≠ some "done"

/-- If there is a file at `p`, it is one like this. -/
def About (p : Path) (P : C → Prop) (v : Volume C) : Prop := ∀ c, v.files p = some c → P c

end inv

section stable
variable {μ : Media C} {parts : List Path} {output p : Path} {ps : List Path} {v v' : Volume C} {probes : List Probe}

theorem Told.mono {qs : List Path} (h : Told v qs probes) (hv : v.probed ⊆ v'.probed) : Told v' qs probes :=
  h.imp fun _ _ h => h.imp fun _ h => ⟨hv h.1, h.2⟩

theorem Agreed.mono (h : Agreed parts v probes) (hv : v.probed ⊆ v'.probed) : Agreed parts v' probes :=
  ⟨h.several, h.told.mono hv, h.kinds⟩

theorem Checked.mono {c : C} (h : Checked μ parts v c) (hv : v.probed ⊆ v'.probed) : Checked μ parts v' c := by
  obtain ⟨probes, merged, hagreed, hreads, hdrift⟩ := h
  exact ⟨probes, merged, hagreed.mono hv, hreads, hdrift⟩

theorem Alike.mono {inputs : List Path} (h : Alike parts v inputs) (hv : v.probed ⊆ v'.probed)
    (hc : v.commands ⊆ v'.commands) : Alike parts v' inputs := by
  obtain ⟨muxer, streams, layout, h⟩ := h
  refine ⟨muxer, streams, layout, h.imp ?_⟩
  rintro input part ⟨run, p, hmem, hp, hinput⟩
  exact ⟨run, p, hv hmem, hp, hinput.imp_right fun h => ⟨hc h.1, h.2⟩⟩

theorem About.left {P : C → Prop} (h : About p P v) (hl : Left p v v') : About p P v' := by
  intro c hc
  rcases hl.file with he | he
  · exact h c (he ▸ hc)
  · rw [he] at hc
    cases hc

theorem Inv.left (h : Inv μ parts output v) (hl : Left output v v') (hstate : v.object.fields.state ≠ some "done") :
    Inv μ parts output v' where
  checked := About.left (P := Checked μ parts v') (fun c hc => (h.checked c hc).mono hl.probed) hl
  done := by
    intro s hs hdone
    rcases hl.status with he | he | he
    · exact About.left (P := Describes μ s.size s.sha1 s.duration) (h.done s (he ▸ hs) hdone) hl
    · rw [he] at hs
      cases hs
    · obtain rfl := Option.some.inj (he.symm.trans hs)
      exact absurd (hl.state.symm.trans hdone) hstate
  alike := by
    intro inputs hinputs
    exact (h.alike inputs (hl.script ▸ hinputs)).mono hl.probed hl.commands

theorem On.stable (hps : output ∈ ps) : Stable ps (On μ parts output) := by
  intro v v' h hl
  have hl := hl output hps
  exact ⟨h.inv.left hl (by rw [h.state]; decide), hl.state.trans h.state, hl.refused.trans h.refused⟩

theorem Running.stable (hps : output ∈ ps) : Stable ps (Running μ parts output) := by
  intro v v' h hleft
  refine ⟨On.stable hps v v' h.toOn hleft, fun s hs => ?_⟩
  have hl := hleft output hps
  rcases hl.status with he | he | he
  · exact h.quiet s (he ▸ hs)
  · rw [he] at hs
    cases hs
  · obtain rfl := Option.some.inj (he.symm.trans hs)
    rw [hl.state, h.state]
    decide

theorem Agreed.stable (hps : p ∈ ps) : Stable ps (Agreed (C := C) parts · probes) :=
  fun _ _ h hl => h.mono (hl p hps).probed

theorem About.stable {P : C → Prop} (hps : p ∈ ps) : Stable ps (About p P) := fun _ _ h hl => h.left (hl p hps)

end stable

/-! ## What the parts of the worker leave -/

section uses
variable (lower : String → String) {ps : List Path}

/-- Actions that leave every path of `ps`. -/
def LeavesAll (ps : List Path) (op : Op) : Prop := ∀ p ∈ ps, Leaves p op

theorem leavesAll_update {force : Bool} {fields : Status} (hs : fields.state = none) (hr : fields.refused = none) :
    LeavesAll ps (.update force fields) := fun _ _ => ⟨hs, hr⟩

theorem uses_ofExcept {α : Type} (x : Except Exc α) : Uses (LeavesAll ps) (ofExcept x) := by
  cases x <;> trivial

theorem uses_fileSize (file : Path) : Uses (LeavesAll ps) (fileSize file) := (uses_call _).2 fun _ _ => trivial

theorem uses_checkParts (parts : List Path) (output : Path) : Uses (LeavesAll ps) (checkParts lower parts output) := by
  unfold checkParts
  refine uses_ite trivial (uses_ite trivial (uses_ite trivial (uses_bind (uses_foldEach ?_ 0) ?_)))
  · intro total part _
    refine uses_bind (uses_attempt ((uses_call _).2 fun _ _ => trivial)) ?_
    intro r
    rcases r with (_ | _ | _ | _) | _ <;> trivial
  · exact fun total => uses_ite trivial trivial

theorem uses_checkSpace (output : Path) (needed reserve : Nat) : Uses (LeavesAll ps) (checkSpace output needed reserve) := by
  refine uses_bind ((uses_call _).2 fun _ _ => trivial) fun free => ?_
  refine uses_bind (uses_attempt ((uses_call _).2 fun _ _ => trivial)) fun r => ?_
  have hrest : ∀ reclaimable : Nat, Uses (LeavesAll ps) (if free + reclaimable < needed + reserve then
      fail (s!"not enough space in {shown output.dropLast}: {oneDecimal (free + reclaimable) gib} GiB free, " ++
        s!"{oneDecimal needed gib} GiB needed plus a {rounded reserve gib} GiB reserve") else pure ()) :=
    fun _ => uses_ite trivial trivial
  rcases r with (_ | _ | e | _) | size
  · trivial
  · trivial
  · exact uses_ite (uses_bind trivial hrest) trivial
  · trivial
  · exact uses_bind trivial hrest

theorem progressFields_ends (duration : Int) (line : String) :
    ∀ fields ∈ progressFields duration line, fields.state = none ∧ fields.refused = none := by
  intro fields h
  unfold progressFields at h
  dsimp only at h
  split at h
  · cases h
  · split at h
    · split at h
      · obtain rfl := Option.some.inj h
        exact ⟨rfl, rfl⟩
      · cases h
    · split at h
      · obtain rfl := Option.some.inj h
        exact ⟨rfl, rfl⟩
      · cases h

theorem uses_reports (duration : Int) (lines : List String) : Uses (LeavesAll ps) (forEach lines (report duration)) := by
  refine uses_forEach fun line _ => ?_
  unfold report
  cases h : progressFields duration line with
  | none => trivial
  | some fields =>
    obtain ⟨hs, hr⟩ := progressFields_ends duration line fields h
    exact (uses_call _).2 (leavesAll_update hs hr)

end uses

/-! ## A run -/

section wp
variable {μ : Media C} {parts : List Path} {output : Path} {ps : List Path} {v : Volume C} {probes : List Probe} {α : Type}

/-- Every action is one after which the invariant holds. -/
def Guard (μ : Media C) (parts : List Path) (output : Path) (v : Volume C) (op : Op) : Prop :=
  ∀ r v', μ.world output v op r v' → Inv μ parts output v'

/-- The paths the merge itself writes. -/
def own (output : Path) : List Path := [output, partialPath output]

theorem Stable.world {I : Volume C → Prop} (hI : Stable ps I) (hps : ps ⊆ own output) {op : Op} (hop : LeavesAll ps op)
    {r : Except Exc (Res op)} {v' : Volume C} (h : I v) (ht : μ.world output v op r v') :
    ∃ v₀, I v₀ ∧ μ.Answers v₀ op r v' ∧ I v' := by
  obtain ⟨v₀, hthin, ht⟩ := ht
  have h₀ : I v₀ := hI v v₀ h fun p hp => left_of_thinned (by simpa [own] using hps hp) hthin
  exact ⟨v₀, h₀, ht, hI v₀ v' h₀ fun p hp => left_of_answers (hop p hp) ht⟩

theorem keeps_leaves {I : Volume C → Prop} (hI : Stable ps I) (hps : ps ⊆ own output) (hinv : ∀ v, I v → On μ parts output v)
    {p : M α} (hp : Uses (LeavesAll ps) p) :
    Keeps (μ.world output) (Guard μ parts output) I (fun _ => On μ parts output) p := by
  refine keeps_mono (keeps_of_uses hp ?_ ?_) fun _ => hinv
  · intro v op hop h r v' ht
    obtain ⟨_, _, _, h'⟩ := hI.world hps hop h ht
    exact (hinv v' h').inv
  · intro v op r v' hop h ht
    obtain ⟨_, _, _, h'⟩ := hI.world hps hop h ht
    exact h'

/-- An action that leaves the paths of `ps`, and what its answer says. -/
theorem wp_ask {I : Volume C → Prop} (hI : Stable ps I) (hps : ps ⊆ own output) (hinv : ∀ v, I v → On μ parts output v)
    {op : Op} (hop : LeavesAll ps op) {Q : Res op → Volume C → Prop} (h : I v)
    (hQ : ∀ v₀ a v', I v₀ → μ.Answers v₀ op (.ok a) v' → I v' → Q a v') :
    (ask op).wp (μ.world output) (Guard μ parts output) Q (fun _ => On μ parts output) v := by
  refine (wp_call op).2 ⟨?_, ?_, ?_⟩
  · intro r v' ht
    obtain ⟨_, _, _, h'⟩ := hI.world hps hop h ht
    exact (hinv v' h').inv
  · intro a v' ht
    obtain ⟨v₀, h₀, ha, h'⟩ := hI.world hps hop h ht
    exact hQ v₀ a v' h₀ ha h'
  · intro e v' ht
    obtain ⟨_, _, _, h'⟩ := hI.world hps hop h ht
    exact hinv v' h'

/-- A forced update that leaves how the run ends open. -/
theorem wp_update {I : Volume C → Prop} (hI : Stable [output] I) (hinv : ∀ v, I v → On μ parts output v) {fields : Status}
    (hs : fields.state = none) (hr : fields.refused = none) (h : I v) :
    (update fields).wp (μ.world output) (Guard μ parts output) (fun _ v' => I v' ∧ Running μ parts output v')
      (fun _ => On μ parts output) v := by
  refine wp_ask hI (by simp [own]) hinv (leavesAll_update hs hr) h fun v₀ _ v' _ ha h' => ⟨h', hinv v' h', ?_⟩
  obtain ⟨now, ⟨rfl, -⟩ | ⟨-, -, e, he, -⟩⟩ := ha
  · intro s hs
    obtain rfl := Option.some.inj hs
    have hstate := (hinv _ h').state
    rw [update_forced] at hstate
    rw [hstate]
    decide
  · cases he

/-- ffprobe's reading of a file, and the file it is about. -/
theorem wp_probeFile {I : Volume C → Prop} (hI : Stable ps I) (hps : ps ⊆ own output) (hinv : ∀ v, I v → On μ parts output v)
    (file : Path) {Q : Probe → Volume C → Prop} (h : I v)
    (hQ : ∀ p v', I v' → (∃ run, (file, run) ∈ v'.probed ∧ probe (nameOf file) run = .ok p) →
      About file (μ.Reads · p) v' → Q p v') :
    (probeFile file).wp (μ.world output) (Guard μ parts output) Q (fun _ => On μ parts output) v := by
  refine (wp_bind _ _).2 (wp_ask hI hps hinv (show LeavesAll ps (.ffprobe file) from fun _ _ => trivial) h fun v₀ run v' _ ha h' => ?_)
  cases hp : probe (nameOf file) run with
  | error e => exact hinv v' h'
  | ok p =>
    obtain ⟨run', hrun, hread, rfl⟩ | ⟨-, e, he, -⟩ := ha
    · obtain rfl := Except.ok.inj hrun
      refine hQ p _ h' ⟨run, List.mem_cons_self, hp⟩ ?_
      intro c hc
      have hcode : run.returncode = 0 := by
        by_contra hcode
        simp [probe, hcode] at hp
      obtain ⟨c', hc', hrun⟩ := hread hcode
      obtain rfl := Option.some.inj (hc.symm.trans hc')
      exact ⟨nameOf file, hrun ▸ hp⟩
    · cases he

theorem told_stable {qs : List Path} : Stable [output] fun v => Running μ parts output v ∧ Told v qs probes :=
  (Running.stable (by simp)).and fun _ _ ht hl => ht.mono (hl output (by simp)).probed

theorem wp_probeParts (h : Running μ parts output v) :
    (probeParts parts).wp (μ.world output) (Guard μ parts output) (fun probes v' => Running μ parts output v' ∧ Told v' parts probes)
      (fun _ => On μ parts output) v := by
  -- what is left, and what has been said of the parts before it
  refine wp_foldEach (fun rest acc v => ∃ done, done ++ rest = parts ∧ Running μ parts output v ∧ Told v done acc) ?_ ?_
    ⟨[], rfl, h, .nil⟩
  · rintro part rest acc v ⟨done, hdone, hv⟩
    refine (wp_bind _ _).2 (wp_probeFile told_stable (by simp [own]) (fun _ hv => hv.1.toOn) part hv ?_)
    rintro p v' ⟨hv', htold⟩ hp -
    have hnext : Told v' (done ++ [part]) (acc ++ [p]) := List.rel_append htold (.cons hp .nil)
    refine (wp_bind _ _).2 (wp_mono (keeps_leaves told_stable (by simp [own]) (fun _ hv => hv.1.toOn)
      ((uses_call _).2 (leavesAll_update rfl rfl)) v' ⟨hv', hnext⟩) ?_ fun _ _ h => h)
    intro _ v'' hv''
    exact ⟨done ++ [part], by rw [List.append_assoc]; exact hdone, hv''⟩
  · rintro acc v ⟨done, hdone, hv⟩
    rw [List.append_nil] at hdone
    exact hdone ▸ hv

/-- ffmpeg has ended well when the worker goes on. -/
theorem wp_runFfmpeg {I : Volume C → Prop} (hI : Stable [output] I) (hinv : ∀ v, I v → On μ parts output v) (command : List String)
    {file : Path} (hfile : file ≠ output) (duration : Int) (h : I v) :
    (runFfmpeg command file duration).wp (μ.world output) (Guard μ parts output) (fun _ v' => I v' ∧ command ∈ v'.commands)
      (fun _ => On μ parts output) v := by
  have hown : [output] ⊆ own output := by simp [own]
  have hleaves : LeavesAll [output] (.ffmpeg command file) := by simpa [LeavesAll, Leaves] using hfile
  unfold runFfmpeg
  rw [wp_bind]
  refine wp_ask hI hown hinv hleaves h ?_
  intro v₀ run v' _ ha h'
  have hrun : run.returncode = 0 → command ∈ v'.commands := by
    intro hcode
    obtain ⟨-, -, -, -, -, ⟨-, he⟩ | ⟨hnot, -⟩, -⟩ := ha
    · rw [he]
      exact List.mem_cons_self
    · exact absurd ⟨run, rfl, hcode⟩ hnot
  have hI' : Stable [output] fun v => I v ∧ (run.returncode = 0 → command ∈ v.commands) :=
    hI.and fun _ _ hc hl hcode => (hl output (by simp)).commands (hc hcode)
  have hkept := keeps_leaves hI' hown (fun v hv => hinv v hv.1) (uses_reports duration run.lines) v' ⟨h', hrun⟩
  rw [wp_bind]
  refine wp_mono hkept ?_ fun _ _ h => h
  rintro _ v'' ⟨h'', hrun''⟩
  refine wp_ite (fun _ => hinv v'' h'') fun _ => ?_
  refine wp_ite (fun _ => hinv v'' h'') fun hcode => ?_
  exact ⟨h'', hrun'' (by simpa using hcode)⟩

/-- The inputs after some of the parts have been put in order. -/
structure Staged (parts : List Path) (output : Path) (muxer : String) (v : Volume C) (done : List Nat) (inputs : List Path) : Prop where
  length : inputs.length = parts.length
  kept : ∀ i part, parts[i]? = some part → i ∉ done → inputs[i]? = some part
  staged : ∀ i part, parts[i]? = some part → i ∈ done → inputs[i]? = some (stagingDir output ++ [nameOf part]) ∧
    ffmpegCommand ["-i", shown part] muxer (stagingDir output ++ [nameOf part]) ∈ v.commands

theorem Staged.left {muxer : String} {done : List Nat} {inputs : List Path} {v' : Volume C} (h : Staged parts output muxer v done inputs)
    (hl : v.commands ⊆ v'.commands) : Staged parts output muxer v' done inputs :=
  ⟨h.length, h.kept, fun i part hi hd => ⟨(h.staged i part hi hd).1, hl (h.staged i part hi hd).2⟩⟩

theorem Staged.next {muxer : String} {done : List Nat} {inputs : List Path} {index : Nat} (h : Staged parts output muxer v done inputs)
    (hc : ffmpegCommand ["-i", shown (parts.getD index [])] muxer (stagingDir output ++ [nameOf (parts.getD index [])]) ∈ v.commands) :
    Staged parts output muxer v (done ++ [index]) (reordered parts output inputs index) where
  length := by rw [reordered, List.length_set, h.length]
  kept := by
    intro i part hi hd
    have hne : index ≠ i := fun he => hd (by simp [he])
    rw [reordered, List.getElem?_set_ne hne]
    exact h.kept i part hi fun hmem => hd (by simp [hmem])
  staged := by
    intro i part hi hd
    by_cases he : index = i
    · subst he
      have hpart : parts.getD index [] = part := by simp [List.getD, hi]
      rw [hpart] at hc
      have hlt : index < inputs.length := h.length ▸ (List.getElem?_eq_some_iff.1 hi).1
      refine ⟨?_, hc⟩
      rw [reordered, hpart, List.getElem?_set_self hlt]
    · rw [reordered, List.getElem?_set_ne he]
      exact h.staged i part hi (by simpa [Ne.symm he] using hd)

/-- With one layout among the parts, every part stands for itself. -/
theorem Staged.standsFor_kept {muxer : String} {done : List Nat} {inputs : List Path} {first p : Probe} {i : Nat} {input part : Path}
    (h : Staged parts output muxer v done inputs) (hi : inputs[i]? = some input) (hpart : parts[i]? = some part)
    (hp : ∃ run, (part, run) ∈ v.probed ∧ probe (nameOf part) run = .ok p) (hd : i ∉ done) (hkind : first.byKind = p.byKind)
    (hlayout : first.layout = p.layout) : StandsFor v muxer first.signature first.layout input part := by
  obtain ⟨run, hrun, hprobe⟩ := hp
  have hinput : input = part := Option.some.inj (hi.symm.trans (h.kept i part hpart hd))
  exact ⟨run, p, hrun, hprobe, .inl ⟨hinput, signature_eq hkind hlayout, hlayout⟩⟩

/-- With several, each part is in order or has been put in order. -/
theorem Staged.standsFor_ordered {muxer : String} {done : List Nat} {inputs : List Path} {first p : Probe} {i : Nat} {input part : Path}
    (h : Staged parts output muxer v done inputs) (hi : inputs[i]? = some input) (hpart : parts[i]? = some part)
    (hp : ∃ run, (part, run) ∈ v.probed ∧ probe (nameOf part) run = .ok p) (hd : i ∈ done ↔ p.inOrder = false)
    (hkind : first.byKind = p.byKind) : StandsFor v muxer first.byKind (first.byKind.map Stream.kind) input part := by
  obtain ⟨run, hrun, hprobe⟩ := hp
  refine ⟨run, p, hrun, hprobe, ?_⟩
  cases horder : p.inOrder with
  | true =>
    have hnot : i ∉ done := by
      rw [hd, horder]
      decide
    have hinput : input = part := Option.some.inj (hi.symm.trans (h.kept i part hpart hnot))
    have hlayout : p.layout = p.byKind.map Stream.kind := by simpa [Probe.inOrder] using horder
    exact .inl ⟨hinput, by rw [signature_inOrder horder, hkind], by rw [hlayout, hkind]⟩
  | false =>
    obtain ⟨hstaged, hcommand⟩ := h.staged i part hpart (hd.2 horder)
    obtain rfl := Option.some.inj (hi.symm.trans hstaged)
    exact .inr ⟨hcommand, hkind, by rw [hkind]⟩

theorem forall₂_of_getElem? {α β : Type} {R : α → β → Prop} {xs : List α} {ys : List β} (hlength : xs.length = ys.length)
    (h : ∀ (i : Nat) x y, xs[i]? = some x → ys[i]? = some y → R x y) : List.Forall₂ R xs ys :=
  List.forall₂_iff_get.2 ⟨hlength, fun i hx hy => h i _ _ (List.getElem?_eq_getElem hx) (List.getElem?_eq_getElem hy)⟩

theorem Told.getElem? (h : Told v parts probes) {i : Nat} {part : Path} (hpart : parts[i]? = some part) :
    ∃ p, probes[i]? = some p ∧ ∃ run, (part, run) ∈ v.probed ∧ probe (nameOf part) run = .ok p := by
  obtain ⟨hi, rfl⟩ := List.getElem?_eq_some_iff.1 hpart
  have hi' : i < probes.length := h.length_eq ▸ hi
  exact ⟨probes[i], List.getElem?_eq_getElem hi', (List.forall₂_iff_get.1 h).2 i hi hi'⟩

theorem strays_of_one {first : Probe} (h : probes.all (·.layout = first.layout) = true) (hfirst : probes.head? = some first) :
    strays probes = [] := by
  refine if_neg fun hany => ?_
  obtain ⟨p, hp, hne⟩ := List.any_eq_true.1 hany
  have hp := List.all_eq_true.1 h p hp
  simp only [hfirst, Option.map_some, decide_eq_true_eq, ne_eq, Option.some.injEq] at hne hp
  exact hne hp

theorem mem_strays_of_several {first p : Probe} {i : Nat} (h : ¬ probes.all (·.layout = first.layout) = true)
    (hfirst : probes.head? = some first) (hp : probes[i]? = some p) : i ∈ strays probes ↔ p.inOrder = false := by
  have hstrays : strays probes = (probes.zipIdx.filter fun x => !x.1.inOrder).map (·.2) := by
    refine if_pos ?_
    simpa [hfirst, List.any_eq_true] using h
  rw [hstrays]
  simp [List.mk_mem_zipIdx_iff_getElem?, hp]

/-- Once the strays are in order all inputs line up. -/
theorem Staged.alike {muxer : String} {inputs : List Path} (h : Staged parts output muxer v (strays probes) inputs)
    (hagreed : Agreed parts v probes) : Alike parts v inputs := by
  obtain ⟨first, hfirst⟩ : ∃ first, probes.head? = some first := by
    cases probes with
    | nil =>
      have hlength := hagreed.told.length_eq
      have hseveral := hagreed.several
      rw [hlength, List.length_nil] at hseveral
      omega
    | cons p ps => exact ⟨p, rfl⟩
  have hkind : ∀ {i : Nat} {p : Probe}, probes[i]? = some p → first.byKind = p.byKind := fun hp =>
    hagreed.kinds first (List.mem_of_head? hfirst) _ (List.mem_of_getElem? hp)
  by_cases hall : probes.all (·.layout = first.layout) = true
  · refine ⟨muxer, first.signature, first.layout, forall₂_of_getElem? h.length fun i input part hi hpart => ?_⟩
    obtain ⟨p, hp, hprobe⟩ := hagreed.told.getElem? hpart
    have hlayout : p.layout = first.layout := by simpa using List.all_eq_true.1 hall p (List.mem_of_getElem? hp)
    exact h.standsFor_kept hi hpart hprobe (by simp [strays_of_one hall hfirst]) (hkind hp) hlayout.symm
  · refine ⟨muxer, first.byKind, first.byKind.map Stream.kind, forall₂_of_getElem? h.length fun i input part hi hpart => ?_⟩
    obtain ⟨p, hp, hprobe⟩ := hagreed.told.getElem? hpart
    exact h.standsFor_ordered hi hpart hprobe (mem_strays_of_several hall hfirst hp) (hkind hp)

/-- The parts agree, and the process says how far it is. -/
abbrev Ready (μ : Media C) (parts : List Path) (output : Path) (probes : List Probe) (v : Volume C) : Prop :=
  Running μ parts output v ∧ Agreed parts v probes

theorem ready_stable (hps : output ∈ ps) : Stable ps (Ready μ parts output probes) :=
  (Running.stable hps).and (Agreed.stable hps)

theorem staged_stable {muxer : String} {done : List Nat} {inputs : List Path} :
    Stable [output] fun v => Ready μ parts output probes v ∧ Staged parts output muxer v done inputs :=
  (ready_stable (by simp)).and fun _ _ h hl => h.left (hl output (by simp)).commands

/-- A new script that lines up, or none. -/
theorem Ready.scripted (h : Ready μ parts output probes v) {script : Option (List Path)}
    (hscript : ∀ inputs, script = some inputs → Alike parts v inputs) : Ready μ parts output probes { v with script } := by
  refine ⟨⟨⟨⟨?_, h.1.inv.done, ?_⟩, h.1.state, h.1.refused⟩, h.1.quiet⟩, h.2.mono (List.Subset.refl _)⟩
  · exact fun c hc => (h.1.inv.checked c hc).mono (List.Subset.refl _)
  · exact fun inputs hi => (hscript inputs hi).mono (List.Subset.refl _) (List.Subset.refl _)

theorem wp_concat {inputs : List Path} (h : Ready μ parts output probes v) (halike : Alike parts v inputs) (workdir : Path)
    (muxer : String) (expected : Int) :
    (concat inputs (partialPath output) workdir muxer expected).wp (μ.world output) (Guard μ parts output)
      (fun _ => Ready μ parts output probes) (fun _ => On μ parts output) v := by
  have hI : Stable [output] fun v => Ready μ parts output probes v ∧ Alike parts v inputs :=
    (ready_stable (by simp)).and fun _ _ h hl => h.mono (hl output (by simp)).probed (hl output (by simp)).commands
  refine (wp_bind _ _).2 (wp_mono (wp_update hI (fun _ h => h.1.1.toOn) rfl rfl ⟨h, halike⟩) ?_ fun _ _ h => h)
  rintro _ v₁ ⟨h₁, -⟩
  -- the script is what the invariant is about
  have hscript : ∀ r v₂, μ.world output v₁ (.writeScript inputs (concatList inputs)) r v₂ → Ready μ parts output probes v₂ := by
    rintro r v₂ ⟨v₀, hthin, ha⟩
    have h₀ := hI v₁ v₀ h₁ fun p hp => left_of_thinned (.inl (by simpa using hp)) hthin
    obtain ⟨-, rfl⟩ | ⟨rfl, -⟩ := ha
    · refine h₀.1.scripted ?_
      rintro _ ⟨⟩
      exact h₀.2
    · refine h₀.1.scripted ?_
      rintro _ ⟨⟩
  refine (wp_bind _ _).2 ((wp_call _).2 ⟨fun r v₂ ht => (hscript r v₂ ht).1.inv, fun _ v₂ ht => ?_, fun _ v₂ ht => (hscript _ v₂ ht).1.toOn⟩)
  refine wp_mono (wp_runFfmpeg (ready_stable (by simp)) (fun _ h => h.1.toOn) _ (partialPath_ne output) expected (hscript _ v₂ ht)) ?_
    fun _ _ h => h
  exact fun _ _ h => h.1

theorem wp_assemble (h : Ready μ parts output probes v) (workdir : Path) (muxer : String) :
    (assemble parts output workdir muxer probes).wp (μ.world output) (Guard μ parts output) (fun _ => Ready μ parts output probes)
      (fun _ => On μ parts output) v := by
  refine (wp_bind _ _).2 (wp_foldEach (fun rest inputs v => ∃ done, done ++ rest = strays probes ∧
    Ready μ parts output probes v ∧ Staged parts output muxer v done inputs) ?_ ?_ ⟨[], rfl, h, rfl, fun _ _ hi _ => hi, ?_⟩)
  · rintro index rest inputs v ⟨done, hdone, hv⟩
    refine (wp_bind _ _).2 (wp_mono (wp_update staged_stable (fun _ h => h.1.1.toOn) rfl rfl hv) ?_ fun _ _ h => h)
    rintro _ v₁ ⟨h₁, -⟩
    have hdir : LeavesAll [output] (.makeDir (stagingDir output)) := fun _ _ => trivial
    refine (wp_bind _ _).2 (wp_ask staged_stable (by simp [own]) (fun _ h => h.1.1.toOn) hdir h₁ ?_)
    intro _ _ v₂ _ _ h₂
    refine (wp_bind _ _).2 (wp_mono (wp_runFfmpeg staged_stable (fun _ h => h.1.1.toOn) _ (staged_ne output _) _ h₂) ?_ fun _ _ h => h)
    rintro _ v₃ ⟨⟨hready, hstaged⟩, hcommand⟩
    exact ⟨done ++ [index], by rw [List.append_assoc]; exact hdone, hready, hstaged.next hcommand⟩
  · rintro inputs v ⟨done, hdone, hready, hstaged⟩
    rw [List.append_nil] at hdone
    subst hdone
    exact wp_concat hready (hstaged.alike hready.2) workdir muxer _
  · intro i part _ hd
    cases hd

/-- What is returned of the merged file, and that nothing is left beside it. -/
structure Placed (μ : Media C) (parts : List Path) (output : Path) (merged : Merged) (v : Volume C) : Prop extends On μ parts output v where
  about : About output (Describes μ (some merged.size) (some merged.sha1) (some merged.duration)) v
  gone : v.files (partialPath output) = none

/-- The checked file put in its place. -/
theorem Ready.placed (h : Ready μ parts output probes v) {c : C} {merged : Probe} (hreads : μ.Reads c merged)
    (hdrift : drifts merged.duration (probes.map (·.duration)).sum = false) :
    Placed μ parts output ⟨μ.size c, μ.sha1 c, merged.duration⟩
      { v with files := Function.update (Function.update v.files (partialPath output) none) output (some c) } where
  inv := by
    refine ⟨?_, fun s hs hdone => absurd hdone (h.1.quiet s hs), ?_⟩
    · intro c' hc'
      obtain rfl : c = c' := by simpa using hc'
      exact ⟨probes, merged, h.2.mono (List.Subset.refl _), hreads, hdrift⟩
    · exact fun inputs hi => (h.1.inv.alike inputs hi).mono (List.Subset.refl _) (List.Subset.refl _)
  state := h.1.state
  refused := h.1.refused
  about := by
    intro c' hc'
    obtain rfl : c = c' := by simpa using hc'
    exact ⟨rfl, rfl, merged, hreads, rfl⟩
  gone := by
    dsimp only
    rw [Function.update_of_ne (partialPath_ne output), Function.update_self]

theorem wp_verify (h : Ready μ parts output probes v) :
    (verify output (probes.map (·.duration)).sum).wp (μ.world output) (Guard μ parts output) (Placed μ parts output)
      (fun _ => On μ parts output) v := by
  have hown : own output ⊆ own output := fun _ h => h
  have hout : output ∈ own output := by simp [own]
  have htarget : partialPath output ∈ own output := by simp [own]
  refine (wp_bind _ _).2 (wp_mono (wp_update (ready_stable (by simp)) (fun _ h => h.1.toOn) rfl rfl h) ?_ fun _ _ h => h)
  rintro _ v₁ ⟨h₁, -⟩
  refine (wp_bind _ _).2 (wp_probeFile (ready_stable hout) hown (fun _ h => h.1.toOn) _ h₁ ?_)
  intro merged v₂ h₂ _ hreads
  refine wp_ite (fun _ => h₂.1.toOn) fun hdrift => ?_
  have hI₂ : Stable (own output) fun v => Ready μ parts output probes v ∧ About (partialPath output) (μ.Reads · merged) v :=
    (ready_stable hout).and (About.stable htarget)
  have hsize : LeavesAll (own output) (.fileSize (partialPath output)) := fun _ _ => trivial
  refine (wp_bind _ _).2 (wp_ask hI₂ hown (fun _ h => h.1.1.toOn) hsize ⟨h₂, hreads⟩ fun v₀ size v₃ _ ha h₃ => ?_)
  obtain ⟨rfl, hsized, -⟩ := ha
  have hI₃ : Stable (own output) fun v => Ready μ parts output probes v ∧
      About (partialPath output) (fun c => μ.Reads c merged ∧ size = μ.size c) v := (ready_stable hout).and (About.stable htarget)
  have hknown : About (partialPath output) (fun c => μ.Reads c merged ∧ size = μ.size c) v₃ := by
    intro c hc
    obtain ⟨c', hc', hn⟩ := hsized size rfl
    obtain rfl := Option.some.inj (hc.symm.trans hc')
    exact ⟨h₃.2 c hc, hn⟩
  have hupdate : Uses (LeavesAll (own output)) (update { phase := some "hashing", progress := some 0, size := some size }) :=
    (uses_call _).2 (leavesAll_update rfl rfl)
  refine (wp_bind _ _).2 (wp_mono (keeps_leaves hI₃ hown (fun _ h => h.1.1.toOn) hupdate v₃ ⟨h₃.1, hknown⟩) ?_ fun _ _ h => h)
  intro _ v₄ h₄
  have hsha1 : LeavesAll (own output) (.sha1 (partialPath output)) := fun _ _ => trivial
  refine (wp_bind _ _).2 (wp_ask hI₃ hown (fun _ h => h.1.1.toOn) hsha1 h₄ fun v₀ digest v₅ _ ha h₅ => ?_)
  obtain ⟨rfl, hdigest, -⟩ := ha
  have hI₅ : Stable (own output) fun v => Ready μ parts output probes v ∧
      About (partialPath output) (fun c => μ.Reads c merged ∧ size = μ.size c ∧ digest.1 = μ.sha1 c) v :=
    (ready_stable hout).and (About.stable htarget)
  have hknown : About (partialPath output) (fun c => μ.Reads c merged ∧ size = μ.size c ∧ digest.1 = μ.sha1 c) v₅ := by
    intro c hc
    obtain ⟨c', hc', hn⟩ := hdigest digest rfl
    obtain rfl := Option.some.inj (hc.symm.trans hc')
    exact ⟨(h₅.2 c hc).1, (h₅.2 c hc).2, hn⟩
  refine (wp_bind _ _).2 (wp_mono (keeps_leaves hI₅ hown (fun _ h => h.1.1.toOn)
    (uses_forEach fun _ _ => (uses_call _).2 (leavesAll_update rfl rfl)) v₅ ⟨h₅.1, hknown⟩) ?_ fun _ _ h => h)
  intro _ v₆ h₆
  -- the one action that puts a file at `output`: it has just been checked
  have hreplace : ∀ r v₇, μ.world output v₆ (.replace (partialPath output) output) r v₇ →
      On μ parts output v₇ ∧ (∀ u, r = .ok u → Placed μ parts output ⟨size, digest.1, merged.duration⟩ v₇) := by
    rintro r v₇ ⟨v₀, hthin, ha⟩
    obtain ⟨⟨hrun, hagreed⟩, habout⟩ := hI₅ v₆ v₀ h₆ fun p hp => left_of_thinned (by simpa [own] using hp) hthin
    obtain ⟨rfl, c, hc, rfl⟩ | ⟨rfl, e, rfl, -⟩ := ha
    · obtain ⟨hread, rfl, hdigest⟩ := habout c hc
      have hplaced := Ready.placed ⟨hrun, hagreed⟩ hread (by simpa using hdrift)
      rw [← hdigest] at hplaced
      exact ⟨hplaced.toOn, fun _ _ => hplaced⟩
    · refine ⟨hrun.toOn, ?_⟩
      rintro u ⟨⟩
  refine (wp_bind _ _).2 ((wp_call _).2 ⟨fun r v₇ ht => (hreplace r v₇ ht).1.inv, fun u v₇ ht => (hreplace _ v₇ ht).2 u rfl,
    fun e v₇ ht => (hreplace _ v₇ ht).1⟩)

variable {lower : String → String} {reserve : Nat}

theorem wp_checkParts {I : Volume C → Prop} (hI : Stable [output] I) (hinv : ∀ v, I v → On μ parts output v) (h : I v) :
    (checkParts lower parts output).wp (μ.world output) (Guard μ parts output) (fun _ v' => I v' ∧ 2 ≤ parts.length)
      (fun _ => On μ parts output) v := by
  have hkept := keeps_leaves hI (by simp [own]) hinv (uses_checkParts lower parts output) v h
  by_cases hseveral : parts.length < 2
  · unfold checkParts
    rw [if_pos hseveral]
    exact hinv v h
  · exact wp_mono hkept (fun _ _ h' => ⟨h', by omega⟩) fun _ _ h => h

theorem kinds_of_find? (htold : Told v parts probes)
    (h : (parts.zip probes).find? (fun x => some x.2.byKind ≠ probes.head?.map (·.byKind)) = none) :
    ∀ p ∈ probes, ∀ q ∈ probes, p.byKind = q.byKind := by
  have hfirst : ∀ p ∈ probes, some p.byKind = probes.head?.map (·.byKind) := by
    intro p hp
    obtain ⟨i, hi, rfl⟩ := List.getElem_of_mem hp
    have hi' : i < (parts.zip probes).length := by simpa [htold.length_eq] using hi
    simpa using List.find?_eq_none.1 h _ (List.getElem_mem hi')
  intro p hp q hq
  exact Option.some.inj ((hfirst p hp).trans (hfirst q hq).symm)

/-- Once the first update is written the status is the process's own. -/
theorem wp_merge (h : On μ parts output v) (workdir : Path) (limit : Option Nat) :
    (merge lower parts output workdir reserve limit).wp (μ.world output) (Guard μ parts output) (Placed μ parts output)
      (fun _ => On μ parts output) v := by
  have hmem : output ∈ [output] := by simp
  have hown : [output] ⊆ own output := by simp [own]
  have hrunning : Stable [output] (Running μ parts output) := Running.stable hmem
  refine (wp_bind _ _).2 (wp_mono (wp_update (On.stable hmem) (fun _ h => h) rfl rfl h) ?_ fun _ _ h => h)
  rintro _ v₁ ⟨-, h₁⟩
  refine (wp_bind _ _).2 (wp_mono (wp_checkParts hrunning (fun _ h => h.toOn) h₁) ?_ fun _ _ h => h)
  rintro total v₂ ⟨h₂, hseveral⟩
  refine (wp_bind _ _).2 (wp_mono (keeps_leaves hrunning hown (fun _ h => h.toOn) (uses_checkSpace output total reserve) v₂ h₂) ?_
    fun _ _ h => h)
  intro _ v₃ h₃
  refine (wp_bind _ _).2 (wp_mono (wp_update hrunning (fun _ h => h.toOn) rfl rfl h₃) ?_ fun _ _ h => h)
  rintro _ v₄ ⟨h₄, -⟩
  refine (wp_bind _ _).2 (wp_mono (wp_update hrunning (fun _ h => h.toOn) rfl rfl h₄) ?_ fun _ _ h => h)
  rintro _ v₅ ⟨h₅, -⟩
  refine (wp_bind _ _).2 (wp_mono (wp_probeParts h₅) ?_ fun _ _ h => h)
  rintro probes v₆ ⟨h₆, htold⟩
  cases hodd : (parts.zip probes).find? fun x => some x.2.byKind ≠ probes.head?.map (·.byKind) with
  | some x => exact h₆.toOn
  | none =>
    -- from here on all parts have the same kinds of streams
    have hready : Ready μ parts output probes v₆ := ⟨h₆, hseveral, htold, kinds_of_find? htold hodd⟩
    have hstable : Stable [output] (Ready μ parts output probes) := ready_stable hmem
    refine (wp_bind _ _).2 (wp_mono (keeps_leaves hstable hown (fun _ h => h.1.toOn) (uses_ofExcept _) v₆ hready) ?_ fun _ _ h => h)
    intro _ v₇ h₇
    have hsizes : Uses (LeavesAll [output]) (Prog.foldEach (strays probes) 0 fun extra index => do
        let size ← fileSize (parts.getD index [])
        pure (extra + size)) := by
      refine uses_foldEach (fun extra index _ => ?_) 0
      exact uses_bind (uses_fileSize (parts.getD index [])) fun size => uses_pure (extra + size)
    -- with or without room for remuxed parts: assemble, clear the staging folder, verify
    have hrest : ∀ v₈, Ready μ parts output probes v₈ → Prog.wp (μ.world output) (Guard μ parts output) (do
        let assembled ← (assemble parts output workdir ((muxers.lookup (lower (suffixOf output))).getD "") probes).attempt
        ask (.removeTree (stagingDir output))
        ofExcept assembled
        verify output (probes.map (·.duration)).sum) (Placed μ parts output) (fun _ => On μ parts output) v₈ := by
      intro v₈ h₈
      refine (wp_bind _ _).2 ((wp_attempt _).2 (wp_mono (wp_assemble h₈ workdir _) ?_ ?_))
      · intro _ v₉ h₉
        have hremove : LeavesAll [output] (.removeTree (stagingDir output)) := fun _ _ => trivial
        refine (wp_bind _ _).2 (wp_ask hstable hown (fun _ h => h.1.toOn) hremove h₉ fun _ _ v₁₀ _ _ h₁₀ => ?_)
        exact wp_verify h₁₀
      · intro e v₉ h₉
        have hremove : LeavesAll [output] (.removeTree (stagingDir output)) := fun _ _ => trivial
        refine (wp_bind _ _).2 (wp_ask (On.stable hmem) hown (fun _ h => h) hremove h₉ fun _ _ v₁₀ _ _ h₁₀ => ?_)
        exact h₁₀
    refine wp_ite (fun _ => ?_) fun _ => hrest v₇ h₇
    refine (wp_bind _ _).2 (wp_mono (keeps_leaves hstable hown (fun _ h => h.1.toOn) hsizes v₇ h₇) ?_ fun _ _ h => h)
    intro extra v₈ h₈
    have hspace := keeps_leaves hstable hown (fun _ h => h.1.toOn) (uses_checkSpace output (total + extra) reserve) v₈ h₈
    exact (wp_bind _ _).2 (wp_mono hspace (fun _ v₉ h₉ => hrest v₉ h₉) fun _ _ h => h)

/-- What the exit code and the status agree on once a run has ended. -/
def Ended (code : Int) (s : Status) : Prop :=
  (code = 0 ∧ s.state = some "done") ∨ (code = 0 ∧ s.state = some "failed" ∧ s.refused = some true) ∨
    (code = 1 ∧ s.state = some "failed" ∧ s.refused = none)

/-- A run that has said how it ended, and left nothing behind. -/
structure Reported (output : Path) (code : Int) (v : Volume C) : Prop where
  status : ∀ s, v.status = some s → Ended code s
  gone : v.files (partialPath output) = none

/-- The last update of a run. -/
theorem wp_end {fields : Status} {code : Int} (h : On μ parts output v) (hgone : v.files (partialPath output) = none)
    (hends : Ended code (v.object.fields.updated fields))
    (hdone : (v.object.fields.updated fields).state = some "done" → About output (Describes μ (v.object.fields.updated fields).size
      (v.object.fields.updated fields).sha1 (v.object.fields.updated fields).duration) v) :
    (update fields).wp (μ.world output) (Guard μ parts output) (fun _ => Reported output code) (fun _ _ => True) v := by
  have hstep : ∀ r v', μ.world output v (.update true fields) r v' → Inv μ parts output v' ∧ (∀ u, r = .ok u → Reported output code v') := by
    rintro r v' ⟨v₀, hthin, now, ha⟩
    have hl : Left output v v₀ := left_of_thinned (.inl rfl) hthin
    have hinv : Inv μ parts output v₀ := h.inv.left hl (by rw [h.state]; decide)
    have hgone₀ : v₀.files (partialPath output) = none := by
      rcases hthin.files _ (.inr rfl) with he | he
      · rw [he, hgone]
      · exact he
    -- whatever the update does to the status, the files and the script are as they were
    have hkept : ∀ (status : Option Status) (object : StatusFile),
        (∀ s, status = some s → s.state = some "done" → About output (Describes μ s.size s.sha1 s.duration) v₀) →
        Inv μ parts output { v₀ with status, object } := fun status object hdone =>
      ⟨fun c hc => (hinv.checked c hc).mono (List.Subset.refl _), hdone,
        fun inputs hi => (hinv.alike inputs hi).mono (List.Subset.refl _) (List.Subset.refl _)⟩
    rw [update_forced, hthin.object] at ha
    obtain ⟨rfl, -⟩ | ⟨rfl, -, e, rfl, -⟩ := ha
    · refine ⟨hkept _ _ ?_, fun _ _ => ⟨?_, hgone₀⟩⟩
      · rintro _ ⟨⟩ hs
        exact (hdone hs).left hl
      · rintro _ ⟨⟩
        exact hends
    · refine ⟨hkept _ _ hinv.done, ?_⟩
      rintro u ⟨⟩
  exact (wp_call _).2 ⟨fun r v' ht => (hstep r v' ht).1, fun u v' ht => (hstep _ v' ht).2 u rfl, fun _ _ _ => trivial⟩

/-- A run that has not raised. -/
theorem wp_run (h : On μ parts output v) (workdir : Path) :
    (run lower parts output workdir reserve).wp (μ.world output) (Guard μ parts output) (fun code => Reported output code)
      (fun _ _ => True) v := by
  have hmem : output ∈ [output] := by simp
  have hown : [output] ⊆ own output := by simp [own]
  have hon : Stable [output] (On μ parts output) := On.stable hmem
  -- what is left of a refused or failed run: the partial file goes, and the status says so
  have hfailed : ∀ v₂, On μ parts output v₂ → ∀ (refused : Option Bool) (text : String) (code : Int),
      (code = 0 ∧ refused = some true ∨ code = 1 ∧ refused = none) →
      Prog.wp (μ.world output) (Guard μ parts output) (do
        ask (.unlink (partialPath output))
        update { state := some "failed", refused, error := some text }
        pure code) (fun code => Reported output code) (fun _ _ => True) v₂ := by
    intro v₂ h₂ refused text code hcode
    have hunlink : ∀ r v₃, μ.world output v₂ (.unlink (partialPath output)) r v₃ →
        On μ parts output v₃ ∧ (∀ u, r = .ok u → v₃.files (partialPath output) = none) := by
      intro r v₃ ht
      obtain ⟨v₀, -, ha, h₃⟩ := hon.world hown (show LeavesAll [output] (.unlink (partialPath output)) from fun _ _ => trivial) h₂ ht
      refine ⟨h₃, ?_⟩
      obtain ⟨rfl, rfl⟩ | ⟨rfl, e, rfl, -⟩ := ha
      · exact fun _ _ => Function.update_self ..
      · rintro u ⟨⟩
    refine (wp_bind _ _).2 ((wp_call _).2 ⟨fun r v₃ ht => (hunlink r v₃ ht).1.inv, fun u v₃ ht => ?_, fun _ _ _ => trivial⟩)
    obtain ⟨h₃, hgone⟩ := hunlink _ v₃ ht
    refine (wp_bind _ _).2 (wp_end h₃ (hgone u rfl) ?_ ?_)
    · rcases hcode with ⟨rfl, rfl⟩ | ⟨rfl, rfl⟩
      · exact .inr (.inl ⟨rfl, rfl, rfl⟩)
      · exact .inr (.inr ⟨rfl, rfl, h₃.refused⟩)
    · exact fun hs => absurd (Option.some.inj hs) (by decide)
  have hmemory : LeavesAll [output] .memoryMax := fun _ _ => trivial
  have hbody : Prog.wp (μ.world output) (Guard μ parts output) (do
      let text ← ask .memoryMax
      merge lower parts output workdir reserve (memoryLimit text)) (Placed μ parts output) (fun _ => On μ parts output) v :=
    (wp_bind _ _).2 (wp_ask hon hown (fun _ h => h) hmemory h fun _ text v₁ _ _ h₁ => wp_merge h₁ workdir (memoryLimit text))
  refine (wp_bind _ _).2 ((wp_attempt _).2 (wp_mono hbody ?_ ?_))
  · intro merged v₂ h₂
    exact (wp_bind _ _).2 (wp_end h₂.toOn h₂.gone (.inl ⟨rfl, rfl⟩) fun _ => h₂.about)
  · intro e v₂ h₂
    cases e with
    | refused text => exact hfailed v₂ h₂ (some true) text 0 (.inl ⟨rfl, rfl⟩)
    | failed text => exact hfailed v₂ h₂ none text 1 (.inr ⟨rfl, rfl⟩)
    | os e => exact hfailed v₂ h₂ none e.text 1 (.inr ⟨rfl, rfl⟩)
    | other text => trivial

end wp

/-! ## The attempts of one Job -/

section attempts
variable (μ : Media C) (lower : String → String) (parts : List Path) (output workdir : Path) (reserve : Nat)

/-- A new process on the volume. -/
def started (v : Volume C) : Volume C := { v with object := {}, commands := [], script := none }

/-- A volume where the Job's process has been started any number of times, each of them stopped
after any action or run to its end. Nothing is under the final name before the first. -/
inductive Attempts : Volume C → Prop where
  | first {v : Volume C} : v.files output = none → (∀ s, v.status = some s → s.state ≠ some "done") → v.script = none → Attempts v
  | attempt {v v' : Volume C} : Attempts v →
      Stops (μ.world output) (started v) (run lower parts output workdir reserve) v' → Attempts v'
  | thinned {v v' : Volume C} : Attempts v → Thinned output v v' → Attempts v'

end attempts

section attempts
variable {μ : Media C} {lower : String → String} {parts : List Path} {output workdir : Path} {reserve : Nat} {v v' : Volume C}

theorem Inv.started (h : Inv μ parts output v) : On μ parts output (started v) := by
  refine ⟨⟨fun c hc => (h.checked c hc).mono (List.Subset.refl _), h.done, ?_⟩, rfl, rfl⟩
  rintro inputs ⟨⟩

theorem Inv.thinned (h : Inv μ parts output v) (ht : Thinned output v v') : Inv μ parts output v' := by
  have hl : Left output v v' := left_of_thinned (.inl rfl) ht
  refine ⟨About.left (P := Checked μ parts v') (fun c hc => (h.checked c hc).mono hl.probed) hl, fun s hs hdone => ?_,
    fun inputs hi => (h.alike inputs (hl.script ▸ hi)).mono hl.probed hl.commands⟩
  rcases ht.status with he | he
  · exact (About.left (P := Describes μ s.size s.sha1 s.duration) (h.done s (he ▸ hs) hdone) hl)
  · rw [he] at hs
    cases hs

theorem Attempts.inv (h : Attempts μ lower parts output workdir reserve v) : Inv μ parts output v := by
  induction h with
  | first hfile hstatus hscript =>
    refine ⟨fun c hc => ?_, fun s hs hdone => absurd hdone (hstatus s hs), fun inputs hi => ?_⟩
    · rw [hfile] at hc
      cases hc
    · rw [hscript] at hi
      cases hi
  | attempt _ hstops ih => exact wp_stops (fun _ _ r v' _ hguard ht => hguard r v' ht) (wp_run ih.started workdir) ih.started.inv hstops
  | thinned _ ht ih => exact ih.thinned ht

/-- However often the Job's process is started and wherever it is killed, the file under the final
name is a merge whose check it passed, and a status that says `done` describes that file. -/
theorem Attempts.output_checked (h : Attempts μ lower parts output workdir reserve v) {c : C} (hc : v.files output = some c) :
    Checked μ parts v c ∧ ∀ s, v.status = some s → s.state = some "done" → Describes μ s.size s.sha1 s.duration c :=
  ⟨h.inv.checked c hc, fun s hs hdone => h.inv.done s hs hdone c hc⟩

/-- A run that ends has said how, with the exit code that goes with it, and leaves no partial file. -/
theorem Attempts.run_reported (h : Attempts μ lower parts output workdir reserve v) {code : Int}
    (hr : Runs (μ.world output) (started v) (run lower parts output workdir reserve) (.ok code) v') : Reported output code v' :=
  wp_runs_ok (wp_run h.inv.started workdir) hr

end attempts

/-! ## One title of two parts -/

section sample

/-- A part of `c` seconds whose audio comes first when `c` is even. -/
def sampleMedia : Media Nat where
  ffprobe c :=
    let video : StreamInfo := ⟨⟨some "video", some "h264", some 1920, some 1080, none, none⟩, none⟩
    let audio : StreamInfo := ⟨⟨some "audio", some "aac", none, none, some "48000", some 2⟩, none⟩
    ⟨0, [], some (1000000 * c), if c % 2 = 0 then [audio, video] else [video, audio]⟩
  size c := c
  sha1 c := toString c

def sampleParts : List Path := [["m", "a-1.mp4"], ["m", "a-2.mp4"]]
def sampleOutput : Path := ["up", "a.mp4"]

def sampleVolume : Volume Nat where
  files p := if p = ["m", "a-1.mp4"] then some 3 else if p = ["m", "a-2.mp4"] then some 4 else none
  status := none
  object := {}
  probed := []
  commands := []
  script := none

def sampleMissing : Exc := .os ⟨true, none, "missing"⟩

/-- A world where nothing fails, and ffmpeg puts its parts together. -/
def sampleAnswer (v : Volume Nat) : (op : Op) → Except Exc (Res op) × Volume Nat
  | .update force fields =>
      let next := v.object.update 0 force fields
      (.ok (), { v with object := next.1, status := next.2.or v.status })
  | .memoryMax => (.ok none, v)
  | .fileSize p => (((v.files p).map Except.ok).getD (.error sampleMissing), v)
  | .freeSpace _ => (.ok ((10 ^ 12 : Nat)), v)
  | .ffprobe p =>
      match v.files p with
      | some c => (.ok (sampleMedia.ffprobe c), { v with probed := (p, sampleMedia.ffprobe c) :: v.probed })
      | none => (.error sampleMissing, v)
  | .makeDir _ => (.ok (), v)
  | .ffmpeg command p =>
      (.ok ⟨[], 0, false, []⟩, { v with
        files := Function.update v.files p (some (if v.script = none then 5 else 7)), commands := command :: v.commands })
  | .writeScript inputs _ => (.ok (), { v with script := some inputs })
  | .removeTree _ => (.ok (), v)
  | .sha1 p => (((v.files p).map fun c => Except.ok (sampleMedia.sha1 c, [])).getD (.error sampleMissing), v)
  | .replace p q =>
      match v.files p with
      | some c => (.ok (), { v with files := Function.update (Function.update v.files p none) q (some c) })
      | none => (.error sampleMissing, v)
  | .unlink p => (.ok (), { v with files := Function.update v.files p none })

theorem sampleAnswer_answers (v : Volume Nat) (op : Op) : sampleMedia.world sampleOutput v op (sampleAnswer v op).1 (sampleAnswer v op).2 := by
  refine ⟨v, .refl _ v, ?_⟩
  have hok : ∀ {α : Type} (a : α) (e : Exc), (Except.ok a : Except Exc α) = .error e → Raised e := by
    rintro α a e ⟨⟩
  have hmissing : ∀ {α : Type} (e : Exc), (Except.error sampleMissing : Except Exc α) = .error e → Raised e := by
    rintro α e ⟨⟩
    trivial
  cases op with
  | update force fields => exact ⟨(0 : Int), .inl ⟨rfl, rfl⟩⟩
  | fileSize p =>
    cases hc : v.files p with
    | none =>
      rw [show sampleAnswer v (.fileSize p) = (.error sampleMissing, v) by rw [sampleAnswer, hc]; rfl]
      refine ⟨rfl, ?_, hmissing⟩
      rintro n ⟨⟩
    | some c =>
      rw [show sampleAnswer v (.fileSize p) = (.ok c, v) by rw [sampleAnswer, hc]; rfl]
      refine ⟨rfl, ?_, hok c⟩
      rintro n ⟨⟩
      exact ⟨c, hc, rfl⟩
  | ffprobe p =>
    cases hc : v.files p with
    | none =>
      rw [show sampleAnswer v (.ffprobe p) = (.error sampleMissing, v) by simp [sampleAnswer, hc]]
      exact .inr ⟨rfl, sampleMissing, rfl, trivial⟩
    | some c =>
      rw [show sampleAnswer v (.ffprobe p) = (.ok (sampleMedia.ffprobe c), { v with probed := (p, sampleMedia.ffprobe c) :: v.probed }) by
        simp [sampleAnswer, hc]]
      exact .inl ⟨_, rfl, fun _ => ⟨c, hc, rfl⟩, rfl⟩
  | sha1 p =>
    cases hc : v.files p with
    | none =>
      rw [show sampleAnswer v (.sha1 p) = (.error sampleMissing, v) by rw [sampleAnswer, hc]; rfl]
      refine ⟨rfl, ?_, hmissing⟩
      rintro x ⟨⟩
    | some c =>
      rw [show sampleAnswer v (.sha1 p) = (.ok (sampleMedia.sha1 c, []), v) by rw [sampleAnswer, hc]; rfl]
      refine ⟨rfl, ?_, hok (sampleMedia.sha1 c, [])⟩
      rintro x ⟨⟩
      exact ⟨c, hc, rfl⟩
  | replace p q =>
    cases hc : v.files p with
    | none =>
      rw [show sampleAnswer v (.replace p q) = (.error sampleMissing, v) by simp [sampleAnswer, hc]]
      exact .inr ⟨rfl, sampleMissing, rfl, trivial⟩
    | some c =>
      refine .inl ⟨?_, c, hc, ?_⟩
      · simp [sampleAnswer, hc]
      · simp [sampleAnswer, hc]
  | ffmpeg command p =>
    refine ⟨fun q hq => Function.update_of_ne hq .., rfl, rfl, rfl, rfl, .inl ⟨⟨_, rfl, rfl⟩, rfl⟩, hok _⟩
  | removeTree dir => exact ⟨rfl, fun _ => .inl rfl, rfl, rfl, rfl, rfl, rfl⟩
  | unlink p => exact .inl ⟨rfl, rfl⟩
  | writeScript inputs text => exact .inl ⟨rfl, rfl⟩
  | memoryMax => exact ⟨rfl, hok _⟩
  | freeSpace dir => exact ⟨rfl, hok _⟩
  | makeDir dir => exact ⟨rfl, hok _⟩

/-- The volume after the run. -/
def sampleEnd : Except Exc Int × Volume Nat := exec sampleAnswer (started sampleVolume) (run id sampleParts sampleOutput ["tmp"] 0)

theorem sampleAttempts : Attempts sampleMedia id sampleParts sampleOutput ["tmp"] 0 sampleEnd.2 :=
  .attempt (.first (by decide) (by rintro s ⟨⟩) rfl) (exec_runs sampleAnswer_answers _ _).stops

theorem sample_output_checked : Checked sampleMedia sampleParts sampleEnd.2 7 ∧
    ∀ s, sampleEnd.2.status = some s → s.state = some "done" → Describes sampleMedia s.size s.sha1 s.duration 7 :=
  sampleAttempts.output_checked (by decide)

theorem sampleEnd_code : sampleEnd.1 = .ok 0 := by decide

theorem sample_run_reported : Reported sampleOutput 0 sampleEnd.2 := by
  have hruns := exec_runs sampleAnswer_answers (started sampleVolume) (run id sampleParts sampleOutput ["tmp"] 0)
  rw [show (exec sampleAnswer (started sampleVolume) (run id sampleParts sampleOutput ["tmp"] 0)).1 = .ok 0 from sampleEnd_code] at hruns
  exact Attempts.run_reported (.first (by decide) (by rintro s ⟨⟩) rfl) hruns

end sample

end EmbyxManager.Merge.Worker
