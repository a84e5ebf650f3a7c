import Mathlib
import EmbyxManager.Merge.Service
import EmbyxManager.Monitor.Library
/-!
# The merge Job's body

`embyx-manager merge-worker`: the parts of one title are checked, put in one stream order
where theirs differ, and concatenated into a file beside the output, which is checked in
turn and only then renamed into place. What the worker does not compute itself is an action:
the files, the status file, ffprobe and ffmpeg. Durations are in microseconds, and exact.
-/

namespace EmbyxManager.Merge.Worker

open Atom

/-! ## What is raised -/

structure OsError where
  /-- `FileNotFoundError`. -/
  notFound : Bool
  strerror : Option String
  text : String
  deriving DecidableEq

inductive Exc where
  /-- `MergeRefusedError`: the parts can never be merged. -/
  | refused (text : String)
  /-- `MergeWorkerError`. -/
  | failed (text : String)
  | os (e : OsError)
  | other (text : String)
  deriving DecidableEq

/-- `exc.strerror or exc`. -/
def OsError.reason (e : OsError) : String := (truthy e.strerror).getD e.text

/-! ## Numbers in messages -/

/-- The digits of a number, as `str.isdigit` and `int` take them. -/
def digits? (s : String) : Option Nat :=
  if s ≠ "" ∧ s.toList.all Char.isDigit then some (s.toList.foldl (fun n c => n * 10 + (c.toNat - 48)) 0) else none

/-- A fraction rounded to the nearest number, to the even one halfway. -/
def rounded (n d : Nat) : Nat :=
  if 2 * (n % d) > d ∨ (2 * (n % d) = d ∧ n / d % 2 = 1) then n / d + 1 else n / d

/-- `{n / d:.1f}`. -/
def oneDecimal (n d : Nat) : String := s!"{rounded (n * 10) d / 10}.{rounded (n * 10) d % 10}"

/-- `{n:,}`. -/
def grouped (n : Nat) : String :=
  let cs := (toString n).toList
  String.ofList (cs.zipIdx.flatMap fun x => if x.2 ≠ 0 ∧ (cs.length - x.2) % 3 = 0 then [',', x.1] else [x.1])

def gib : Nat := 1024 ^ 3

/-- `{duration:.1f}`. -/
def inSeconds (duration : Int) : String :=
  (if duration < 0 then "-" else "") ++ oneDecimal duration.natAbs 1000000

/-! ## Streams -/

/-- `SIGNATURE_KEYS` of one stream. -/
structure Stream where
  codecType : Option String
  codecName : Option String
  width : Option Int
  height : Option Int
  sampleRate : Option String
  channels : Option Int
  deriving DecidableEq

/-- `str(stream.get('codec_type'))`. -/
def Stream.kind (s : Stream) : String := s.codecType.getD "None"
def Stream.video (s : Stream) : Bool := s.codecType = some "video"
def Stream.media (s : Stream) : Bool := s.video || s.codecType = some "audio"

def mediaKind (kind : String) : Bool := kind = "video" || kind = "audio"

theorem Stream.mediaKind_kind (s : Stream) : mediaKind s.kind = s.media := by
  cases h : s.codecType <;> simp [Stream.media, Stream.kind, Stream.video, mediaKind, h]

structure Probe where
  duration : Int
  /-- The video and audio streams, in the file's order. -/
  signature : List Stream
  /-- Every stream's type in index order, which the concat demuxer pairs streams by. -/
  layout : List String
  /-- Video and audio packets, when the container counts them. -/
  packets : Option Nat
  paired : signature.map Stream.kind = layout.filter mediaKind
  media : ∀ s ∈ signature, s.media = true

namespace Probe

/-- Video before audio: a stable sort by a key of two values. -/
def byKind (p : Probe) : List Stream := p.signature.filter (·.video) ++ p.signature.filter (!·.video)

/-- Whether the file holds nothing but its video streams followed by its audio streams. -/
def inOrder (p : Probe) : Bool := p.layout = p.byKind.map Stream.kind

end Probe

structure StreamInfo where
  stream : Stream
  /-- `nb_frames`, when it is a number. -/
  nbFrames : Option Nat

/-- What a run of ffprobe comes to. -/
structure FfprobeRun where
  returncode : Int
  /-- The lines of the stripped stderr. -/
  stderr : List String
  /-- `float(info['format']['duration'])`, when there is one. -/
  duration : Option Int
  streams : List StreamInfo

def probe (name : String) (run : FfprobeRun) : Except Exc Probe :=
  if run.returncode ≠ 0 then
    let message := run.stderr.getLastD "no output"
    .error (.failed s!"ffprobe cannot read {name}: {message}")
  else match run.duration with
    | none => .error (.failed s!"ffprobe reports no duration for {name}")
    | some duration =>
      let media := run.streams.filter (·.stream.media)
      if media.any (·.stream.video) then .ok {
        duration
        signature := media.map (·.stream)
        layout := run.streams.map (·.stream.kind)
        packets := (media.mapM StreamInfo.nbFrames).map List.sum
        paired := by
          rw [List.map_map, List.filter_map]
          congr 1
          exact List.filter_congr fun s _ => (s.stream.mediaKind_kind).symm
        media := by
          intro s hs
          obtain ⟨info, hinfo, rfl⟩ := List.mem_map.1 hs
          exact (List.mem_filter.1 hinfo).2 }
      else .error (.refused s!"{name} has no video stream")

/-! ## The status file -/

/-- The fields of a status; the ones that are not given are kept. -/
structure Status where
  state : Option String := none
  phase : Option String := none
  progress : Option Rat := none
  totalBytes : Option Nat := none
  writtenBytes : Option Nat := none
  duration : Option Int := none
  size : Option Nat := none
  sha1 : Option String := none
  refused : Option Bool := none
  error : Option String := none
  deriving DecidableEq

/-- `self._fields.update(fields)`. -/
def Status.updated (s fields : Status) : Status where
  state := fields.state.or s.state
  phase := fields.phase.or s.phase
  progress := fields.progress.or s.progress
  totalBytes := fields.totalBytes.or s.totalBytes
  writtenBytes := fields.writtenBytes.or s.writtenBytes
  duration := fields.duration.or s.duration
  size := fields.size.or s.size
  sha1 := fields.sha1.or s.sha1
  refused := fields.refused.or s.refused
  error := fields.error.or s.error

/-- `STATUS_INTERVAL_SECONDS`. -/
def statusInterval : Time := seconds 5

/-- The process's `StatusFile`. -/
structure StatusFile where
  fields : Status := { state := some "running" }
  lastWrite : Option Time := none

/-- `StatusFile.update`: the object after it, and what is then written, if anything is. -/
def StatusFile.update (s : StatusFile) (now : Time) (force : Bool) (fields : Status) : StatusFile × Option Status :=
  let fields := s.fields.updated fields
  if !force && s.lastWrite.any (now - · < statusInterval) then ({ s with fields }, none)
  else (⟨fields, some now⟩, some fields)

/-! ## Actions -/

/-- What a run of ffmpeg comes to. -/
structure FfmpegRun where
  /-- What it printed on its progress pipe. -/
  lines : List String
  returncode : Int
  /-- The stall watch has killed it. -/
  stalled : Bool
  /-- The last lines of its stderr. -/
  tail : List String

inductive Op where
  | update (force : Bool) (fields : Status)
  /-- The text of the cgroup's `memory.max`, if it can be read. -/
  | memoryMax
  | fileSize (file : Path)
  | freeSpace (dir : Path)
  | ffprobe (file : Path)
  | makeDir (dir : Path)
  /-- A run of ffmpeg, and the file it writes. -/
  | ffmpeg (command : List String) (file : Path)
  | writeScript (inputs : List Path) (text : String)
  /-- `shutil.rmtree(dir, ignore_errors=True)`. -/
  | removeTree (dir : Path)
  /-- The digest, and how far the read was at each chunk. -/
  | sha1 (file : Path)
  | replace (file target : Path)
  /-- `unlink(missing_ok=True)`. -/
  | unlink (file : Path)

def Res : Op → Type
  | .memoryMax => Option String
  | .fileSize _ | .freeSpace _ => Nat
  | .ffprobe _ => FfprobeRun
  | .ffmpeg .. => FfmpegRun
  | .sha1 _ => String × List Nat
  | _ => Unit

abbrev M := Prog Res Exc

def ask (op : Op) : M (Res op) := Prog.call op
def refuse {α : Type} (text : String) : M α := .raise (.refused text)
def fail {α : Type} (text : String) : M α := .raise (.failed text)

def ofExcept {α : Type} : Except Exc α → M α
  | .ok a => .ret a
  | .error e => .raise e

def fileSize (file : Path) : M Nat := ask (.fileSize file)
def freeSpace (dir : Path) : M Nat := ask (.freeSpace dir)
def sha1Of (file : Path) : M (String × List Nat) := ask (.sha1 file)

def update (fields : Status) : M Unit := ask (.update true fields)
/-- `status.update(force=False, ...)`. -/
def progressed (fields : Status) : M Unit := ask (.update false fields)

/-! ## Paths -/

def nameOf (p : Path) : String := p.getLastD ""
def withName (p : Path) (name : String) : Path := p.dropLast ++ [name]

/-- Where the merge is written until it has been checked. -/
def partialPath (output : Path) : Path := withName output s!".{nameOf output}.part"
/-- Where parts remuxed into stream order are kept while the merge runs. -/
def stagingDir (output : Path) : Path := withName output s!".{nameOf output}.parts"

/-- The containers a merge can write. -/
def muxers : List (String × String) :=
  [(".mp4", "mp4"), (".m4v", "mp4"), (".mov", "mov"), (".mkv", "matroska"), (".ts", "mpegts"), (".avi", "avi"), (".wmv", "asf")]

/-- `path.suffix`. -/
def suffixOf (p : Path) : String := String.ofList (suffix (nameOf p))

/-- An ffmpeg concat-demuxer script naming each part. -/
def concatList (inputs : List Path) : String :=
  "\n".intercalate (inputs.map fun p => "file '" ++ (shown p).replace "'" "'\\''" ++ "'") ++ "\n"

/-! ## Checks -/

/-- `MAX_UPLOAD_BYTES`. -/
def maxUploadBytes : Nat := 115 * 10 ^ 9

/-- `sorted(suffixes)` as a message shows it. -/
def listed (suffixes : List String) : String :=
  "[" ++ ", ".intercalate ((suffixes.dedup.mergeSort (· ≤ ·)).map fun s => "'" ++ s ++ "'") ++ "]"

section checks
-- `lower` is `str.lower`
variable (lower : String → String)

def checkParts (parts : List Path) (output : Path) : M Nat := do
  if parts.length < 2 then refuse "a merge needs at least two parts"
  else if parts.any fun p => lower (suffixOf p) ≠ lower (suffixOf output) then
    refuse s!"parts and output must share one container, got {listed (parts.map fun p => lower (suffixOf p))}"
  else if (muxers.lookup (lower (suffixOf output))).isNone then refuse s!"cannot write a {suffixOf output} container"
  else
    let total ← Prog.foldEach parts 0 fun total part => do
      match ← (fileSize part).attempt with
      | .ok size => pure (total + size)
      | .error (.os e) => fail s!"cannot read {shown part}: {e.reason}"
      | .error e => .raise e
    if total > maxUploadBytes then
      refuse (s!"the parts add up to {oneDecimal total (10 ^ 9)} GB, more than the {maxUploadBytes / 10 ^ 9} GB " ++
        "115 accepts in one file")
    else pure total

end checks

def checkSpace (output : Path) (needed reserve : Nat) : M Unit := do
  let free ← freeSpace output.dropLast
  -- a leftover from an interrupted attempt is about to be overwritten
  let reclaimable ← match ← (fileSize (partialPath output)).attempt with
    | .ok size => pure size
    | .error (.os e) => if e.notFound then pure 0 else .raise (.os e)
    | .error e => .raise e
  if free + reclaimable < needed + reserve then
    fail (s!"not enough space in {shown output.dropLast}: {oneDecimal (free + reclaimable) gib} GiB free, " ++
      s!"{oneDecimal needed gib} GiB needed plus a {rounded reserve gib} GiB reserve")

/-- The muxers that hold an entry per packet in memory. -/
def indexedMuxers : List String := ["mp4", "mov"]
def indexBytesPerPacket : Nat := 80
def indexBaselineBytes : Nat := 192 * 1024 ^ 2

def checkMemory (probes : List Probe) (muxer : String) (limit : Option Nat) : Except Exc Unit :=
  match limit, probes.mapM Probe.packets with
  | some limit, some packets =>
    let needed := packets.sum * indexBytesPerPacket + indexBaselineBytes
    if muxer ∈ indexedMuxers ∧ needed > limit then
      .error (.refused (s!"the parts hold {grouped packets.sum} packets, whose {muxer} index needs about " ++
        s!"{oneDecimal needed gib} GiB of memory, more than the Job is allowed ({oneDecimal limit gib} GiB)"))
    else .ok ()
  | _, _ => .ok ()

/-- `memory_limit`. -/
def memoryLimit (text : Option String) : Option Nat := text.bind fun s => digits? s.trimAscii.toString

/-! ## ffmpeg -/

/-- What one line of ffmpeg's progress says. -/
def progressFields (duration : Int) (line : String) : Option Status :=
  let line := line.trimAscii.toString.toList
  let key := line.takeWhile (· ≠ '=')
  match digits? (String.ofList (line.drop (key.length + 1))) with
  | none => none
  | some value =>
    if key = "out_time_us".toList then
      if duration > 0 then some { progress := some (min ((value : Rat) / duration) 1) } else none
    else if key = "total_size".toList then some { writtenBytes := some value }
    else none

/-- What one line of progress writes. -/
def report (duration : Int) (line : String) : M Unit :=
  match progressFields duration line with
  | some fields => progressed fields
  | none => pure ()

def runFfmpeg (command : List String) (file : Path) (duration : Int) : M Unit := do
  let run ← ask (.ffmpeg command file)
  Prog.forEach run.lines (report duration)
  let tail := " | ".intercalate run.tail
  if run.stalled then
    fail ("ffmpeg made no progress for 15 minutes and was stopped" ++ if run.tail = [] then "" else ": " ++ tail)
  else if run.returncode ≠ 0 then
    fail ("ffmpeg failed: " ++ if run.tail = [] then s!"exit {run.returncode}" else tail)

/-- The options every run has, around what it reads. -/
def ffmpegCommand (input : List String) (muxer : String) (file : Path) : List String :=
  ["ffmpeg", "-hide_banner", "-nostdin", "-loglevel", "error", "-y"] ++ input ++
    ["-map", "0:v", "-map", "0:a?", "-c", "copy", "-f", muxer, "-progress", "pipe:1", "-nostats", shown file]

/-- A part into a file with its video streams first. -/
def remux (part file : Path) (muxer : String) (duration : Int) : M Unit :=
  runFfmpeg (ffmpegCommand ["-i", shown part] muxer file) file duration

def concat (inputs : List Path) (target workdir : Path) (muxer : String) (expected : Int) : M Unit := do
  update { phase := some "merging", progress := some 0, duration := some expected }
  ask (.writeScript inputs (concatList inputs))
  runFfmpeg (ffmpegCommand ["-f", "concat", "-safe", "0", "-i", shown (workdir ++ ["concat.txt"])] muxer target) target expected

/-! ## Merging -/

/-- What `merge` returns. -/
structure Merged where
  size : Nat
  sha1 : String
  duration : Int

def probeFile (file : Path) : M Probe := do
  let run ← ask (.ffprobe file)
  ofExcept (probe (nameOf file) run)

def probeParts (parts : List Path) : M (List Probe) :=
  Prog.foldEach parts [] fun probes part => do
    let result ← probeFile part
    progressed { progress := some ((probes.length + 1 : Nat) / (parts.length : Rat)) }
    pure (probes ++ [result])

/-- The indexes of the parts to put video first: none while all have one layout. -/
def strays (probes : List Probe) : List Nat :=
  if probes.any fun p => some p.layout ≠ probes.head?.map (·.layout) then
    (probes.zipIdx.filter fun x => !x.1.inOrder).map (·.2)
  else []

/-- `inputs[index] = staging / parts[index].name`. -/
def reordered (parts : List Path) (output : Path) (inputs : List Path) (index : Nat) : List Path :=
  inputs.set index (stagingDir output ++ [nameOf (parts.getD index [])])

/-- `DURATION_TOLERANCE_SECONDS` and `DURATION_TOLERANCE_SHARE`, as a comparison of thousandths. -/
def drifts (merged expected : Int) : Bool := 1000 * ((merged - expected).natAbs : Int) > max 2000000000 (expected * 2)

/-- The parts in one stream order, concatenated. -/
def assemble (parts : List Path) (output workdir : Path) (muxer : String) (probes : List Probe) : M Unit := do
  let inputs ← Prog.foldEach (strays probes) parts fun inputs index => do
    update { phase := some "reordering", progress := some 0 }
    ask (.makeDir (stagingDir output))
    remux (parts.getD index []) (stagingDir output ++ [nameOf (parts.getD index [])]) muxer ((probes.map (·.duration)).getD index 0)
    pure (reordered parts output inputs index)
  concat inputs (partialPath output) workdir muxer (probes.map (·.duration)).sum

/-- The check of the merged file, and its digest. -/
def verify (output : Path) (expected : Int) : M Merged := do
  let target := partialPath output
  update { phase := some "verifying", progress := some 1 }
  let merged ← probeFile target
  if drifts merged.duration expected then
    fail s!"merged duration {inSeconds merged.duration}s does not match the parts ({inSeconds expected}s)"
  else
    let size ← fileSize target
    update { phase := some "hashing", progress := some 0, size := some size }
    let (digest, chunks) ← sha1Of target
    Prog.forEach chunks fun done => progressed { progress := some (if size = 0 then 1 else (done : Rat) / (size : Rat)) }
    ask (.replace target output)
    pure ⟨size, digest, merged.duration⟩

def merge (lower : String → String) (parts : List Path) (output workdir : Path) (reserve : Nat) (limit : Option Nat) :
    M Merged := do
  update { phase := some "checking", progress := some 0 }
  let total ← checkParts lower parts output
  checkSpace output total reserve
  update { totalBytes := some total }
  let muxer := (muxers.lookup (lower (suffixOf output))).getD ""
  update { phase := some "probing" }
  let probes ← probeParts parts
  match (parts.zip probes).find? fun x => some x.2.byKind ≠ probes.head?.map (·.byKind) with
  | some (part, _) =>
    refuse s!"{nameOf part} carries different streams than {nameOf (parts.headD [])}; a stream copy would break"
  | none =>
    ofExcept (checkMemory probes muxer limit)
    if probes.any fun p => some p.layout ≠ probes.head?.map (·.layout) then
      let extra ← Prog.foldEach (strays probes) 0 fun extra index => do
        let size ← fileSize (parts.getD index [])
        pure (extra + size)
      checkSpace output (total + extra) reserve
    -- `finally`: the remuxed parts go either way
    let assembled ← (assemble parts output workdir muxer probes).attempt
    ask (.removeTree (stagingDir output))
    ofExcept assembled
    verify output (probes.map (·.duration)).sum

/-- The `merge-worker` subcommand, and its exit code. -/
def run (lower : String → String) (parts : List Path) (output workdir : Path) (reserve : Nat) : M Int := do
  let body : M Merged := do
    let text ← ask .memoryMax
    merge lower parts output workdir reserve (memoryLimit text)
  match ← body.attempt with
  | .ok result =>
    update {
      state := some "done", phase := some "done", progress := some 1
      size := some result.size, sha1 := some result.sha1, duration := some result.duration }
    pure 0
  | .error (.refused text) =>
    ask (.unlink (partialPath output))
    update { state := some "failed", refused := some true, error := some text }
    pure 0
  | .error (.failed text) =>
    ask (.unlink (partialPath output))
    update { state := some "failed", error := some text }
    pure 1
  | .error (.os e) =>
    ask (.unlink (partialPath output))
    update { state := some "failed", error := some e.text }
    pure 1
  | .error e => .raise e

end EmbyxManager.Merge.Worker
