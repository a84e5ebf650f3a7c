import EmbyxManager.Atom.Prog
import EmbyxManager.Merge.Tasks
/-!
# Driving merge tasks from the queue to the library

The merge service, one definition for each of its methods. Everything it does
not compute itself is an action: the task rows, Kubernetes, CloudDrive, the work
volume and the clock. An action on behalf of a task names that task.
-/

namespace EmbyxManager.Merge

open Atom

/-! ## Configuration and paths -/

/-- A path as its components below the root. -/
abbrev Path := List String

/-- The directories and the reserve of the `merge` section. -/
structure MergeConfig where
  workDir : Path
  cloudWorkDir : Path
  cloudStagingDir : Path
  cloudMountPrefix : Path
  freeSpaceReserveGib : Nat

/-- The two directories of the `archive` section a merge needs. -/
structure ArchiveConfig where
  srcDir : Option Path
  dstDir : Option Path

/-- What a `MergeService` is built with. -/
structure MergeService where
  /-- The merge Job template is mounted. -/
  kube : Bool
  /-- There is a CloudDrive client. -/
  cloud : Bool
  cloudConfigured : Bool
  mergeConfigured : Bool
  merge : MergeConfig
  archive : ArchiveConfig
  /-- `job_name`: the Job's name from the task's id and title. -/
  jobName : Int → String → String
  /-- `whole_copies`: the names that hold the whole of a title. -/
  wholeCopies : String → List String → List String
  /-- `str.upper`. -/
  upper : String → String

/-- Where the files of a task are, on the work volume and at CloudDrive. -/
structure MergePaths where
  output : Path
  status : Path
  cloudSource : Path
  stagingDir : Path
  stagedFile : Path
  intakeDir : Path
  targetDir : Path
  partApiPaths : List Path
  deriving DecidableEq

/-- What the code raises, and what the world raises. -/
inductive Outside where
  | fileNotFound
  | kube (text : String)
  | other (text : String)
  deriving DecidableEq

/-- What a handler or an operator's request ends with. -/
inductive Exc where
  /-- `MergeFailedError`. -/
  | failed (text : String)
  /-- `MergeActionError`. -/
  | action (code : String)
  | outside (o : Outside)
  deriving DecidableEq

/-- `str(exc) or type(exc).__name__`. -/
def Exc.text : Exc → String
  | failed text => text
  | action code => code
  | outside .fileNotFound => "FileNotFoundError"
  | outside (.kube text) => if text = "" then "KubeError" else text
  | outside (.other text) => if text = "" then "Exception" else text

/-- A path as a message shows it. -/
def shown (p : Path) : String := "/" ++ "/".intercalate p

/-- The CloudDrive API path of a file seen through the mount. -/
def apiPath (mounted mountPrefix : Path) : Except Exc Path :=
  if mountPrefix.isPrefixOf mounted then .ok (mounted.drop mountPrefix.length)
  else .error (.failed s!"{shown mounted} is outside the CloudDrive mount {shown mountPrefix}")

/-- `merge_paths`; it raises where a part or the intake lies outside the mount. -/
def mergePaths (m : MergeService) (task : MergeTask) : Except Exc MergePaths := do
  let stagingDir := m.merge.cloudStagingDir ++ [s!"merge-{task.id}"]
  let intakeDir ← match m.archive.srcDir with
    | some srcDir => apiPath srcDir m.merge.cloudMountPrefix
    | none => .error (.failed s!" is outside the CloudDrive mount {shown m.merge.cloudMountPrefix}")
  let partApiPaths ← task.parts.mapM fun part => apiPath part m.merge.cloudMountPrefix
  pure {
    output := m.merge.workDir ++ [task.mergedName]
    status := m.merge.workDir ++ [".merge", s!"{task.id}.json"]
    cloudSource := m.merge.cloudWorkDir ++ [task.mergedName]
    stagingDir
    stagedFile := stagingDir ++ [task.mergedName]
    intakeDir := intakeDir ++ task.source
    targetDir := intakeDir ++ task.source ++ [task.avid]
    partApiPaths }

/-! ## Actions -/

/-- What CloudDrive says of a copy. -/
inductive CopyStatus where
  | pending | scanning | scanned | completed | failed | unknown
  deriving DecidableEq

/-- An entry of CloudDrive's copy list. -/
structure CopyTask where
  sourcePath : Path
  destPath : Path
  status : CopyStatus
  uploadedBytes : Int
  paused : Bool
  errors : List String
  deriving DecidableEq

/-- An entry of a listing. -/
structure CloudFile where
  name : String
  fullPath : Path
  size : Int
  isDirectory : Bool
  /-- By hash kind; `"2"` is the SHA-1. -/
  hashes : List (String × String)
  deriving DecidableEq

/-- The answer to a request that changes files. -/
structure CloudResult where
  success : Bool
  errorMessage : String
  deriving DecidableEq

/-- An entry of a Job's `status.conditions`. -/
structure JobCondition where
  type : String
  status : String
  message : String
  reason : String
  deriving DecidableEq

/-- What Kubernetes says of a Job. -/
structure Job where
  conditions : List JobCondition
  succeeded : Bool
  failed : Bool
  deriving DecidableEq

/-- What the worker reports on the work volume. -/
structure JobStatus where
  state : Option String := none
  size : Option Int := none
  sha1 : Option String := none
  error : Option String := none
  phase : Option String := none
  progress : Option (Option Int) := none
  deriving DecidableEq

/-- What a `delete_files` call is for. -/
inductive Deletion where
  /-- The original parts still listed. -/
  | parts (remaining : List Path)
  | stagingDir (dir : Path)
  | targetDir (dir : Path)
  deriving DecidableEq

/-- The files of a task on the work volume. -/
inductive LocalFile where
  | output | partialFile | status
  deriving DecidableEq

/-- The pipelines a merge wakes. -/
inductive PipelineName where
  | archive | mapping
  deriving DecidableEq

/-- What a merge asks of the world; the task's id says for whom. -/
inductive Op where
  | now
  | trigger (pipeline : PipelineName)
  | openTasks
  | getTask (id : Int)
  | transition (id : Int) (expected state : MergeState) (fields : Fields)
  | update (id : Int) (fields : Fields)
  | createJob (id : Int) (name : String) (args : List String)
  | getJob (id : Int) (name : String)
  | deleteJob (id : Int) (name : String)
  | logTail (id : Int) (name : String)
  | copyTasks (id : Int)
  | listDirectory (id : Int) (dir : Path)
  | statFile (id : Int) (file : Path)
  | deleteFiles (id : Int) (what : Deletion)
  | moveFile (id : Int) (file dir : Path)
  | copyFile (id : Int) (file dir : Path)
  | ensureDirectory (id : Int) (parent : Path) (name : String)
  | restartCopyTask (id : Int) (source dest : Path)
  | cancelCopyTask (id : Int) (source dest : Path)
  | uploadFatalError (id : Int) (file : Path)
  | readStatus (id : Int)
  /-- The size of the merged file, `none` when it is not a file. -/
  | outputSize (id : Int)
  /-- Whether there was one to remove. -/
  | unlink (id : Int) (file : LocalFile)
  /-- The folder the worker keeps remuxed parts in. -/
  | removeStagedParts (id : Int)
  deriving DecidableEq

/-- The type of an answer. -/
def Res : Op → Type
  | .now => Time
  | .openTasks => List MergeTask
  | .getTask _ | .transition .. | .update .. => Option MergeTask
  | .getJob .. => Option Job
  | .logTail .. => String
  | .copyTasks _ => List CopyTask
  | .listDirectory .. => List CloudFile
  | .statFile .. => Option CloudFile
  | .deleteFiles .. | .moveFile .. | .copyFile .. => CloudResult
  | .uploadFatalError .. => Option String
  | .readStatus _ => Option JobStatus
  | .outputSize _ => Option Int
  | .unlink .. => Bool
  | _ => Unit

/-- The programs of the service. -/
abbrev M := Prog Res Exc

/-- One action. -/
def ask (op : Op) : M (Res op) := Prog.call op

/-- `raise MergeFailedError`. -/
def fail {α : Type} (text : String) : M α := .raise (.failed text)

/-- `raise MergeActionError`. -/
def refuse {α : Type} (code : String) : M α := .raise (.action code)

/-- A pure computation that may have raised. -/
def ofExcept {α : Type} : Except Exc α → M α
  | .ok a => .ret a
  | .error e => .raise e

/-- `with suppress(KubeError)`. -/
def suppressKube (p : M Unit) : M Unit := do
  match ← p.attempt with
  | .error (.outside (.kube _)) => pure ()
  | .error e => .raise e
  | .ok () => pure ()

/-- `with suppress(Exception)`. -/
def suppress (p : M Unit) : M Unit := do
  discard p.attempt

/-- The clock. -/
def now : M Time := ask .now

/-- A compare-and-set of the task's state; nothing where the task has moved. -/
def transition (task : MergeTask) (expected state : MergeState) (fields : Fields) : M (Option MergeTask) :=
  ask (.transition task.id expected state fields)

/-- The task's fields, whatever its state. -/
def update (task : MergeTask) (fields : Fields) : M Unit := discard (ask (.update task.id fields))

/-- A fresh listing. -/
def listDirectory (task : MergeTask) (dir : Path) : M (List CloudFile) := ask (.listDirectory task.id dir)

/-- `list_directory` where a folder that is not there holds nothing. -/
def listingOrEmpty (task : MergeTask) (dir : Path) : M (List CloudFile) := do
  match ← (listDirectory task dir).attempt with
  | .error (.outside .fileNotFound) => pure []
  | .error e => .raise e
  | .ok entries => pure entries

/-- `unlink(missing_ok=True)`. -/
def unlink (task : MergeTask) (file : LocalFile) : M Unit := discard (ask (.unlink task.id file))

/-- Minutes as the clock counts. -/
def minutes (n : Int) : Time := seconds (n * 60)

/-! ## Availability -/

/-- Why there is no Kubernetes client. -/
def noJobTemplate : String := "the merge Job template is not mounted (EMBYX_MANAGER_MERGE_JOB_TEMPLATE)"

/-- Why merging cannot run here. -/
def unavailable (m : MergeService) : Option String :=
  if !m.kube then some noJobTemplate
  else if !m.cloudConfigured then some "CloudDrive is not configured"
  else match m.archive.srcDir, m.archive.dstDir with
    | some srcDir, some _ =>
      if !m.mergeConfigured then some "merge directories must be configured"
      else match apiPath srcDir m.merge.cloudMountPrefix with
        | .ok _ => none
        | .error _ => some "archive.src_dir must lie under merge.cloud_mount_prefix"
    | _, _ => some "archive.src_dir and archive.dst_dir must be configured"

/-- There has to be a CloudDrive client. -/
def requireCloud (m : MergeService) : M Unit :=
  if m.cloud then pure () else .raise (.outside (.other "CloudDrive is not configured"))

/-- There has to be a Kubernetes client. -/
def requireKube (m : MergeService) : M Unit :=
  if m.kube then pure () else .raise (.outside (.other noJobTemplate))

/-! ## The library's whole copies -/

/-- The folder the first part is in. -/
def partsDir (paths : MergePaths) : Path := (paths.partApiPaths.headD []).dropLast

/-- The whole copies a listing shows beside the parts. -/
def wholeAmong (m : MergeService) (task : MergeTask) (entries : List CloudFile) : Option String :=
  (m.wholeCopies task.avid ((entries.filter (!·.isDirectory)).map (·.name))).head?

/-- A video beside the parts that holds the whole title, by name. -/
def wholeCopy (m : MergeService) (task : MergeTask) (paths : MergePaths) : M (Option String) := do
  requireCloud m
  if paths.partApiPaths = [] then .raise (.outside (.other "tuple index out of range")) else
  match ← (listDirectory task (partsDir paths)).attempt with
  | .error (.outside .fileNotFound) => pure none
  | .error e => .raise e
  | .ok entries => pure (wholeAmong m task entries)

/-- A title the library holds whole is not merged. -/
def refuseWholeCopy (m : MergeService) (task : MergeTask) (paths : MergePaths) : M Unit := do
  match ← wholeCopy m task paths with
  | some whole =>
    fail (s!"the library already holds {whole}, a whole copy of {task.avid}; " ++
      "merging its parts would only duplicate it")
  | none => pure ()

/-! ## Queued and merging -/

/-- The task gets its Job. -/
def startMerge (m : MergeService) (task : MergeTask) (paths : MergePaths) : M Unit := do
  requireKube m
  refuseWholeCopy m task paths
  let name := m.jobName task.id task.avid
  unlink task .status
  let args := ["--output", shown paths.output, "--status", shown paths.status, "--reserve-gib",
    toString m.merge.freeSpaceReserveGib, "--"] ++ task.parts.map shown
  ask (.createJob task.id name args)
  discard (transition task .queued .merging {
    jobName := some (some name), phase := some (some "starting"), progress := some (some 0)
    error := some none, notice := some none })

/-- `succeeded`, `failed` or `running`. -/
inductive JobOutcome where
  | succeeded | failed | running
  deriving DecidableEq

/-- A condition decides before the counts do. -/
def jobOutcome (job : Job) : JobOutcome :=
  match job.conditions.find? fun c => c.status = "True" && (c.type = "Complete" || c.type = "Failed") with
  | some c => if c.type = "Complete" then .succeeded else .failed
  | none => if job.succeeded then .succeeded else if job.failed then .failed else .running

/-- What a failed Job says about it. -/
def jobFailure (job : Job) : String :=
  match job.conditions.find? fun c => c.type = "Failed" && c.status = "True" with
  | some c => if c.message = "" then c.reason else c.message
  | none => ""

/-- A text the code tests for truth: an empty one counts as none. -/
def truthy (text : Option String) : Option String := text.filter (· ≠ "")

/-- The worker has said how it ended. -/
def reported (status : Option JobStatus) : Bool :=
  match status.bind (·.state) with
  | some s => s = "done" || s = "failed"
  | none => false

/-- The Job is done: take its result over. -/
def takeOver (m : MergeService) (task : MergeTask) (paths : MergePaths) (status : JobStatus) : M Unit := do
  let name := paths.output.getLastD ""
  let onDisk ← ask (.outputSize task.id)
  match onDisk, status.size with
  | some bytes, some size =>
    if bytes ≠ size then
      fail s!"the Job reported {name} done, but it is not on the work volume"
    else
      discard (transition task .merging .uploading {
        mergedBytes := some (some size), mergedSha1 := some (some (m.upper (status.sha1.getD "")))
        phase := some none, progress := some none, uploadedBytes := some (some 0)
        uploadAttempts := some 0, notice := some none })
      match truthy task.jobName with
      | some name => suppressKube (ask (.deleteJob task.id name))
      | none => pure ()
      unlink task .status
  | _, _ => fail s!"the Job reported {name} done, but it is not on the work volume"

/-- The Job was killed before it could clean up after itself. -/
def cleanUp (task : MergeTask) (job : Job) : M Unit := do
  unlink task .partialFile
  ask (.removeStagedParts task.id)
  let tail ← match ← (ask (.logTail task.id (task.jobName.getD ""))).attempt with
    | .error (.outside (.kube _)) => pure ""
    | .error e => .raise e
    | .ok tail => pure tail
  let details := [jobFailure job, tail].filter (· ≠ "")
  fail ("the merge Job failed" ++ if details = [] then "" else ": " ++ " | ".intercalate details)

/-- What the Job itself says while the worker has reported no end. -/
def watchJob (task : MergeTask) (status : JobStatus) (job : Job) : M Unit :=
  match jobOutcome job with
  | .failed => cleanUp task job
  | .succeeded => do
    -- a report written since the last read waits for the next tick
    let again ← ask (.readStatus task.id)
    if reported again then pure () else fail "the merge Job ended without reporting a result"
  | .running =>
    update task {
      phase := some ((truthy status.phase).or task.phase)
      progress := some (status.progress.getD task.progress), notice := some none }

/-- The worker's report decides before the Job does. -/
def watchMerge (m : MergeService) (task : MergeTask) (paths : MergePaths) : M Unit := do
  requireKube m
  let status := (← ask (.readStatus task.id)).getD {}
  if status.state = some "done" then takeOver m task paths status
  else if status.state = some "failed" then fail ((truthy status.error).getD "the merge Job failed")
  else
    let job ← match truthy task.jobName with
      | some name => ask (.getJob task.id name)
      | none => pure none
    match job with
    | none => fail "the merge Job disappeared before it finished"
    | some job => watchJob task status job

/-! ## Uploading and verifying -/

/-- How often an upload is tried. -/
def maxUploadAttempts : Nat := 5

/-- How long 115 may take over a hash. -/
def hashWait : Time := minutes 30

/-- How long CloudDrive may take to list an uploaded file. -/
def stagedFileWait : Time := minutes 10

/-- How often the archive is woken. -/
def archiveNudgeInterval : Time := minutes 5

/-- How long a fresh copy may be missing from the copy list. -/
def copyListingGrace : Time := minutes 2

/-- How long the archive may take to file a merged file. -/
def archiveWait : Time := hours 2

/-- CloudDrive's words for an upload 115 will never take. -/
def permanentUploadErrors : List String := ["code: 10025", "单文件不能大于"]

/-- `marker in text`. -/
def contains (text marker : String) : Bool := text.toList.tails.any marker.toList.isPrefixOf

/-- The latest copy into this task's staging folder. -/
def copyTask (task : MergeTask) (paths : MergePaths) : M (Option CopyTask) := do
  let entries ← ask (.copyTasks task.id)
  pure (entries.reverse.find? (·.destPath = paths.stagingDir))

/-- CloudDrive is asked for the upload; an attempt counts whether it is taken or not. -/
def issueCopy (task : MergeTask) (paths : MergePaths) : M Unit := do
  if task.uploadAttempts ≥ maxUploadAttempts then
    fail s!"CloudDrive did not keep the upload after {task.uploadAttempts} attempts"
  else
    ask (.ensureDirectory task.id paths.stagingDir.dropLast (paths.stagingDir.getLastD ""))
    let result ← ask (.copyFile task.id paths.cloudSource paths.stagingDir)
    update task {
      uploadAttempts := some (task.uploadAttempts + 1)
      notice := some (if result.success then none
        else some (if result.errorMessage = "" then "CloudDrive refused the copy" else result.errorMessage)) }

/-- A failed copy is started again, which counts as an attempt. -/
def restartCopy (task : MergeTask) (paths : MergePaths) (sourcePath : Path) (why : String) : M Unit := do
  ask (.restartCopyTask task.id sourcePath paths.stagingDir)
  update task { uploadAttempts := some (task.uploadAttempts + 1), notice := some (some why) }

/-- A restarted upload is judged anew only after a moment. -/
def judgedAnew (task : MergeTask) (fatal : String) : M Bool := do
  if task.notice ≠ some fatal then pure true
  else pure (decide ((← now) - task.updatedAt ≥ copyListingGrace))

/-- Deal with an upload CloudDrive gave up on; `false` while it has not. -/
def handledFatalUpload (task : MergeTask) (paths : MergePaths) (sourcePath : Path) : M Bool := do
  match ← ask (.uploadFatalError task.id paths.stagedFile) with
  | none => pure false
  | some fatal =>
    let permanent := permanentUploadErrors.any (contains fatal)
    if permanent || decide (task.uploadAttempts ≥ maxUploadAttempts) then
      fail s!"CloudDrive gave up uploading {task.mergedName}: {fatal}"
    else
      if ← judgedAnew task fatal then restartCopy task paths sourcePath fatal
      pure true

/-- The upload is done. -/
def uploaded (task : MergeTask) : M Unit :=
  discard (transition task .uploading .verifying { uploadedBytes := some task.mergedBytes, notice := some none })

/-- The copy list first, then the merged file, then what the copy's status says. -/
def watchUpload (m : MergeService) (task : MergeTask) (paths : MergePaths) : M Unit := do
  requireCloud m
  let copy ← copyTask task paths
  if copy.any (·.status = .completed) then uploaded task
  else if (← ask (.outputSize task.id)).isNone then
    discard (transition task .uploading .queued {
      jobName := some none, mergedBytes := some none, mergedSha1 := some none, uploadedBytes := some none
      notice := some (some "the merged file was lost before the upload finished; merging again") })
  else match copy with
    | none =>
      if task.uploadAttempts ≠ 0 then
        -- CloudDrive may have dropped a finished copy from its list, or not listed a fresh one yet
        let staged ← ask (.statFile task.id paths.stagedFile)
        if staged.any (some ·.size = task.mergedBytes) then uploaded task
        else if (← now) - task.updatedAt < copyListingGrace then pure ()
        else issueCopy task paths
      else issueCopy task paths
    | some copy =>
      if copy.status = .failed then
        let joined := "; ".intercalate copy.errors
        let errors := if joined = "" then "CloudDrive reported the copy as failed" else joined
        if task.uploadAttempts ≥ maxUploadAttempts then
          fail s!"upload failed {task.uploadAttempts} times: {errors}"
        else
          restartCopy task paths copy.sourcePath errors
      else
        let handled ← handledFatalUpload task paths copy.sourcePath
        if !handled then
          update task {
            uploadedBytes := some (some copy.uploadedBytes)
            notice := some (if copy.paused then some "CloudDrive has paused the upload" else none) }

/-- The SHA-1 a listing reports, upper-cased; empty when it reports none. -/
def stagedSha1 (m : MergeService) (staged : CloudFile) : String := m.upper ((staged.hashes.lookup "2").getD "")

/-- A number as a message shows it. -/
def number (n : Option Int) : String := (n.map toString).getD "None"

/-- What 115 lists has to have the size and the hash of the merged file. -/
def verify (m : MergeService) (task : MergeTask) (paths : MergePaths) : M Unit := do
  requireCloud m
  let waited := (← now) - task.stateChangedAt
  match ← ask (.statFile task.id paths.stagedFile) with
  | none =>
    if waited < stagedFileWait then
      update task { notice := some (some "waiting for CloudDrive to list the uploaded file") }
    else fail s!"CloudDrive finished the copy, but {shown paths.stagedFile} is not there"
  | some staged =>
    if some staged.size ≠ task.mergedBytes then
      fail s!"uploaded size {staged.size} differs from the merged file ({number task.mergedBytes})"
    else if stagedSha1 m staged = "" then
      if waited < hashWait then update task { notice := some (some "waiting for 115 to report the SHA-1") }
      else fail "115 never reported a SHA-1 for the uploaded file"
    else if some (stagedSha1 m staged) ≠ task.mergedSha1 then
      let merged := task.mergedSha1.getD "None"
      fail s!"uploaded SHA-1 {stagedSha1 m staged} differs from the merged file ({merged})"
    else
      -- the last look before the parts are deleted
      refuseWholeCopy m task paths
      discard (transition task .verifying .replacing { notice := some none })

/-! ## Replacing and archiving -/

/-- The files CloudDrive still lists, one fresh listing for each folder. -/
def present (le : Path → Path → Bool) (task : MergeTask) (files : List Path) : M (List Path) := do
  let dirs := ((files.map (·.dropLast)).eraseDups).mergeSort le
  let listed ← Prog.foldEach dirs [] fun listed dir => do
    let entries ← listingOrEmpty task dir
    pure (listed ++ (entries.filter (!·.isDirectory)).map (·.fullPath))
  pure (files.filter listed.contains)

/-- Folders in the order of their texts. -/
def pathLe (a b : Path) : Bool := shown a ≤ shown b

/-- Move the merged file into the intake route and drop the local copy. -/
def moveIntoIntake (task : MergeTask) (paths : MergePaths) : M Unit := do
  ask (.ensureDirectory task.id paths.intakeDir.dropLast (paths.intakeDir.getLastD ""))
  ask (.ensureDirectory task.id paths.intakeDir task.avid)
  let staged ← ask (.statFile task.id paths.stagedFile)
  let moved ← if staged.isSome then ask (.moveFile task.id paths.stagedFile paths.targetDir) else pure ⟨true, ""⟩
  if !moved.success then
    update task { notice := some (some (if moved.errorMessage = "" then "the move was refused" else moved.errorMessage)) }
  else if (← ask (.statFile task.id (paths.targetDir ++ [task.mergedName]))).isNone then
    fail s!"the merged file is neither in {shown paths.stagingDir} nor in {shown paths.targetDir}"
  else
    suppress (discard (ask (.deleteFiles task.id (.stagingDir paths.stagingDir))))
    unlink task .output
    unlink task .partialFile
    unlink task .status
    if (← transition task .replacing .archiving { notice := some none }).isSome then ask (.trigger .archive)

/-- The parts are deleted and looked for again before the merged file takes their place. -/
def replace (m : MergeService) (task : MergeTask) (paths : MergePaths) : M Unit := do
  requireCloud m
  let remaining ← present pathLe task paths.partApiPaths
  if remaining = [] then moveIntoIntake task paths
  else
    let result ← ask (.deleteFiles task.id (.parts remaining))
    let remaining ← present pathLe task paths.partApiPaths
    if remaining = [] then moveIntoIntake task paths
    else
      let detail := if result.errorMessage = "" then "retrying" else result.errorMessage
      update task { notice := some (some s!"{remaining.length} original parts are still listed: {detail}") }

/-- The archive has filed the merged file once its folder is gone from the intake. -/
def watchArchive (m : MergeService) (task : MergeTask) (paths : MergePaths) : M Unit := do
  requireCloud m
  let entries ← listingOrEmpty task paths.intakeDir
  if !entries.any (·.fullPath = paths.targetDir) then
    discard (transition task .archiving .done { finishedAt := some (some (← now)), notice := some none })
    ask (.trigger .mapping)
  else
    let time ← now
    if time - task.stateChangedAt > archiveWait then
      match ← wholeCopy m task paths with
      | some whole =>
        fail (s!"the library already holds {whole}, so the archive leaves {shown paths.targetDir} alone; " ++
          "remove the task to delete the merged copy")
      | none => fail s!"the archive has not filed {shown paths.targetDir}; check the archive run log"
    else if time - task.updatedAt > archiveNudgeInterval then
      ask (.trigger .archive)
      update task { notice := some (some "waiting for the archive run to file it") }

/-! ## Polling -/

/-- `handlers[task.state]`. -/
def handler (m : MergeService) (task : MergeTask) (paths : MergePaths) : M Unit :=
  match task.state with
  | .queued => startMerge m task paths
  | .merging => watchMerge m task paths
  | .uploading => watchUpload m task paths
  | .verifying => verify m task paths
  | .replacing => replace m task paths
  | .archiving => watchArchive m task paths
  | _ => .raise (.outside (.other "KeyError"))

/-- The `except` clauses of `_step`. -/
def stepped (task : MergeTask) (result : Except Exc Unit) : M Unit :=
  match result with
  | .ok () => pure ()
  | .error (.failed text) =>
    discard (transition task task.state .failed {
      failedState := some (some task.state), error := some (some text), notice := some none })
  | .error e => update task { notice := some (some e.text) }

/-- One step of one task. -/
def step (m : MergeService) (task : MergeTask) : M Unit := do
  let advanced : M Unit := do
    let paths ← ofExcept (mergePaths m task)
    handler m task paths
  stepped task (← advanced.attempt)

/-- One open task's turn; `merging` says that the Job slot is taken. -/
def round (m : MergeService) (merging : Bool) (task : MergeTask) : M Bool :=
  if task.state = .failed then pure merging
  else if task.state = .queued then
    if merging then pure merging
    else do
      step m task
      pure true
  else do
    step m task
    pure merging

/-- Advance every open task by at most one step. -/
def tick (m : MergeService) : M Unit := do
  if (unavailable m).isSome then pure ()
  else
    let tasks ← ask .openTasks
    discard (Prog.foldEach tasks (tasks.any (·.state = .merging)) (round m))

/-! ## Operator actions -/

/-- Delete the merged copy, unless the look for a whole copy found none to take its place. -/
def discardFound (task : MergeTask) (paths : MergePaths) : Except Exc (Option String) → M Unit
  | .error _ => refuse "merge_discard_failed"
  | .ok none => refuse "merge_task_not_cancellable"
  | .ok (some _) => do
    let deleted : M (List CloudFile) := do
      discard (ask (.deleteFiles task.id (.targetDir paths.targetDir)))
      listDirectory task paths.intakeDir
    match ← deleted.attempt with
    | .error (.outside .fileNotFound) => pure ()
    | .error _ => refuse "merge_discard_failed"
    | .ok intake => if intake.any (·.fullPath = paths.targetDir) then refuse "merge_discard_failed" else pure ()

/-- Delete a merged copy the archive refused because the library holds the title whole. -/
def discardDuplicate (m : MergeService) (task : MergeTask) (paths : MergePaths) : M Unit := do
  let whole ← if m.cloud then (wholeCopy m task paths).attempt else pure (.ok none)
  discardFound task paths whole

/-- Drop the copy CloudDrive is making, and the staging folder. -/
def dropStaged (task : MergeTask) (paths : MergePaths) : M Unit := do
  suppress (do
    match ← copyTask task paths with
    | some copy => if copy.status ≠ .completed then ask (.cancelCopyTask task.id copy.sourcePath paths.stagingDir)
    | none => pure ())
  suppress (discard (ask (.deleteFiles task.id (.stagingDir paths.stagingDir))))

/-- Delete the task's Job, if it has one. -/
def dropJob (m : MergeService) (task : MergeTask) : M Unit :=
  match truthy task.jobName with
  | some name => if m.kube then suppressKube (ask (.deleteJob task.id name)) else pure ()
  | none => pure ()

/-- A copy is only made of a merged file. -/
def dropUpload (m : MergeService) (task : MergeTask) (paths : MergePaths) : M Unit :=
  if m.cloud && (truthy task.mergedSha1).isSome then dropStaged task paths else pure ()

/-- Delete what the task has on the work volume. -/
def dropLocal (task : MergeTask) : M Unit := do
  unlink task .output
  unlink task .partialFile
  unlink task .status
  ask (.removeStagedParts task.id)

/-- What `cancel` deletes once it has found the task cancellable. -/
def dropFiles (m : MergeService) (task : MergeTask) (paths : MergePaths) : M Unit := do
  dropJob m task
  dropUpload m task paths
  dropLocal task

/-- The compare-and-set that decides whether the cancel was allowed. -/
def cancelRow (task : MergeTask) : M MergeTask := do
  match ← transition task task.state .cancelled { finishedAt := some (some (← now)), notice := some none } with
  | none => refuse "merge_task_changed"
  | some cancelled => pure cancelled

/-- Delete what the task made, then take its row. -/
def cancel (m : MergeService) (id : Int) : M MergeTask := do
  match ← ask (.getTask id) with
  | none => refuse "merge_task_not_found"
  | some task =>
    if !task.state.cancellable then refuse "merge_task_not_cancellable"
    else if task.state = .failed ∧ task.failedState = some .replacing then
      -- the originals may already be gone
      refuse "merge_task_not_cancellable"
    else
      let paths ← ofExcept (mergePaths m task)
      if task.state = .failed ∧ task.failedState = some .archiving then discardDuplicate m task paths
      dropFiles m task paths
      cancelRow task

/-- The columns a retry sets. -/
def retryFields (resume : MergeState) : Fields :=
  let fields : Fields := { failedState := some none, error := some none, notice := some none }
  match resume with
  | .queued => { fields with jobName := some none, phase := some none, progress := some none }
  | .uploading => { fields with uploadAttempts := some 0 }
  | _ => fields

/-- The transition a retry ends with. -/
def resumed (task : MergeTask) : M MergeTask := do
  let resume := (task.failedState.getD .queued).resume
  match ← transition task .failed resume (retryFields resume) with
  | none => refuse "merge_task_changed"
  | some retried => pure retried

/-- Put a failed task back where it can go on. -/
def retry (m : MergeService) (id : Int) : M MergeTask := do
  match ← ask (.getTask id) with
  | none => refuse "merge_task_not_found"
  | some task =>
    if task.state ≠ .failed then refuse "merge_task_not_failed"
    else
      -- the failed Job holds the name the new one is started under
      if (task.failedState.getD .queued).resume = .queued then dropJob m task
      resumed task

end EmbyxManager.Merge
