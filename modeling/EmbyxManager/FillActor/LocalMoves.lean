import EmbyxManager.FillActor.CloudJournal
/-!
# Moving a file on the disk

`_run_move` renames a file into the library, or links it there where the file system has
no `RENAME_NOREPLACE`; `_reconcile_candidate` goes on from wherever a stop has left the
file. Both run under the mutation lock, on the three paths of one candidate.
-/

namespace EmbyxManager.FillActor.Local

open Atom

/-! ## Actions -/

/-- The paths of a candidate; the quarantine is `_reconcile_quarantine_path`. -/
inductive MovePath where
  | source | destination | quarantine
  deriving DecidableEq, Repr

inductive Errno where
  | exist | noent | inval | nosys | opnotsupp | perm | xdev | other
  deriving DecidableEq, Repr

/-- `_RENAME_NOREPLACE_UNSUPPORTED`. -/
def Errno.renameUnsupported : Errno → Bool
  | inval | nosys | opnotsupp => true
  | _ => false

inductive LocalExc where
  /-- `OSError`. -/
  | os (errno : Errno)
  /-- What a repository call raises. -/
  | value (text : String)
  deriving DecidableEq

/-- What is checked of the folders around the paths. -/
inductive Check where
  /-- `_candidate_roots_ready`. -/
  | rootsReady
  | moveInIsDir
  | hasSymlinkComponent (p : MovePath)
  | isWithin (p : MovePath)
  | isFile (p : MovePath)
  /-- `_prepare_destination_parent`. -/
  | prepareParent
  deriving DecidableEq

inductive LocalOp where
  | now
  | check (c : Check)
  | pathExists (p : MovePath)
  | isSymlink (p : MovePath)
  | stat (p : MovePath)
  | renameNoReplace (p q : MovePath)
  | rename (p q : MovePath)
  | link (p q : MovePath)
  | unlink (p : MovePath)
  | getMoveResult (planId candidateId : String)
  | getMoveJournal (planId candidateId : String)
  | saveMoveResult (planId : String) (result : MoveResult)
  | saveMoveJournal (record : MoveJournalRecord)

def LocalOp.Res : LocalOp → Type
  | now => Time
  | check _ | pathExists _ | isSymlink _ => Bool
  | stat _ => FileFingerprint
  | getMoveResult .. => Option MoveResult
  | getMoveJournal .. => Option MoveJournalRecord
  | renameNoReplace .. | rename .. | link .. | unlink _ | saveMoveResult .. | saveMoveJournal _ => Unit

abbrev LocalMove := Prog LocalOp.Res LocalExc

def LocalOp.ask (op : LocalOp) : LocalMove op.Res := Prog.call op

def now : LocalMove Time := LocalOp.ask .now

def check (c : Check) : LocalMove Bool := LocalOp.ask (.check c)

def rootsReady : LocalMove Bool := check .rootsReady

def moveInIsDir : LocalMove Bool := check .moveInIsDir

def hasSymlinkComponent (p : MovePath) : LocalMove Bool := check (.hasSymlinkComponent p)

def isWithin (p : MovePath) : LocalMove Bool := check (.isWithin p)

def isFile (p : MovePath) : LocalMove Bool := check (.isFile p)

def prepareParent : LocalMove Bool := check .prepareParent

def pathExists (p : MovePath) : LocalMove Bool := LocalOp.ask (.pathExists p)

def isSymlink (p : MovePath) : LocalMove Bool := LocalOp.ask (.isSymlink p)

/-- `_fingerprint`. -/
def fingerprint (p : MovePath) : LocalMove FileFingerprint := LocalOp.ask (.stat p)

def renameNoReplace (p q : MovePath) : LocalMove Unit := LocalOp.ask (.renameNoReplace p q)

def rename (p q : MovePath) : LocalMove Unit := LocalOp.ask (.rename p q)

def link (p q : MovePath) : LocalMove Unit := LocalOp.ask (.link p q)

def unlink (p : MovePath) : LocalMove Unit := LocalOp.ask (.unlink p)

/-- `except OSError`. -/
def exceptOS {α : Type} (p : LocalMove α) : LocalMove (Except Errno α) := do
  match ← p.attempt with
  | .ok a => pure (.ok a)
  | .error (.os errno) => pure (.error errno)
  | .error e => .raise e

/-! ## Results -/

/-- `PurePath.name`. -/
def pathName (path : String) : String := String.ofList (path.toList.reverse.takeWhile (· ≠ '/')).reverse

def localResult (record : CandidateRecord) (state : MoveState) (errorCode : Option String) : MoveResult :=
  ⟨record.candidateId, record.videoId, pathName record.source, state, errorCode⟩

def failed (record : CandidateRecord) (errorCode : String) : MoveResult := localResult record .failed (some errorCode)

/-! ## Identities -/

/-- `_matches_linked_identity`: a link changes the change time. -/
def linkedIdentity (st fp : FileFingerprint) : Bool :=
  st.device = fp.device && st.inode = fp.inode && st.size = fp.size && st.mtimeNs = fp.mtimeNs

/-- A test of what stands at a path; nothing there passes none. -/
def ifPresent (test : FileFingerprint → Bool) (p : MovePath) : LocalMove Bool := do
  if ← isSymlink p then pure false
  else
    match ← exceptOS (fingerprint p) with
    | .ok st => pure (test st)
    | .error _ => pure false

/-- `_matches_fingerprint_if_present`. -/
def matchesFingerprint (record : CandidateRecord) (p : MovePath) : LocalMove Bool :=
  ifPresent (fun st => st = record.fingerprint) p

/-- `_matches_linked_fingerprint_if_present`. -/
def matchesLinked (record : CandidateRecord) (p : MovePath) : LocalMove Bool :=
  ifPresent (fun st => linkedIdentity st record.fingerprint) p

/-- `_same_inode`. -/
def sameInode (p q : MovePath) : LocalMove Bool := do
  let stats : LocalMove (FileFingerprint × FileFingerprint) := do
    let first ← fingerprint p
    let second ← fingerprint q
    pure (first, second)
  match ← exceptOS stats with
  | .ok (first, second) => pure (first.device = second.device && first.inode = second.inode)
  | .error _ => pure false

/-! ## The quarantine -/

/-- `_move_to_quarantine`. -/
def moveToQuarantine (p : MovePath) : LocalMove Unit := do
  match ← exceptOS (renameNoReplace p .quarantine) with
  | .ok () => pure ()
  | .error errno =>
    if !errno.renameUnsupported then .raise (.os errno)
    else if ← pathExists .quarantine then .raise (.os .exist)
    else rename p .quarantine

/-- `_restore_quarantine_no_replace`. -/
def restoreQuarantineNoReplace (p : MovePath) : LocalMove Unit := do
  if ← pathExists p then
    if ← sameInode .quarantine p then unlink .quarantine else .raise (.os .exist)
  else
    match ← exceptOS (renameNoReplace .quarantine p) with
    | .ok () => pure ()
    | .error errno =>
      if !errno.renameUnsupported then .raise (.os errno)
      else
        link .quarantine p
        if !(← sameInode .quarantine p) then .raise (.os .other) else unlink .quarantine

/-- `_finish_quarantined_reconcile`. -/
def finishQuarantinedReconcile (record : CandidateRecord) : LocalMove MoveResult := do
  let quarantineMatches ← matchesLinked record .quarantine
  let destinationMatches ← matchesLinked record .destination
  if !quarantineMatches then
    if !destinationMatches then pure (failed record "reconcile_quarantine_conflict")
    else
      match ← exceptOS (restoreQuarantineNoReplace .source) with
      | .error _ => pure (failed record "reconcile_quarantine_conflict")
      | .ok () => pure (localResult record .moved none)
  else
    let same ← sameQuarantined destinationMatches
    if same then
      match ← exceptOS (unlink .quarantine) with
      | .error _ => pure (failed record "reconcile_quarantine_cleanup_failed")
      | .ok () => pure (localResult record .moved none)
    else
      match ← exceptOS (restoreQuarantineNoReplace .source) with
      | .error _ => pure (failed record "reconcile_quarantine_conflict")
      | .ok () => pure (localResult record .stale (some "source_changed_during_reconcile"))
where
  /-- `destination_matches and same_inode`. -/
  sameQuarantined (destinationMatches : Bool) : LocalMove Bool :=
    if destinationMatches then sameInode .quarantine .destination else pure false

/-! ## Moving -/

/-- `_rollback_unexpected_link`. -/
def rollbackUnexpectedLink (record : CandidateRecord) : LocalMove MoveResult := do
  match ← exceptOS (moveToQuarantine .destination) with
  | .error _ => pure (failed record "move_rollback_failed")
  | .ok () =>
    if ← stillThere then
      match ← exceptOS (unlink .quarantine) with
      | .error _ => pure (failed record "move_rollback_failed")
      | .ok () => pure (localResult record .stale (some "source_changed_during_move"))
    else
      match ← exceptOS (restoreQuarantineNoReplace .destination) with
      | .error _ => pure (failed record "move_rollback_failed")
      | .ok () => pure (localResult record .conflict (some "destination_changed_during_move"))
where
  stillThere : LocalMove Bool := do
    if ← pathExists .source then sameInode .quarantine .source else pure false

/-- The source goes to the quarantine, and from there. -/
def removeSource (record : CandidateRecord) (errorCode : String) : LocalMove MoveResult := do
  match ← exceptOS (moveToQuarantine .source) with
  | .error _ => pure (failed record errorCode)
  | .ok () => finishQuarantinedReconcile record

/-- After the link. -/
def checkLinked (record : CandidateRecord) : LocalMove MoveResult := do
  let destinationMatches ← matchesLinked record .destination
  let sourceMatches ← matchesLinked record .source
  if !destinationMatches then rollbackUnexpectedLink record
  else if !(← pathExists .source) then pure (localResult record .moved none)
  else if !sourceMatches then pure (localResult record .moved none)
  else removeSource record "move_rollback_failed"

/-- `_apply_hardlink_fallback`. -/
def applyHardlinkFallback (record : CandidateRecord) : LocalMove MoveResult := do
  if ← pathExists .quarantine then pure (failed record "move_rollback_failed")
  else
    match ← exceptOS (link .source .destination) with
    | .error .exist => pure (localResult record .conflict (some "destination_exists"))
    | .error .xdev => pure (failed record "cross_device_move")
    | .error .perm | .error .opnotsupp | .error .nosys => pure (failed record "move_unsupported")
    | .error _ => pure (failed record "move_failed")
    | .ok () => checkLinked record

/-- After the rename. -/
def checkRenamed (record : CandidateRecord) : LocalMove MoveResult := do
  if ← matchesLinked record .destination then pure (localResult record .moved none)
  else
    match ← exceptOS (renameNoReplace .destination .source) with
    | .error _ => pure (failed record "move_rollback_failed")
    | .ok () => pure (localResult record .stale (some "source_changed_during_move"))

/-- `_rename_no_replace` into the library, or the fallback. -/
def renameIn (record : CandidateRecord) : LocalMove MoveResult := do
  match ← exceptOS (renameNoReplace .source .destination) with
  | .error .exist => pure (localResult record .conflict (some "destination_exists"))
  | .error errno =>
    if errno.renameUnsupported then applyHardlinkFallback record
    else pure (failed record (if errno = .xdev then "cross_device_move" else "move_failed"))
  | .ok () => checkRenamed record

/-- `_apply_one`. -/
def applyOne (record : CandidateRecord) : LocalMove MoveResult := do
  if ← hasSymlinkComponent .source then pure (localResult record .invalidPath (some "source_symlink"))
  else if ← hasSymlinkComponent .destination then pure (localResult record .invalidPath (some "destination_symlink"))
  else if !(← moveInIsDir) then pure (localResult record .invalidPath (some "destination_root_missing"))
  else if !(← isWithin .source) then pure (localResult record .invalidPath (some "path_outside_root"))
  else if !(← isWithin .destination) then pure (localResult record .invalidPath (some "path_outside_root"))
  else if !(← isFile .source) then pure (localResult record .stale (some "source_missing"))
  else if (← fingerprint .source) ≠ record.fingerprint then pure (localResult record .stale (some "source_changed"))
  else if ← pathExists .destination then pure (localResult record .conflict (some "destination_exists"))
  else if !(← prepareParent) then pure (localResult record .invalidPath (some "destination_parent_unavailable"))
  else if ← hasSymlinkComponent .destination then pure (localResult record .invalidPath (some "destination_symlink"))
  else renameIn record

/-! ## Reconciling -/

/-- What the reconciler looks at before it decides. -/
structure Shape where
  sourceMatches : Bool
  sourceMatchesLinked : Bool
  destinationMatches : Bool
  sourceExists : Bool
  destinationExists : Bool

/-- Put a file that was renamed and then found changed back to its source. -/
def renameBack (record : CandidateRecord) : LocalMove MoveResult := do
  match ← exceptOS (renameNoReplace .destination .source) with
  | .error .exist => pure (failed record "reconcile_rollback_conflict")
  | .error _ => pure (failed record "reconcile_rollback_failed")
  | .ok () => pure (localResult record .stale (some "source_changed_during_move"))

/-- Without a quarantined file and without two links. -/
def reconcileShape (record : CandidateRecord) (state : MoveJournalState) (x : Shape) : LocalMove MoveResult :=
  if x.destinationMatches && (!x.sourceExists || !x.sourceMatchesLinked) then pure (localResult record .moved none)
  else if x.sourceMatches && !x.destinationExists && state = .prepared then applyOne record
  else if state = .prepared && x.destinationExists && !x.destinationMatches then
    if x.sourceExists then pure (failed record "reconcile_rollback_conflict") else renameBack record
  else if x.sourceExists && !x.sourceMatchesLinked then pure (localResult record .stale (some "source_changed"))
  else if x.destinationExists then pure (localResult record .conflict (some "reconcile_destination_conflict"))
  else if state = .linked || state = .sourceRemoved then pure (failed record "reconcile_destination_missing")
  else pure (localResult record .stale (some "source_missing"))

/-- Both paths have the file, under one inode. -/
def twoLinks (x : Shape) : LocalMove Bool :=
  if x.sourceMatchesLinked && x.destinationMatches then sameInode .source .destination else pure false

def lookAround (record : CandidateRecord) : LocalMove Shape := do
  let sourceMatches ← matchesFingerprint record .source
  let sourceMatchesLinked ← matchesLinked record .source
  let destinationMatches ← matchesLinked record .destination
  let sourceExists ← pathExists .source
  let destinationExists ← pathExists .destination
  pure ⟨sourceMatches, sourceMatchesLinked, destinationMatches, sourceExists, destinationExists⟩

/-- From the first look on. -/
def reconcileFiles (record : CandidateRecord) (state : MoveJournalState) : LocalMove MoveResult := do
  let x ← lookAround record
  if ← pathExists .quarantine then finishQuarantinedReconcile record
  else if ← twoLinks x then removeSource record "reconcile_quarantine_failed"
  else reconcileShape record state x

/-- `_reconcile_filesystem`. -/
def reconcileFilesystem (record : CandidateRecord) (state : MoveJournalState) : LocalMove MoveResult := do
  if ← hasSymlinkComponent .source then pure (localResult record .invalidPath (some "reconcile_symlink"))
  else if ← hasSymlinkComponent .destination then pure (localResult record .invalidPath (some "reconcile_symlink"))
  else if !(← isWithin .source) then pure (localResult record .invalidPath (some "path_outside_root"))
  else if !(← isWithin .destination) then pure (localResult record .invalidPath (some "path_outside_root"))
  else reconcileFiles record state

/-! ## The journal and the result -/

def saveJournal (planId candidateId : String) (state : MoveJournalState) : LocalMove Unit := do
  let time ← now
  LocalOp.ask (.saveMoveJournal ⟨planId, candidateId, state, time⟩)

/-- The journal goes on to `source_removed`, from wherever it is. -/
def journalMoved (planId candidateId : String) : MoveJournalState → LocalMove Unit
  | .prepared => do
    saveJournal planId candidateId .linked
    saveJournal planId candidateId .sourceRemoved
  | .linked => saveJournal planId candidateId .sourceRemoved
  | _ => pure ()

/-- `_persist_move_completion`. -/
def persistMoveCompletion (planId : String) (record : CandidateRecord) (result : MoveResult) (state : MoveJournalState) :
    LocalMove Unit := do
  if result.state = .moved then
    journalMoved planId record.candidateId state
    persist
  else persist
where
  persist : LocalMove Unit := do
    LocalOp.ask (.saveMoveResult planId result)
    saveJournal planId record.candidateId .reconciled

/-- The result is persisted, unless the move has failed where it can be taken up again. -/
def conclude (planId : String) (record : CandidateRecord) (result : MoveResult) (state : MoveJournalState)
    (undecided : String → Bool) : LocalMove MoveResult := do
  if result.state ≠ .moved then
    if !(← rootsReady) then pure result
    else if result.errorCode.any undecided then pure result
    else completed
  else if result.errorCode.any undecided then pure result
  else completed
where
  completed : LocalMove MoveResult := do
    persistMoveCompletion planId record result state
    pure result

def startsWith (text start : String) : Bool := start.toList.isPrefixOf text.toList

/-- `_reconcile_candidate`. -/
def reconcileCandidate (planId : String) (record : CandidateRecord) (journal : MoveJournalRecord) : LocalMove MoveResult := do
  if !(← rootsReady) then pure (failed record "roots_unavailable")
  else
    match ← LocalOp.ask (.getMoveResult planId record.candidateId) with
    | some cached =>
      saveJournal planId record.candidateId .reconciled
      pure cached
    | none =>
      let result ← reconcileFilesystem record journal.state
      conclude planId record result journal.state fun errorCode =>
        errorCode = "reconcile_rollback_conflict" || errorCode = "reconcile_rollback_failed" ||
          startsWith errorCode "reconcile_quarantine_"

/-- Journal first, then move. -/
def startMove (planId : String) (record : CandidateRecord) : LocalMove MoveResult := do
  saveJournal planId record.candidateId .prepared
  let result ← applyOne record
  conclude planId record result .prepared fun errorCode =>
    errorCode = "move_rollback_failed" || startsWith errorCode "reconcile_quarantine_"

/-- `_run_move` under the lock. -/
def runLocked (planId : String) (record : CandidateRecord) : LocalMove MoveResult := do
  if !(← rootsReady) then pure (failed record "roots_unavailable")
  else
    match ← LocalOp.ask (.getMoveResult planId record.candidateId) with
    | some cached => pure cached
    | none =>
      match ← LocalOp.ask (.getMoveJournal planId record.candidateId) with
      | none => startMove planId record
      | some journal =>
        if journal.state ≠ .reconciled then reconcileCandidate planId record journal else startMove planId record

def runMove (planId : String) (record : CandidateRecord) : LocalMove MoveResult := do
  if !(← rootsReady) then pure (failed record "roots_unavailable")
  else
    match ← (runLocked planId record).attempt with
    | .ok result => pure result
    | .error _ => pure (failed record "move_failed")

/-- One unreconciled journal of `reconcile_moves`, under the lock. -/
def reconcileLocked (planId : String) (record : CandidateRecord) : LocalMove (Option MoveResult) := do
  match ← LocalOp.ask (.getMoveJournal planId record.candidateId) with
  | none => pure none
  | some current =>
    if current.state = .reconciled then pure none
    else
      let result ← reconcileCandidate planId record current
      pure (some result)

end EmbyxManager.FillActor.Local
