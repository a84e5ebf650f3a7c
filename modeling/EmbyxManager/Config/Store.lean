import EmbyxManager.Atom.Pool
/-!
# The configuration store

`ConfigStore.update` and `ConfigStore.refresh`, as threads over the `app_config` table and
the snapshots of the processes that run them. A row lock exists only for a row that does;
the write lock is one per process and `refresh` does not take it.
-/

namespace EmbyxManager.Config

open Atom

/-- What a section's model does with values; `V` is the values of all sections, `U` what an
update carries. -/
structure SectionModel (V U : Type) where
  default : V
  validateJson : String → Option V
  dumpJson : V → String
  /-- `model_validate` of the stored values with the given ones over them. -/
  merged : V → U → Option V

/-- What a call of the store raises. -/
inductive ConfigExn where
  | unknownSection (name : String)
  | versionConflict (name : String) (expected actual : Nat)
  | invalidValues
  | database
  | cancelled

/-! ## Calls -/

/-- What the store asks of its lock, the database and its snapshot. -/
inductive ConfigOp (V : Type) where
  /-- The write lock of the process. -/
  | acquire | release
  /-- A connection and its transaction. -/
  | begin
  | selectForUpdate (name : String)
  | upsert (name json : String) (version : Nat)
  /-- Of an update that expects a version, which the database is not told. -/
  | commit (expected : Option Nat)
  | rollback
  | install (name : String) (value : V) (version : Nat)
  /-- `SELECT section, value_json, version FROM app_config`. -/
  | fetch
  | installAll (sections : List (String × V × Nat))

variable {V U P ι : Type}

/-- What each is answered with. -/
def ConfigOp.Res : ConfigOp V → Type
  | selectForUpdate _ => Option (String × Nat)
  | fetch => String → Option (String × Nat)
  | _ => Unit

/-- A program of the store. -/
abbrev Store (V : Type) := Prog (ConfigOp.Res (V := V)) ConfigExn

/-- One call. -/
def ConfigOp.call (op : ConfigOp V) : Store V op.Res := Prog.call op

/-- `SELECT … FOR UPDATE` of one section. -/
def selectForUpdate (name : String) : Store V (Option (String × Nat)) := (ConfigOp.selectForUpdate name).call

/-- Every stored section, with its version. -/
def fetch : Store V (String → Option (String × Nat)) := ConfigOp.fetch.call

/-- The write lock is taken. -/
def acquire : Store V Unit := ConfigOp.acquire.call

/-- The write lock is given back. -/
def release : Store V Unit := ConfigOp.release.call

/-- A connection opens its transaction. -/
def begin : Store V Unit := ConfigOp.begin.call

/-- `INSERT … ON CONFLICT DO UPDATE`. -/
def upsert (name json : String) (version : Nat) : Store V Unit := (ConfigOp.upsert name json version).call

/-- The transaction ends and stands. -/
def commit (expected : Option Nat) : Store V Unit := (ConfigOp.commit expected).call

/-- The transaction ends and is undone. -/
def rollback : Store V Unit := ConfigOp.rollback.call

/-- One section of the snapshot is replaced. -/
def install (name : String) (value : V) (version : Nat) : Store V Unit := (ConfigOp.install name value version).call

/-- Every section of the snapshot is replaced. -/
def installAll (sections : List (String × V × Nat)) : Store V Unit := (ConfigOp.installAll sections).call

/-- `SECTION_MODELS`. -/
abbrev Registry (V U : Type) := List (String × SectionModel V U)

/-- The model of a section. -/
def Registry.model (models : Registry V U) (name : String) : Option (SectionModel V U) :=
  (models.find? (·.1 = name)).map (·.2)

variable (models : Registry V U)

/-- From the row as the transaction has read it to the row as it writes it. -/
def write (model : SectionModel V U) (name : String) (values : U) (expected : Option Nat) : Store V (V × Nat) := do
  let row ← selectForUpdate name
  let currentVersion := row.elim 0 (·.2)
  match row.elim (some model.default) (fun r => model.validateJson r.1) with
  | none => .raise .invalidValues
  | some current =>
    if expected.any (· ≠ currentVersion) then
      .raise (.versionConflict name (expected.getD 0) currentVersion)
    else match model.merged current values with
      | none => .raise .invalidValues
      | some updated => do
        upsert name (model.dumpJson updated) (currentVersion + 1)
        pure (updated, currentVersion + 1)

/-- `async with connection.transaction()`. -/
def transaction {α : Type} (expected : Option Nat) (p : Store V α) : Store V α := do
  begin
  match ← p.attempt with
  | .ok a => do
    commit expected
    pure a
  | .error e => do
    rollback
    .raise e

/-- Under the write lock. -/
def save (model : SectionModel V U) (name : String) (values : U) (expected : Option Nat) : Store V (V × Nat) := do
  let (updated, newVersion) ← transaction expected (write model name values expected)
  install name updated newVersion
  pure (updated, newVersion)

/-- `update`: the version is checked under the row's lock, and the stored values are installed. -/
def update (name : String) (values : U) (expected : Option Nat) : Store V (V × Nat) :=
  match models.model name with
  | none => .raise (.unknownSection name)
  | some model => do
    acquire
    let r ← (save model name values expected).attempt
    release
    match r with
    | .ok a => pure a
    | .error e => .raise e

/-- What the rows say of each section; an invalid one keeps the value it had. -/
def reloaded (rows : String → Option (String × Nat)) : List (String × V × Nat) :=
  models.filterMap fun (name, model) =>
    match rows name with
    | none => some (name, model.default, 0)
    | some (json, version) => (model.validateJson json).map fun value => (name, value, version)

/-- `refresh`: all sections are read and installed. -/
def refresh : Store V Unit := do
  let rows ← fetch
  installAll (reloaded models rows)

/-- A call of the store. -/
inductive Call (U : Type) where
  | update (name : String) (values : U) (expected : Option Nat)
  | refresh

/-- The program of a call. -/
def Call.prog : Call U → Store V (Option (V × Nat))
  | .update name values expected => some <$> Config.update models name values expected
  | .refresh => (fun _ => none) <$> Config.refresh models

/-! ## The world -/

/-- A save that was committed. -/
structure Saved (ι : Type) where
  call : ι
  name : String
  expected : Option Nat
  version : Nat

/-- The table as it is committed, the locks, what each transaction has written, and every
process's snapshot. -/
structure World (V P ι : Type) where
  rows : String → Option (String × Nat)
  /-- Who holds the write lock of a process. -/
  writer : P → Option ι
  /-- Whose transaction holds the row of a section, or is inserting it. -/
  holder : String → Option ι
  pending : ι → Option (String × String × Nat)
  snapshot : P → String → Option (V × Nat)
  /-- The saves, newest first. -/
  log : List (Saved ι)
  /-- The `SELECT … FOR UPDATE` of the call found no row. -/
  missed : ι → Bool
  /-- Since the call has read or committed what it installs, another call of its process has
  installed. -/
  overtaken : ι → Bool

namespace World

/-- Processes that have just started, over some stored rows. -/
def start (rows : String → Option (String × Nat)) : World V P ι where
  rows := rows
  writer _ := none
  holder _ := none
  pending _ := none
  snapshot _ name := (models.model name).map fun model => (model.default, 0)
  log := []
  missed _ := false
  overtaken _ := false

/-- The version of a section in the table; 0 where it has no row. -/
def stored (w : World V P ι) (name : String) : Nat := (w.rows name).elim 0 (·.2)

/-- The version of a section in a process's snapshot. -/
def installed (w : World V P ι) (p : P) (name : String) : Nat := (w.snapshot p name).elim 0 (·.2)

variable [DecidableEq ι] [DecidableEq P]

/-- The locks of a transaction that has ended. -/
def released (w : World V P ι) (i : ι) : String → Option ι :=
  fun name => if w.holder name = some i then none else w.holder name

/-- The transaction's locks are released, and what it wrote is dropped. -/
def rollback (w : World V P ι) (i : ι) : World V P ι :=
  { w with holder := w.released i, pending := Function.update w.pending i none }

/-- What the transaction wrote comes to stand, and its locks are released. -/
def commit (w : World V P ι) (i : ι) (expected : Option Nat) : World V P ι :=
  match w.pending i with
  | none => w.rollback i
  | some (name, json, version) =>
    { w.rollback i with
      rows := Function.update w.rows name (some (json, version))
      log := ⟨i, name, expected, version⟩ :: w.log
      overtaken := Function.update w.overtaken i false }

/-- A snapshot with sections put into it. -/
def overlay (snapshot : String → Option (V × Nat)) (sections : List (String × V × Nat)) : String → Option (V × Nat) :=
  sections.foldl (fun s x => Function.update s x.1 (some x.2)) snapshot

/-- The snapshot of the process of `i` gets sections. -/
def install (w : World V P ι) (proc : ι → P) (i : ι) (sections : List (String × V × Nat)) : World V P ι :=
  { w with
    snapshot := Function.update w.snapshot (proc i) (overlay (w.snapshot (proc i)) sections)
    overtaken := fun j => w.overtaken j || (j ≠ i && proc j = proc i) }

end World

variable [DecidableEq ι] [DecidableEq P]

/-- The calls that fail by raising, with nothing done. -/
def ConfigOp.fails : ConfigOp V → Bool
  | acquire | begin | selectForUpdate _ | upsert .. | fetch => true
  | _ => false

/-- One action of the call `i`, which a process makes. A lock that is held is waited for. -/
inductive Act (proc : ι → P) (i : ι) : Env (ConfigOp.Res (V := V)) ConfigExn (World V P ι)
  | acquire {w : World V P ι} : w.writer (proc i) = none →
      Act proc i w .acquire (.ok ()) { w with writer := Function.update w.writer (proc i) (some i) }
  | release {w : World V P ι} :
      Act proc i w .release (.ok ()) { w with writer := Function.update w.writer (proc i) none }
  | begin {w : World V P ι} : Act proc i w .begin (.ok ()) w
  | failed {w : World V P ι} {op : ConfigOp V} (e : ConfigExn) : op.fails = true → Act proc i w op (.error e) w
  | selectRow {w : World V P ι} {name : String} {row : String × Nat} : w.rows name = some row → w.holder name = none →
      Act proc i w (.selectForUpdate name) (.ok (some row))
        { w with holder := Function.update w.holder name (some i), missed := Function.update w.missed i false }
  | selectNone {w : World V P ι} {name : String} : w.rows name = none →
      Act proc i w (.selectForUpdate name) (.ok none) { w with missed := Function.update w.missed i true }
  | upsert {w : World V P ι} {name json : String} {version : Nat} : (∀ j, w.holder name = some j → j = i) →
      Act proc i w (.upsert name json version) (.ok ())
        { w with
          holder := Function.update w.holder name (some i)
          pending := Function.update w.pending i (some (name, json, version)) }
  | commit {w : World V P ι} (expected : Option Nat) : Act proc i w (.commit expected) (.ok ()) (w.commit i expected)
  | commitFailed {w : World V P ι} {expected : Option Nat} (e : ConfigExn) :
      Act proc i w (.commit expected) (.error e) (w.rollback i)
  /-- Committed, and the answer lost. -/
  | commitLost {w : World V P ι} {expected : Option Nat} (e : ConfigExn) :
      Act proc i w (.commit expected) (.error e) (w.commit i expected)
  /-- Should it fail, the connection is closed, with the same effect. -/
  | rollback {w : World V P ι} (r : Except ConfigExn Unit) : Act proc i w .rollback r (w.rollback i)
  | install {w : World V P ι} (name : String) (value : V) (version : Nat) :
      Act proc i w (.install name value version) (.ok ()) (w.install proc i [(name, value, version)])
  | fetch {w : World V P ι} :
      Act proc i w .fetch (.ok w.rows) { w with overtaken := Function.update w.overtaken i false }
  | installAll {w : World V P ι} (sections : List (String × V × Nat)) :
      Act proc i w (.installAll sections) (.ok ()) (w.install proc i sections)

/-- The calls at their beginning. -/
def begun (calls : ι → Call U) (rows : String → Option (String × Nat)) :
    Pool (ConfigOp.Res (V := V)) ConfigExn (Option (V × Nat)) (World V P ι) ι :=
  ⟨.start models rows, fun i => (calls i).prog models⟩

end EmbyxManager.Config
