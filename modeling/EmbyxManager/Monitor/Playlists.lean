import EmbyxManager.Atom.Prog
import EmbyxManager.Atom.Table
/-!
# The playlists pipeline

`PlaylistSyncPipeline.run` as a program over the calls it makes: the stored lists, the
ranking source, and the Emby server. The world is the two systems side by side, with what
only an observer knows: which playlists the pipeline made, and for which list.
-/

namespace EmbyxManager.Playlists

open Atom

/-! ## Data -/

/-- A title of a list. -/
structure RankedEntry where
  rank : Nat
  avid : String
  title : String
  deriving DecidableEq

/-- A list of the ranking source; its name is its note. -/
structure RankedList where
  key : String
  kind : Nat
  note : String
  entries : List RankedEntry

/-- `name`. -/
def RankedList.name (l : RankedList) : String := l.note

/-- A row of `playlists`, without its times. -/
structure PlaylistRecord where
  key : String
  kind : Nat
  note : String
  name : String
  enabled : Bool
  entries : List RankedEntry
  present : List String
  missing : List String
  embyPlaylistId : Option String
  lastError : Option String
  deriving DecidableEq

/-- Every movie's AVID mapped to its item id. -/
abbrev Index := String → Option String

/-- A playlist as the server lists it. -/
structure EmbyPlaylist where
  playlistId : String
  name : String

/-- An entry of a playlist. -/
structure EmbyPlaylistEntry where
  entryId : String
  itemId : String
  deriving DecidableEq

/-- A playlist as the server keeps it. -/
structure ServerPlaylist extends EmbyPlaylist where
  entries : List EmbyPlaylistEntry

/-- The items of a playlist, in its order. -/
def ServerPlaylist.items (p : ServerPlaylist) : List String := p.entries.map (·.itemId)

/-- The AVIDs of a list that the library holds. -/
def PlaylistRecord.presentIn (record : PlaylistRecord) (index : Index) : List String :=
  (record.entries.map (·.avid)).filter fun avid => (index avid).isSome

/-- The AVIDs it does not hold. -/
def PlaylistRecord.missingIn (record : PlaylistRecord) (index : Index) : List String :=
  (record.entries.map (·.avid)).filter fun avid => (index avid).isNone

/-- The titles of a list that the library holds, in ranking order. -/
def PlaylistRecord.target (record : PlaylistRecord) (index : Index) : List String :=
  (record.presentIn index).filterMap index

/-! ## Calls -/

/-- What a call raises. -/
inductive PlaylistExn where
  | emby (text : String)
  | jinjier (text : String)
  | database
  | cancelled
  | runtime (text : String)

/-- What the pipeline asks of the server, the ranking source and the database. -/
inductive PlaylistOp where
  /-- `PlaylistRepository.list`. -/
  | list
  | source
  | discoverDatabaseName
  /-- `download_database` and what `parse_lists` makes of it. -/
  | downloadDatabase (name : String)
  | replaceLists (lists : List RankedList)
  | recordSource (name : String)
  | movieIndex
  | listPlaylists
  /-- On behalf of the list `key`, which the server is not told. -/
  | createPlaylist (key name : String) (itemIds : List String)
  | playlistEntries (playlistId : String)
  | removeEntries (playlistId : String) (entryIds : List String)
  | addEntries (playlistId : String) (itemIds : List String)
  | deletePlaylist (playlistId : String)
  | recordSync (key : String) (present missing : List String) (embyPlaylistId : Option String)
  | recordError (key error : String)
  | checkCancelled

/-- What each is answered with. -/
def PlaylistOp.Res : PlaylistOp → Type
  | list => List PlaylistRecord
  | source => Option String
  | discoverDatabaseName => String
  | downloadDatabase _ => List RankedList
  | movieIndex => Index
  | listPlaylists => List EmbyPlaylist
  | createPlaylist .. => String
  | playlistEntries _ => List EmbyPlaylistEntry
  | _ => Unit

/-- A program of the pipeline. -/
abbrev Sync := Prog PlaylistOp.Res PlaylistExn

/-- One call. -/
def PlaylistOp.call (op : PlaylistOp) : Sync op.Res := Prog.call op

/-- `list`. -/
def listRecords : Sync (List PlaylistRecord) := PlaylistOp.list.call

/-- The name the lists were last read from. -/
def storedSource : Sync (Option String) := PlaylistOp.source.call

/-- The name the source serves now. -/
def discoverDatabaseName : Sync String := PlaylistOp.discoverDatabaseName.call

/-- The lists under a name. -/
def downloadLists (name : String) : Sync (List RankedList) := (PlaylistOp.downloadDatabase name).call

/-- `replace_lists`. -/
def replaceLists (lists : List RankedList) : Sync Unit := (PlaylistOp.replaceLists lists).call

/-- `record_source`. -/
def recordSource (name : String) : Sync Unit := (PlaylistOp.recordSource name).call

/-- What the library holds. -/
def movieIndex : Sync Index := PlaylistOp.movieIndex.call

/-- The playlists on the server. -/
def listPlaylists : Sync (List EmbyPlaylist) := PlaylistOp.listPlaylists.call

/-- A new playlist with these items; its id. -/
def createPlaylist (key name : String) (itemIds : List String) : Sync String :=
  (PlaylistOp.createPlaylist key name itemIds).call

/-- What a playlist holds. -/
def playlistEntries (playlistId : String) : Sync (List EmbyPlaylistEntry) := (PlaylistOp.playlistEntries playlistId).call

/-- The playlist is gone from the server. -/
def deletePlaylist (playlistId : String) : Sync Unit := (PlaylistOp.deletePlaylist playlistId).call

/-- What the run found of a list, and its playlist. -/
def recordSync (key : String) (present missing : List String) (embyPlaylistId : Option String) : Sync Unit :=
  (PlaylistOp.recordSync key present missing embyPlaylistId).call

/-- What went wrong with a list. -/
def recordError (key error : String) : Sync Unit := (PlaylistOp.recordError key error).call

/-- `context.check_cancelled`. -/
def checkCancelled : Sync Unit := PlaylistOp.checkCancelled.call

/-- Nothing to remove is no request. -/
def removeEntries (playlistId : String) (entryIds : List String) : Sync Unit :=
  if entryIds = [] then pure () else (PlaylistOp.removeEntries playlistId entryIds).call

/-- Nothing to add is no request. -/
def addEntries (playlistId : String) (itemIds : List String) : Sync Unit :=
  if itemIds = [] then pure () else (PlaylistOp.addEntries playlistId itemIds).call

/-! ## The pipeline -/

/-- `except JinjierError`: a warning, and no answer. -/
def orKeepStored {α : Type} (p : Sync α) : Sync (Option α) := do
  match ← p.attempt with
  | .ok a => pure (some a)
  | .error (.jinjier _) => pure none
  | .error e => .raise e

/-- The text of the failure without any list. -/
def noListsStored : String := "no ranking lists are stored and the source could not be read"

/-- `_refresh_lists` from the name the source serves on. -/
def refreshFrom (records : List PlaylistRecord) (stored name : Option String) : Sync (List PlaylistRecord) :=
  match name with
  | none => pure records
  | some name =>
    if stored ≠ some name ∨ records = [] then do
      match ← orKeepStored (downloadLists name) with
      | none => pure records
      | some lists => do
        replaceLists lists
        recordSource name
        listRecords
    else pure records

/-- `_refresh_lists`. -/
def refreshLists : Sync (List PlaylistRecord) := do
  let records ← listRecords
  let stored ← storedSource
  let name ← orKeepStored discoverDatabaseName
  let records ← refreshFrom records stored name
  if records = [] then .raise (.runtime noListsStored) else pure records

/-- The playlist brought to its target; its id, and what is known to exist now. -/
def bring (record : PlaylistRecord) (target existing : List String) : Sync (Option String × List String) :=
  match record.embyPlaylistId.filter (· ∈ existing) with
  | none =>
    -- an empty playlist would only say the library holds nothing of this list
    if target = [] then pure (none, existing)
    else do
      let id ← createPlaylist record.key record.name target
      pure (some id, id :: existing)
  | some id => do
    let current ← playlistEntries id
    if current.map (·.itemId) = target then pure (some id, existing)
    else do
      removeEntries id (current.map (·.entryId))
      addEntries id target
      pure (some id, existing)

/-- `_sync_one` of a list that is switched on. -/
def syncOne (record : PlaylistRecord) (index : Index) (existing : List String) : Sync (List String) := do
  let (playlistId, existing) ← bring record (record.target index) existing
  recordSync record.key (record.presentIn index) (record.missingIn index) playlistId
  pure existing

/-- What the server has of a list that is switched off is deleted. -/
def drop (record : PlaylistRecord) (existing : List String) : Sync (List String) :=
  match record.embyPlaylistId.filter (· ∈ existing) with
  | none => pure existing
  | some id => do
    deletePlaylist id
    pure (existing.filter (· ≠ id))

/-- A disabled list: no playlist on the server, but its gap stays known. -/
def retire (record : PlaylistRecord) (index : Index) (existing : List String) : Sync (List String) := do
  let existing ← drop record existing
  recordSync record.key (record.presentIn index) (record.missingIn index) none
  pure existing

/-- One list of the loop: what exists and which lists have an error reported. An Emby call
that raises leaves `existing` as it was. -/
def round (index : Index) (acc : List String × List String) (record : PlaylistRecord) :
    Sync (List String × List String) := do
  checkCancelled
  match ← (if record.enabled then syncOne record index acc.1 else retire record index acc.1).attempt with
  | .ok existing => pure (existing, acc.2)
  | .error (.emby text) => do
    recordError record.key text
    pure (acc.1, record.key :: acc.2)
  | .error e => .raise e

/-- A run; it returns the lists that an error was reported for. -/
def run : Sync (List String) := do
  let records ← refreshLists
  checkCancelled
  let index ← movieIndex
  let existing := (← listPlaylists).map (·.playlistId)
  let acc ← Prog.foldEach records (existing, []) (round index)
  pure acc.2

/-! ## The world -/

/-- The table, the server, and what stays known of both. -/
structure World where
  playlists : Table PlaylistRecord String (·.key)
  source : Option String
  server : Table ServerPlaylist String (·.playlistId)
  /-- Every id the server has given out; none is given twice. -/
  ids : List String
  /-- The movie index as the last run read it. -/
  indexed : Index
  /-- The playlists the pipeline made, each with its list. -/
  made : List (String × String)
  /-- The playlist that is made and not yet recorded. -/
  unremembered : Option (String × String)

namespace World

/-- The playlists on the server that the pipeline made for a list. -/
def owned (w : World) (key : String) : List ServerPlaylist :=
  w.server.rows.filter fun p => (p.playlistId, key) ∈ w.made

/-- `set_enabled`. -/
def setEnabled (w : World) (key : String) (enabled : Bool) : World :=
  { w with playlists := w.playlists.modify key (fun _ => true) (fun r => { r with enabled := enabled }) fun _ => rfl }

/-- One switch after another. -/
def setAll (w : World) (switches : List (String × Bool)) : World :=
  switches.foldl (fun w s => w.setEnabled s.1 s.2) w

/-- `INSERT … ON CONFLICT (key) DO UPDATE`. -/
def upsert (t : Table PlaylistRecord String (·.key)) (l : RankedList) : Table PlaylistRecord String (·.key) :=
  match t.find l.key with
  | none => t.put ⟨l.key, l.kind, l.note, l.name, true, l.entries, [], [], none, none⟩
  | some r => t.put { r with key := l.key, kind := l.kind, note := l.note, name := l.name, entries := l.entries }

/-- The error of a list the source has dropped. -/
def noLongerPublished : String := "the source no longer publishes this list"

/-- The published lists are written, and the others marked. -/
def replaceLists (w : World) (lists : List RankedList) : World :=
  { w with
    playlists := (lists.foldl upsert w.playlists).update (fun r => r.key ∉ lists.map (·.key))
      (fun r => { r with lastError := some noLongerPublished }) fun _ => rfl }

/-- The row of a list after a run, with no error. -/
def recordSync (w : World) (key : String) (present missing : List String) (embyPlaylistId : Option String) : World :=
  { w with
    playlists := w.playlists.modify key (fun _ => true)
      (fun r => { r with present := present, missing := missing, embyPlaylistId := embyPlaylistId, lastError := none })
      fun _ => rfl
    unremembered := w.unremembered.filter fun m => ¬ (m.1 = key ∧ embyPlaylistId = some m.2) }

/-- The row of a list after an error. -/
def recordError (w : World) (key error : String) : World :=
  { w with
    playlists := w.playlists.modify key (fun _ => true) (fun r => { r with lastError := some error }) fun _ => rfl }

/-- A playlist is made for a list. -/
def create (w : World) (key : String) (p : ServerPlaylist) : World :=
  { w with
    server := w.server.put p
    ids := p.playlistId :: w.ids
    made := (p.playlistId, key) :: w.made
    unremembered := some (key, p.playlistId) }

/-- The entries of one playlist changed. -/
def refill (w : World) (id : String) (f : List EmbyPlaylistEntry → List EmbyPlaylistEntry) : World :=
  { w with server := w.server.modify id (fun _ => true) (fun p => { p with entries := f p.entries }) fun _ => rfl }

/-- A playlist is deleted. -/
def delete (w : World) (id : String) : World := { w with server := w.server.keep fun p => p.playlistId ≠ id }

/-- A call that does what it is for. -/
def Does (w : World) : (op : PlaylistOp) → op.Res → World → Prop
  -- in the order of kind, note and key
  | .list, (records : List PlaylistRecord), w' => records.Perm w.playlists.rows ∧ w' = w
  | .source, (name : Option String), w' => name = w.source ∧ w' = w
  | .discoverDatabaseName, _, w' | .downloadDatabase _, _, w' | .checkCancelled, _, w' => w' = w
  | .replaceLists lists, _, w' => w' = w.replaceLists lists
  | .recordSource name, _, w' => w' = { w with source := some name }
  | .movieIndex, (index : Index), w' => w' = { w with indexed := index }
  | .listPlaylists, (answer : List EmbyPlaylist), w' => answer = w.server.rows.map (·.toEmbyPlaylist) ∧ w' = w
  | .createPlaylist key name itemIds, (id : String), w' =>
    id ∉ w.ids ∧ ∃ entries, entries.map (·.itemId) = itemIds ∧ w' = w.create key ⟨⟨id, name⟩, entries⟩
  | .playlistEntries id, (answer : List EmbyPlaylistEntry), w' =>
    ∃ p, w.server.find id = some p ∧ answer = p.entries ∧ w' = w
  | .removeEntries id entryIds, _, w' => w' = w.refill id fun entries => entries.filter (·.entryId ∉ entryIds)
  | .addEntries id itemIds, _, w' =>
    ∃ added : List EmbyPlaylistEntry, added.map (·.itemId) = itemIds ∧ w' = w.refill id fun entries => entries ++ added
  | .deletePlaylist id, _, w' => w' = w.delete id
  | .recordSync key present missing id, _, w' => w' = w.recordSync key present missing id
  | .recordError key error, _, w' => w' = w.recordError key error

end World

/-- Which exceptions a call may raise. -/
def PlaylistOp.Raises : PlaylistOp → PlaylistExn → Prop
  | discoverDatabaseName, e | downloadDatabase _, e => ∃ text, e = .jinjier text
  | movieIndex, e | listPlaylists, e | createPlaylist .., e | playlistEntries _, e | removeEntries .., e
  | addEntries .., e | deletePlaylist _, e => ∃ text, e = .emby text
  | checkCancelled, e => e = .cancelled
  | _, e => e = .database

/-- A call may do its work and answer, or fail, before the work or after it. Lists may be
switched before any of them. -/
inductive Step : Env PlaylistOp.Res PlaylistExn World
  | ok {w w' : World} {op : PlaylistOp} {a : op.Res} (switches : List (String × Bool)) :
      (w.setAll switches).Does op a w' → Step w op (.ok a) w'
  | failed {w : World} {op : PlaylistOp} {e : PlaylistExn} (switches : List (String × Bool)) :
      op.Raises e → Step w op (.error e) (w.setAll switches)
  | lost {w w' : World} {op : PlaylistOp} {a : op.Res} {e : PlaylistExn} (switches : List (String × Bool)) :
      op.Raises e → (w.setAll switches).Does op a w' → Step w op (.error e) w'

/-- What happens between two runs. -/
inductive Between : World → World → Prop
  | switch (w : World) (key : String) (enabled : Bool) : Between w (w.setEnabled key enabled)
  /-- Playlists made, edited and deleted on the server by others. -/
  | byHand (w : World) (server : Table ServerPlaylist String (·.playlistId)) (ids : List String) :
      w.ids ⊆ ids → (∀ p ∈ server.rows, p.playlistId ∈ ids) →
      (∀ p ∈ server.rows, p.playlistId ∈ w.ids → ∃ q, w.server.find p.playlistId = some q) →
      Between w { w with server := server, ids := ids }

/-- Before the first run: nothing stored and nothing made. -/
structure Start (w : World) : Prop where
  playlists : w.playlists.rows = []
  made : w.made = []
  unremembered : w.unremembered = none
  ids : ∀ p ∈ w.server.rows, p.playlistId ∈ w.ids

end EmbyxManager.Playlists
