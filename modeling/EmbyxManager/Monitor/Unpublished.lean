import EmbyxManager.Monitor.PlaylistRuns
/-!
# Lists the source no longer publishes

A download marks the lists it leaves out in `last_error`. The same run goes on to sync or
retire every stored list, and the record of that clears the column. What is followed here is
one list: whether the last download that was stored leaves it out, and whether its sync was
recorded since.
-/

namespace EmbyxManager.Playlists

open Atom

/-! ## One list -/

/-- What `last_error` of a list says. -/
def World.lastError (w : World) (key : String) : Option String := (w.playlists.find key).bind (·.lastError)

def World.stored (w : World) (key : String) : Bool := (w.playlists.find key).isSome

/-- Where a list stands with the source. -/
inductive Fate where
  /-- Published by the last download that was stored, or not stored itself. -/
  | listed
  /-- Left out by it. -/
  | unlisted
  /-- Left out, and its sync was recorded since. -/
  | recorded
  deriving DecidableEq

/-- The world, and where the list stands. -/
structure Watched where
  world : World
  fate : Fate

/-- Where a list stands after a call that did its work. -/
def Watched.after (s : Watched) (key : String) (w : World) : PlaylistOp → Watched
  | .replaceLists lists =>
    ⟨w, if key ∈ lists.map (·.key) then .listed else if s.world.stored key then .unlisted else s.fate⟩
  | .recordSync key' .. => ⟨w, if key' = key ∧ s.fate = .unlisted then .recorded else s.fate⟩
  | _ => ⟨w, s.fate⟩

def PlaylistExn.isEmby : PlaylistExn → Bool
  | emby _ => true
  | _ => false

/-- The calls of a run in which every Emby call succeeds. -/
inductive Watch (key : String) : Env PlaylistOp.Res PlaylistExn Watched
  | ok {s : Watched} {w : World} {op : PlaylistOp} {a : op.Res} (switches : List (String × Bool)) :
      (s.world.setAll switches).Does op a w → Watch key s op (.ok a) (s.after key w op)
  | failed {s : Watched} {op : PlaylistOp} {e : PlaylistExn} (switches : List (String × Bool)) :
      op.Raises e → e.isEmby = false → Watch key s op (.error e) ⟨s.world.setAll switches, s.fate⟩
  | lost {s : Watched} {w : World} {op : PlaylistOp} {a : op.Res} {e : PlaylistExn} (switches : List (String × Bool)) :
      op.Raises e → e.isEmby = false → (s.world.setAll switches).Does op a w → Watch key s op (.error e) (s.after key w op)

/-- Any stored lists, then runs that may be stopped after any call, and what happens between them. -/
inductive Followed (key : String) : Watched → Prop
  | start (w : World) : Followed key ⟨w, .listed⟩
  | between {s : Watched} {w : World} : Followed key s → Between s.world w → Followed key ⟨w, s.fate⟩
  | run {s s' : Watched} : Followed key s → Prog.Stops (Watch key) s run s' → Followed key s'

/-! ## What each call does to the mark -/

section column
variable {w w' : World} {key : String}

theorem lastError_modify (key' : String) (f : PlaylistRecord → PlaylistRecord) (hf : ∀ r, (f r).key = r.key) :
    World.lastError { w with playlists := w.playlists.modify key' (fun _ => true) f hf } key =
      (w.playlists.find key).bind fun r => if key = key' then (f r).lastError else r.lastError := by
  simp only [World.lastError, Table.find_modify, Option.bind_map]
  congr 1
  funext r
  by_cases h : key = key' <;> simp [h]

theorem stored_modify (key' : String) (f : PlaylistRecord → PlaylistRecord) (hf : ∀ r, (f r).key = r.key) :
    World.stored { w with playlists := w.playlists.modify key' (fun _ => true) f hf } key = w.stored key := by
  simp [World.stored, Table.find_modify]

theorem lastError_setAll (switches : List (String × Bool)) :
    (w.setAll switches).lastError key = w.lastError key ∧ (w.setAll switches).stored key = w.stored key := by
  induction switches generalizing w with
  | nil => exact ⟨rfl, rfl⟩
  | cons s switches ih =>
    have hset : (w.setEnabled s.1 s.2).lastError key = w.lastError key := by
      refine (lastError_modify ..).trans ?_
      simp [World.lastError]
    exact ⟨ih.1.trans hset, ih.2.trans (stored_modify ..)⟩

/-- A download keeps every row. -/
theorem stored_upsert (lists : List RankedList) (t : Table PlaylistRecord String (·.key)) (h : (t.find key).isSome = true) :
    ((lists.foldl World.upsert t).find key).isSome = true := by
  induction lists generalizing t with
  | nil => exact h
  | cons l lists ih =>
    refine ih _ ?_
    rcases find_upsert t l key with ⟨r, hr, -⟩ | hsame
    · rw [hr]
      rfl
    · have := congrArg Option.isSome hsame
      rw [Option.isSome_map, Option.isSome_map] at this
      exact this.trans h

theorem stored_replaceLists (lists : List RankedList) (h : w.stored key = true) : (w.replaceLists lists).stored key = true := by
  simp only [World.stored, World.replaceLists, Table.find_update, Option.isSome_map]
  exact stored_upsert lists _ h

/-- A list that is left out is marked. -/
theorem lastError_replaceLists (lists : List RankedList) (h : w.stored key = true) (hkey : key ∉ lists.map (·.key)) :
    (w.replaceLists lists).lastError key = some World.noLongerPublished := by
  obtain ⟨r, hr⟩ := Option.isSome_iff_exists.1 (stored_upsert lists _ h)
  have hk : r.key = key := Table.find_key hr
  simp only [World.lastError, World.replaceLists, Table.find_update, hr, Option.map_some, Option.bind_some]
  rw [hk, if_pos (by simpa using hkey)]

/-- The calls after which the table is as it was. -/
def PlaylistOp.unwritten : PlaylistOp → Bool
  | replaceLists _ | recordSync .. | recordError .. => false
  | _ => true

theorem playlists_does {op : PlaylistOp} {a : op.Res} (hop : op.unwritten = true) (h : w.Does op a w') :
    w'.playlists = w.playlists := by
  cases op with
  | list | source | listPlaylists =>
    obtain ⟨-, rfl⟩ := h
    rfl
  | createPlaylist =>
    obtain ⟨-, _, -, rfl⟩ := h
    rfl
  | playlistEntries =>
    obtain ⟨_, -, -, rfl⟩ := h
    rfl
  | addEntries =>
    obtain ⟨_, -, rfl⟩ := h
    rfl
  | replaceLists | recordSync | recordError => cases hop
  | _ =>
    obtain rfl := h
    rfl

end column

/-- The mark stands from the download on until the list's sync is recorded. -/
structure Marked (key : String) (s : Watched) : Prop where
  stored : s.fate ≠ .listed → s.world.stored key = true
  unlisted : s.fate = .unlisted → s.world.lastError key = some World.noLongerPublished
  recorded : s.fate = .recorded → s.world.lastError key = none

/-- No Emby call fails, so no error is recorded for a list. -/
def Records (_ : Watched) : PlaylistOp → Prop
  | .recordError .. => False
  | _ => True

section step
variable {key : String} {s s' : Watched} {w w' : World}

theorem Marked.congr (h : Marked key s) (hw : w.lastError key = s.world.lastError key)
    (hst : w.stored key = s.world.stored key) : Marked key ⟨w, s.fate⟩ :=
  ⟨fun hf => hst.trans (h.stored hf), fun hf => hw.trans (h.unlisted hf), fun hf => hw.trans (h.recorded hf)⟩

theorem Marked.does {op : PlaylistOp} {a : op.Res} (h : Marked key s) (hG : Records s op) (hw : s.world.Does op a w) :
    Marked key (s.after key w op) := by
  by_cases hop : op.unwritten = true
  · have ht := playlists_does hop hw
    have same : Marked key ⟨w, s.fate⟩ := h.congr (by simp [World.lastError, ht]) (by simp [World.stored, ht])
    cases op with
    | replaceLists | recordSync => cases hop
    | _ => exact same
  cases op with
  | replaceLists lists =>
    obtain rfl := hw
    unfold Watched.after
    dsimp only
    by_cases hkey : key ∈ lists.map (·.key)
    · rw [if_pos hkey]
      exact ⟨fun hne => absurd rfl hne, fun hf => (by cases hf), fun hf => (by cases hf)⟩
    rw [if_neg hkey]
    by_cases hst : s.world.stored key = true
    · rw [if_pos hst]
      refine ⟨fun _ => stored_replaceLists lists hst, fun _ => lastError_replaceLists lists hst hkey, fun hf => ?_⟩
      cases hf
    · -- a list that is not stored is not followed yet
      rw [if_neg hst]
      have hlisted : s.fate = .listed := by
        by_contra hne
        exact hst (h.stored hne)
      rw [hlisted]
      exact ⟨fun hne => absurd rfl hne, fun hf => (by cases hf), fun hf => (by cases hf)⟩
  | recordSync key' present missing id =>
    obtain rfl := hw
    have hst : (s.world.recordSync key' present missing id).stored key = s.world.stored key := stored_modify ..
    have herr : (s.world.recordSync key' present missing id).lastError key =
        if key = key' then none else s.world.lastError key := by
      refine (lastError_modify ..).trans ?_
      by_cases hk : key = key'
      · simp [hk]
      · simp [hk, World.lastError]
    unfold Watched.after
    dsimp only
    by_cases hk : key' = key
    · subst hk
      rw [if_pos rfl] at herr
      by_cases hf : s.fate = .unlisted
      · rw [if_pos ⟨rfl, hf⟩]
        refine ⟨fun _ => hst.trans (h.stored (by rw [hf]; exact Fate.noConfusion)), fun hf => ?_, fun _ => herr⟩
        cases hf
      · rw [if_neg fun hc => hf hc.2]
        exact ⟨fun hne => hst.trans (h.stored hne), fun hf' => absurd hf' hf, fun _ => herr⟩
    · rw [if_neg fun hc => hk hc.1]
      rw [if_neg (Ne.symm hk)] at herr
      exact h.congr herr hst
  | recordError => exact hG.elim
  | _ => exact absurd rfl hop

theorem Marked.step {op : PlaylistOp} {r : Except PlaylistExn op.Res} (h : Marked key s) (hG : Records s op)
    (ht : Watch key s op r s') : Marked key s' := by
  have switched : ∀ switches, Marked key ⟨s.world.setAll switches, s.fate⟩ := fun switches =>
    h.congr (lastError_setAll switches).1 (lastError_setAll switches).2
  have done : ∀ {a w} switches, (s.world.setAll switches).Does op a w → Marked key (s.after key w op) := by
    intro a w switches hw
    have h' := (switched switches).does hG hw
    unfold Watched.after at h' ⊢
    cases op with
    | replaceLists =>
      dsimp only at h' ⊢
      rwa [(lastError_setAll switches).2] at h'
    | _ => exact h'
  cases ht with
  | ok switches hw => exact done switches hw
  | failed switches => exact switched switches
  | lost switches _ _ hw => exact done switches hw

end step

/-! ## A run -/

abbrev NotEmby : PlaylistExn → Watched → Prop := fun e _ => e.isEmby = false

/-- A list that was left out is among those that were read. -/
structure Covered (key : String) (records : List PlaylistRecord) (s : Watched) : Prop where
  marked : Marked key s
  read : s.fate = .unlisted → key ∈ records.map (·.key)

section run
variable {key : String} {s s' : Watched} {records : List PlaylistRecord}

theorem watch_fate {op : PlaylistOp} {r : Except PlaylistExn op.Res} (hop : op.unwritten = true) (ht : Watch key s op r s') :
    s'.fate = s.fate := by
  have after : ∀ w, (s.after key w op).fate = s.fate := by
    intro w
    cases op with
    | replaceLists | recordSync | recordError => cases hop
    | _ => rfl
  cases ht with
  | ok => exact after _
  | failed => rfl
  | lost => exact after _

theorem records_of_unwritten {op : PlaylistOp} (hop : op.unwritten = true) : Records s op := by
  cases op with
  | recordError => cases hop
  | _ => trivial

theorem watch_error {op : PlaylistOp} {e : PlaylistExn} (ht : Watch key s op (.error e) s') : e.isEmby = false := by
  cases ht with
  | failed _ _ h => exact h
  | lost _ _ h => exact h

/-- A call, as far as this list goes. -/
theorem wp_watched {op : PlaylistOp} {Q : op.Res → Watched → Prop} (hG : Records s op)
    (h : ∀ a s', Watch key s op (.ok a) s' → Q a s') : op.call.wp (Watch key) Records Q NotEmby s :=
  (Prog.wp_call op).2 ⟨hG, h, fun _ _ ht => watch_error ht⟩

theorem Covered.step {op : PlaylistOp} {r : Except PlaylistExn op.Res} (h : Covered key records s)
    (hop : op.unwritten = true) (ht : Watch key s op r s') : Covered key records s' :=
  ⟨h.marked.step (records_of_unwritten hop) ht, fun hf => h.read ((watch_fate hop ht).symm.trans hf)⟩

theorem wp_listRecords_covered (h : Marked key s) :
    listRecords.wp (Watch key) Records (fun records s' => Covered key records s') NotEmby s := by
  refine wp_watched trivial fun (records : List PlaylistRecord) s' ht => ?_
  have hmarked := h.step (by trivial) ht
  refine ⟨hmarked, fun hf => ?_⟩
  have hst := hmarked.stored (by rw [hf]; exact Fate.noConfusion)
  cases ht with
  | ok switches hd =>
    obtain ⟨hperm, rfl⟩ := hd
    obtain ⟨row, hrow⟩ := Option.isSome_iff_exists.1 hst
    exact List.mem_map.2 ⟨row, hperm.mem_iff.2 (Table.mem_of_find hrow), Table.find_key hrow⟩

/-- A source that cannot be read leaves the records as they are. -/
theorem wp_orKeepStored_covered {α : Type} {p : Sync α} {Q : Option α → Watched → Prop}
    (h : p.wp (Watch key) Records (fun a s' => Q (some a) s') (fun e s' => e.isEmby = false ∧ Q none s') s) :
    (orKeepStored p).wp (Watch key) Records Q NotEmby s := by
  unfold orKeepStored
  refine (Prog.wp_bind _ _).2 ((Prog.wp_attempt _).2 (Prog.wp_mono h (fun _ _ h => h) fun e s' h => ?_))
  cases e with
  | jinjier => exact h.2
  | _ => exact h.1

theorem wp_refreshFrom_covered (stored name : Option String) (h : Covered key records s) :
    (refreshFrom records stored name).wp (Watch key) Records (fun records s' => Covered key records s') NotEmby s := by
  unfold refreshFrom
  cases name with
  | none => exact h
  | some name =>
    refine Prog.wp_ite (fun _ => (Prog.wp_bind _ _).2 ?_) fun _ => h
    refine wp_orKeepStored_covered ((Prog.wp_call _).2
      ⟨trivial, fun lists s₁ ht => ?_, fun e s₁ ht => ⟨watch_error ht, h.step rfl ht⟩⟩)
    have h := (h.step rfl ht).marked
    change Prog.wp (Watch key) Records (replaceLists lists >>= fun _ => recordSource name >>= fun _ => listRecords) _ _ s₁
    refine (Prog.wp_bind _ _).2 (wp_watched trivial fun _ s₂ ht => ?_)
    have h := h.step (by trivial) ht
    refine (Prog.wp_bind _ _).2 (wp_watched trivial fun _ s₃ ht => ?_)
    exact wp_listRecords_covered (h.step (by trivial) ht)

theorem wp_refreshLists_covered (h : Marked key s) :
    refreshLists.wp (Watch key) Records (fun records s' => Covered key records s') NotEmby s := by
  unfold refreshLists
  refine (Prog.wp_bind _ _).2 (Prog.wp_mono (wp_listRecords_covered h) (fun records s₁ h => ?_) fun _ _ h => h)
  refine (Prog.wp_bind _ _).2 (wp_watched trivial fun (stored : Option String) s₂ ht => ?_)
  have h := h.step rfl ht
  have rest : ∀ name s₃, Covered key records s₃ → Prog.wp (Watch key) Records
      (refreshFrom records stored name >>= fun records =>
        if records = [] then .raise (.runtime noListsStored) else pure records)
      (fun records s' => Covered key records s') NotEmby s₃ := by
    intro name s₃ h
    refine (Prog.wp_bind _ _).2 (Prog.wp_mono (wp_refreshFrom_covered stored name h) (fun records s₄ h => ?_) fun _ _ h => h)
    exact Prog.wp_ite (fun _ => rfl) fun _ => h
  refine (Prog.wp_bind _ _).2 (wp_orKeepStored_covered (p := discoverDatabaseName) ((Prog.wp_call _).2
    ⟨trivial, fun name s₃ ht => ?_, fun e s₃ ht => ⟨watch_error ht, ?_⟩⟩))
  · exact rest (some name) s₃ (h.step rfl ht)
  · exact rest none s₃ (h.step rfl ht)

/-! ## The loop -/

/-- A call that leaves the list where it stands. -/
theorem wp_unwritten {op : PlaylistOp} {Q : op.Res → Watched → Prop} (hop : op.unwritten = true) (h : Covered key records s)
    (hQ : ∀ a s', Covered key records s' → Q a s') : op.call.wp (Watch key) Records Q NotEmby s :=
  wp_watched (records_of_unwritten hop) fun a s' ht => hQ a s' (h.step hop ht)

theorem wp_bring_covered (record : PlaylistRecord) (target existing : List String) (h : Covered key records s) :
    (bring record target existing).wp (Watch key) Records (fun _ s' => Covered key records s') NotEmby s := by
  unfold bring
  split
  · refine Prog.wp_ite (fun _ => h) fun _ => (Prog.wp_bind _ _).2 ?_
    exact wp_unwritten rfl h fun _ _ h => h
  · rename_i id _
    refine (Prog.wp_bind _ _).2 (wp_unwritten rfl h fun current s₁ h => Prog.wp_ite (fun _ => h) fun _ => ?_)
    have filled : ∀ s₂, Covered key records s₂ → Prog.wp (Watch key) Records (do
        addEntries id target
        pure (some id, existing)) (fun _ s' => Covered key records s') NotEmby s₂ := fun s₂ h =>
      (Prog.wp_bind _ _).2 (Prog.wp_ite (fun _ => h) fun _ => wp_unwritten rfl h fun _ _ h => h)
    exact (Prog.wp_bind _ _).2 (Prog.wp_ite (fun _ => filled s₁ h) fun _ => wp_unwritten rfl h fun _ s₂ h => filled s₂ h)

theorem wp_drop_covered (record : PlaylistRecord) (existing : List String) (h : Covered key records s) :
    (drop record existing).wp (Watch key) Records (fun _ s' => Covered key records s') NotEmby s := by
  unfold drop
  split
  · exact h
  · exact (Prog.wp_bind _ _).2 (wp_unwritten rfl h fun _ _ h => h)

/-- The record of the list's own sync is what clears the mark; after another list's it is still to come. -/
theorem wp_recordSync_covered {record : PlaylistRecord} {rest : List PlaylistRecord} {present missing : List String}
    {id : Option String} {existing : List String} (h : Covered key (record :: rest) s) :
    Prog.wp (Watch key) Records (do
      recordSync record.key present missing id
      pure existing) (fun _ s' => Covered key rest s') NotEmby s := by
  refine (Prog.wp_bind _ _).2 (wp_watched (by trivial) fun _ s' ht => ⟨h.marked.step (by trivial) ht, fun hf => ?_⟩)
  cases ht with
  | ok switches _ =>
    unfold Watched.after at hf
    dsimp only at hf
    by_cases hc : record.key = key ∧ s.fate = .unlisted
    · rw [if_pos hc] at hf
      cases hf
    · rw [if_neg hc] at hf
      have hmem := h.read hf
      rw [List.map_cons] at hmem
      exact (List.mem_cons.1 hmem).resolve_left fun he => hc ⟨he.symm, hf⟩

theorem wp_round_covered (index : Index) {acc : List String × List String} {record : PlaylistRecord}
    {rest : List PlaylistRecord} (h : Covered key (record :: rest) s) :
    (round index acc record).wp (Watch key) Records (fun _ s' => Covered key rest s') NotEmby s := by
  unfold round
  refine (Prog.wp_bind _ _).2 (wp_unwritten rfl h fun _ s₁ h => (Prog.wp_bind _ _).2 ((Prog.wp_attempt _).2 ?_))
  refine Prog.wp_mono (Q := fun _ s' => Covered key rest s') (X := NotEmby) ?_ (fun _ _ h => h) fun e s' he => ?_
  · refine Prog.wp_ite (fun _ => ?_) fun _ => ?_
    · exact (Prog.wp_bind _ _).2 (Prog.wp_mono (wp_bring_covered record _ acc.1 h)
        (fun _ _ h => wp_recordSync_covered h) fun _ _ h => h)
    · exact (Prog.wp_bind _ _).2 (Prog.wp_mono (wp_drop_covered record acc.1 h)
        (fun _ _ h => wp_recordSync_covered h) fun _ _ h => h)
  · cases e with
    | emby => cases he
    | _ => exact he

/-- A run that comes to its end has recorded the sync of every list. -/
theorem wp_run_covered (h : Marked key s) :
    run.wp (Watch key) Records (fun _ s' => s'.fate ≠ .unlisted) NotEmby s := by
  unfold run
  refine (Prog.wp_bind _ _).2 (Prog.wp_mono (wp_refreshLists_covered h) (fun records s₁ h => ?_) fun _ _ h => h)
  refine (Prog.wp_bind _ _).2 (wp_unwritten rfl h fun _ s₂ h => (Prog.wp_bind _ _).2 ?_)
  refine wp_unwritten rfl h fun (index : Index) s₃ h => (Prog.wp_bind _ _).2 ?_
  refine wp_unwritten rfl h fun (playlists : List EmbyPlaylist) s₄ h => (Prog.wp_bind _ _).2 ?_
  refine Prog.wp_foldEach (fun rest _ s' => Covered key rest s') ?_ ?_ h
  · exact fun record rest acc s' h => wp_round_covered index h
  · exact fun acc s' h hf => List.not_mem_nil (h.read hf)

end run

/-! ## Histories -/

theorem Marked.between {key : String} {s : Watched} {w : World} (h : Marked key s) (hb : Between s.world w) :
    Marked key ⟨w, s.fate⟩ := by
  cases hb with
  | switch key' enabled =>
    exact h.congr (lastError_setAll [(key', enabled)]).1 (lastError_setAll [(key', enabled)]).2
  | byHand => exact h.congr rfl rfl

theorem Followed.marked {key : String} {s : Watched} (h : Followed key s) : Marked key s := by
  induction h with
  | start w => exact ⟨fun hne => absurd rfl hne, fun hf => (by cases hf), fun hf => (by cases hf)⟩
  | between _ hb ih => exact ih.between hb
  | run _ hs ih => exact Prog.wp_stops (fun _ _ _ _ hI hG ht => hI.step hG ht) (wp_run_covered ih) ih hs

/-- A stored list that the source has left out carries the mark exactly as long as no run has got to
the record of its sync; a run that comes to its end always has. -/
theorem vanished_marked_iff {key : String} {s : Watched} (h : Followed key s) :
    (s.fate ≠ .listed → (s.world.lastError key = some World.noLongerPublished ↔ s.fate = .unlisted)) ∧
      ∀ failed s', Prog.Runs (Watch key) s run (.ok failed) s' → s'.fate ≠ .unlisted := by
  refine ⟨fun hne => ⟨fun herr => ?_, h.marked.unlisted⟩, fun failed s' hr =>
    Prog.wp_runs_ok (Q := fun _ s' => s'.fate ≠ .unlisted) (wp_run_covered h.marked) hr⟩
  cases hf : s.fate with
  | listed => exact absurd hf hne
  | unlisted => rfl
  | recorded =>
    rw [h.marked.recorded hf] at herr
    cases herr

/-! ## A list that is left out -/

namespace Vanished

/-- One stored list, which the source with its one list `k7` does not know. -/
def world : World := { blank with playlists := blank.playlists.put ⟨"k1", 1, "Old", "Old", true, [], [], [], none, none⟩ }

/-- The library holds nothing, so no playlist is made. -/
def served (s : Watched) (op : PlaylistOp) : Except PlaylistExn op.Res × Watched :=
  match op with
  | .movieIndex => (.ok (fun _ => none : Index), s.after "k1" { s.world with indexed := fun _ => none } .movieIndex)
  | op => ((answer false s.world op).1, s.after "k1" (answer false s.world op).2 op)

def answered : PlaylistOp → Bool
  | .createPlaylist .. | .playlistEntries _ => false
  | _ => true

theorem served_watch {op : PlaylistOp} (hop : answered op = true) (s : Watched) :
    Watch "k1" s op (served s op).1 (served s op).2 := by
  cases op with
  | createPlaylist | playlistEntries => cases hop
  | list => exact .ok [] ⟨.refl _, rfl⟩
  | source | listPlaylists => exact .ok [] ⟨rfl, rfl⟩
  | addEntries => exact .ok [] ⟨_, by simp [Function.comp_def], rfl⟩
  | _ => exact .ok [] rfl

/-- The run that drops `k1`. -/
def dropped : Watched := (Prog.exec served ⟨world, .listed⟩ run).2

theorem dropped_runs : Prog.Runs (Watch "k1") ⟨world, .listed⟩ run (Prog.exec served ⟨world, .listed⟩ run).1 dropped := by
  refine Prog.exec_runs_of_calls fun op hop s => served_watch ?_ s
  have hall : (Prog.calls served ⟨world, .listed⟩ run).all answered = true := by decide
  exact List.all_eq_true.1 hall op hop

theorem dropped_fate : dropped.fate = .recorded := by decide

end Vanished

/-- The theorem where `k1` was dropped by a run that came to its end. -/
theorem vanished_marked_dropped :
    (Vanished.dropped.fate ≠ .listed →
        (Vanished.dropped.world.lastError "k1" = some World.noLongerPublished ↔ Vanished.dropped.fate = .unlisted)) ∧
      ∀ failed s', Prog.Runs (Watch "k1") Vanished.dropped run (.ok failed) s' → s'.fate ≠ .unlisted :=
  vanished_marked_iff (.run (.start Vanished.world) Vanished.dropped_runs.stops)

/-- The run that marks the list clears the mark. -/
theorem vanished_unmarked :
    ¬∀ (key : String) (s : Watched), Followed key s → s.fate ≠ .listed →
      s.world.lastError key = some World.noLongerPublished := by
  intro h
  have hmark := h "k1" Vanished.dropped (.run (.start Vanished.world) Vanished.dropped_runs.stops)
    (by rw [Vanished.dropped_fate]; exact Fate.noConfusion)
  revert hmark
  decide

end EmbyxManager.Playlists
