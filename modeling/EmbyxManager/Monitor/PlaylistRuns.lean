import EmbyxManager.Monitor.OnePlaylist
/-!
# What a playlist run leaves

One round brings one list's playlist to what the list asks and touches no other; a run is
its rounds. The history theorem needs every playlist that is made to be recorded, and the
lists to be switched before a run reads them or after.
-/

namespace EmbyxManager.Playlists

open Atom

/-! ## The condition -/

/-- The calls made before the run has its lists. -/
def PlaylistOp.early : PlaylistOp → Bool
  | list | source | discoverDatabaseName | downloadDatabase _ | replaceLists _ | recordSource _ => true
  | _ => false

/-- The answer to a playlist that is made arrives, nothing fails before it is recorded, and no
list is switched while the run reads them. -/
structure Careful (w : World) (op : PlaylistOp) (r : Except PlaylistExn op.Res) (w' : World) : Prop where
  answered : ∀ e, r = .error e → w'.made = w.made
  recorded : w.unremembered ≠ none → ∃ a, r = .ok a
  asRead : op.early = true → ∀ key row, w.playlists.find key = some row →
    ∃ row', w'.playlists.find key = some row' ∧ row'.enabled = row.enabled

def careful : Env PlaylistOp.Res PlaylistExn World := fun w op r w' => Step w op r w' ∧ Careful w op r w'

/-- A call of a round. -/
def Own (key : String) (w : World) (op : PlaylistOp) : Prop := Guard w op ∧ About key w op

theorem careful_quiet {w w' : World} {op : PlaylistOp} {r : Except PlaylistExn op.Res} (hop : op.quiet = true)
    (h : careful w op r w') : Quiet w w' := h.1.quiet hop

theorem careful_ok {w w' : World} {op : PlaylistOp} {a : op.Res} (h : careful w op (.ok a) w') :
    ∃ w₁, Quiet w w₁ ∧ w₁.Does op a w' := by
  obtain ⟨hs, -⟩ := h
  cases hs with
  | ok switches hd => exact ⟨_, setAll_quiet w switches, hd⟩

/-! ## One round -/

/-- What a list's playlist holds. -/
structure Holds (key : String) (target : List String) (w : World) : Prop where
  items : ∀ p ∈ w.owned key, p.items = target
  present : target ≠ [] → ∃ p, p ∈ w.owned key

/-- The list's playlist is `id`, it is recorded, and the row is `link`. -/
structure Mine (key id : String) (link : Option (Option String × List RankedEntry)) (w : World) : Prop where
  made : (id, key) ∈ w.made
  only : ∀ p ∈ w.owned key, p.playlistId = id
  clear : w.unremembered = none
  row : w.link key = link

variable {key id : String} {link : Option (Option String × List RankedEntry)} {w w' : World}

theorem Mine.of_quiet (h : Mine key id link w) (hq : Quiet w w') : Mine key id link w' := by
  refine ⟨hq.made ▸ h.made, ?_, hq.unremembered.trans h.clear, (hq.link key).trans h.row⟩
  rw [hq.owned]
  exact h.only

theorem Mine.refill (h : Mine key id link w) (f : List EmbyPlaylistEntry → List EmbyPlaylistEntry) :
    Mine key id link (w.refill id f) := by
  refine ⟨h.made, fun p hp => ?_, h.clear, h.row⟩
  obtain ⟨hp, hm⟩ := World.mem_owned.1 hp
  obtain ⟨q, hq, hid, -⟩ := mem_refill hp
  exact hid ▸ h.only q (World.mem_owned.2 ⟨hq, hid ▸ hm⟩)

theorem find_refill {p : ServerPlaylist} (f : List EmbyPlaylistEntry → List EmbyPlaylistEntry)
    (h : w.server.find id = some p) :
    ∃ q, (w.refill id f).server.find id = some q ∧ q.entries = f p.entries := by
  refine ⟨{ p with entries := f p.entries }, ?_, rfl⟩
  simp [World.refill, Table.find_modify, h]

/-- The one playlist there is holds what is found under its id. -/
theorem Mine.holds {p : ServerPlaylist} {target : List String} (h : Mine key id link w) (hp : w.server.find id = some p)
    (hitems : p.items = target) : Holds key target w := by
  obtain ⟨hrow, hid⟩ := Table.find_eq_some.1 hp
  refine ⟨fun q hq => ?_, fun _ => ⟨p, World.mem_owned.2 ⟨hrow, hid ▸ h.made⟩⟩⟩
  have hq' := Table.find_eq_some.2 ⟨(World.mem_owned.1 hq).1, h.only q hq⟩
  rw [hp] at hq'
  cases hq'
  exact hitems

theorem Mine.guard {present missing : List String} (h : Mine key id link w) (hl : link.isSome = true) :
    Guard w (.recordSync key present missing (some id)) := by
  refine ⟨h.row ▸ hl, ?_, fun p hp => congrArg some (h.only p hp).symm, ?_⟩
  · rintro i ⟨⟩
    exact h.made
  · intro m hm
    rw [h.clear] at hm
    cases hm

/-- After a round that has raised: the row as it was, nothing unrecorded. -/
structure Left (key : String) (link : Option (Option String × List RankedEntry)) (w : World) : Prop where
  clear : w.unremembered = none
  row : w.link key = link

theorem Mine.left (h : Mine key id link w) : Left key link w := ⟨h.clear, h.row⟩

theorem Left.of_quiet (h : Left key link w) (hq : Quiet w w') : Left key link w' :=
  ⟨hq.unremembered.trans h.clear, (hq.link key).trans h.row⟩

/-- A call that changes the entries of the list's playlist raises. -/
theorem Mine.left_of_error (h : Mine key id link w) (op : PlaylistOp) {e : PlaylistExn}
    (hop : ∀ w₁ a w', World.Does w₁ op a w' → ∃ f, w' = w₁.refill id f) (hs : careful w op (.error e) w') :
    Left key link w' := by
  obtain ⟨hs, -⟩ := hs
  cases hs with
  | failed switches => exact h.left.of_quiet (setAll_quiet w switches)
  | lost switches _ hd =>
    obtain ⟨f, rfl⟩ := hop _ _ _ hd
    exact ((h.of_quiet (setAll_quiet w switches)).refill f).left

theorem wp_removeEntries {p : ServerPlaylist} (h : Mine key id link w) (hp : w.server.find id = some p) :
    (removeEntries id (p.entries.map (·.entryId))).wp careful (Own key)
      (fun _ w' => Mine key id link w' ∧ ∃ q, w'.server.find id = some q ∧ q.entries = [])
      (fun _ w' => Left key link w') w := by
  unfold removeEntries
  refine Prog.wp_ite (fun hnil => ?_) fun _ => ?_
  · exact ⟨h, p, hp, List.map_eq_nil_iff.1 hnil⟩
  · refine (Prog.wp_call _).2 ⟨⟨trivial, h.made⟩, fun a w' hs => ?_, fun e w' hs => ?_⟩
    · obtain ⟨w₁, hq, hd⟩ := careful_ok hs
      obtain rfl := hd
      obtain ⟨q, hq', hempty⟩ := find_refill (fun entries => entries.filter (·.entryId ∉ p.entries.map (·.entryId)))
        (hq.server ▸ hp)
      refine ⟨(h.of_quiet hq).refill _, q, hq', ?_⟩
      rw [hempty]
      refine List.filter_eq_nil_iff.2 fun e he => ?_
      simpa using ⟨e, he, rfl⟩
    · exact h.left_of_error (.removeEntries id _) (fun _ _ _ hd => ⟨_, hd⟩) hs

theorem wp_addEntries {target : List String} {p : ServerPlaylist} (h : Mine key id link w)
    (hp : w.server.find id = some p) (hempty : p.entries = []) :
    (addEntries id target).wp careful (Own key) (fun _ w' => Mine key id link w' ∧ Holds key target w')
      (fun _ w' => Left key link w') w := by
  unfold addEntries
  refine Prog.wp_ite (fun hnil => ?_) fun _ => ?_
  · exact ⟨h, h.holds hp (by simp [ServerPlaylist.items, hempty, hnil])⟩
  · refine (Prog.wp_call _).2 ⟨⟨trivial, h.made⟩, fun a w' hs => ?_, fun e w' hs => ?_⟩
    · obtain ⟨w₁, hq, hd⟩ := careful_ok hs
      obtain ⟨added, hadded, rfl⟩ := hd
      obtain ⟨q, hq', hentries⟩ := find_refill (fun entries => entries ++ added) (hq.server ▸ hp)
      have hmine := (h.of_quiet hq).refill (fun entries => entries ++ added)
      exact ⟨hmine, hmine.holds hq' (by simp [ServerPlaylist.items, hentries, hempty, hadded])⟩
    · refine h.left_of_error (.addEntries id target) (fun _ _ _ hd => ?_) hs
      obtain ⟨added, -, hd⟩ := hd
      exact ⟨_, hd⟩

/-- What a call has found to exist is off for this list only. -/
def Others (key : String) (existing existing' : List String) (w : World) : Prop :=
  ∀ id, (id, key) ∉ w.made → (id ∈ existing' ↔ id ∈ existing)

/-- Before a list's round: its row is as it was read, and `existing` knows its playlist. -/
structure Awaits (record : PlaylistRecord) (existing : List String) (w : World) : Prop where
  row : w.link record.key = some (record.embyPlaylistId, record.entries)
  exist : ∀ id, record.embyPlaylistId = some id → (id ∈ existing ↔ ∃ p ∈ w.server.rows, p.playlistId = id)

variable {record : PlaylistRecord} {existing : List String}

/-- The playlist the row names is there, and it is the only one. -/
theorem Awaits.mine (ha : Awaits record existing w) (hI : Inv w) (hun : w.unremembered = none)
    (hid : record.embyPlaylistId.filter (· ∈ existing) = some id) :
    Mine record.key id (some (record.embyPlaylistId, record.entries)) w ∧ ∃ p, w.server.find id = some p := by
  obtain ⟨hrec, hin⟩ := Option.filter_eq_some_iff.1 hid
  have hrem : w.remembered record.key = some id := by
    rw [World.remembered_eq, ha.row]
    exact hrec
  refine ⟨⟨hI.linked hrem, fun p hp => ?_, hun, ha.row⟩, ?_⟩
  · rcases hI.known hp with hk | hk
    · exact absurd (hun.symm.trans hk) (by simp)
    · exact Option.some.inj (hk.symm.trans hrem)
  · obtain ⟨p, hp, hk⟩ := (ha.exist id hrec).1 (by simpa using hin)
    exact ⟨p, Table.find_eq_some.2 ⟨hp, hk⟩⟩

/-- The row names no playlist that is there, and there is none. -/
theorem Awaits.none (ha : Awaits record existing w) (hI : Inv w) (hun : w.unremembered = none)
    (hid : record.embyPlaylistId.filter (· ∈ existing) = none) : w.owned record.key = [] := by
  refine List.eq_nil_iff_forall_not_mem.2 fun p hp => ?_
  rcases hI.known hp with hk | hk
  · exact absurd (hun.symm.trans hk) (by simp)
  · rw [World.remembered_eq, ha.row] at hk
    have hin := (ha.exist p.playlistId hk).2 ⟨p, (World.mem_owned.1 hp).1, rfl⟩
    rw [Option.filter_eq_none_iff] at hid
    exact hid _ hk (by simpa using hin)

/-- What a round knows when it has brought the playlist `id` up and records it. -/
structure Ready (record : PlaylistRecord) (target : List String) (id : Option String) (w : World) : Prop where
  guard : ∀ present missing, Guard w (.recordSync record.key present missing id)
  holds : Holds record.key target w
  row : w.link record.key = some (record.embyPlaylistId, record.entries)

theorem Mine.ready {target : List String} (h : Mine record.key id (some (record.embyPlaylistId, record.entries)) w)
    (hh : Holds record.key target w) : Ready record target (some id) w := ⟨fun _ _ => h.guard rfl, hh, h.row⟩

theorem owned_create {p : ServerPlaylist} (hI : Inv w) (hp : p.playlistId ∉ w.ids) (hown : w.owned key = []) {q : ServerPlaylist}
    (hq : q ∈ (w.create key p).owned key) : q = p := by
  obtain ⟨hq, hm⟩ := World.mem_owned.1 hq
  rcases (mem_create hI hp).1 hq with hq' | hq'
  · rcases List.mem_cons.1 hm with hm' | hm'
    · exact absurd ((Prod.mk.inj hm').1 ▸ hI.used q hq') hp
    · exact absurd (World.mem_owned.2 ⟨hq', hm'⟩) (by simp [hown])
  · exact hq'

theorem wp_bring {target : List String} (hI : Inv w) (hun : w.unremembered = none) (ha : Awaits record existing w) :
    (bring record target existing).wp careful (Own record.key)
      (fun out w' => Ready record target out.1 w' ∧ Others record.key existing out.2 w')
      (fun _ w' => Left record.key (some (record.embyPlaylistId, record.entries)) w') w := by
  unfold bring
  cases hid : record.embyPlaylistId.filter (· ∈ existing) with
  | none =>
    have hown := ha.none hI hun hid
    refine Prog.wp_ite (fun hnil => ?_) fun hne => ?_
    · refine ⟨⟨fun _ _ => ⟨?_, ?_, ?_, ?_⟩, ⟨?_, fun h => absurd hnil h⟩, ha.row⟩, fun _ _ => .rfl⟩
      · simp [ha.row]
      · simp
      · simp [hown]
      · simp [hun]
      · simp [hown]
    · rw [Prog.wp_bind]
      refine (Prog.wp_call _).2 ⟨⟨⟨hown, hun⟩, rfl⟩, fun i w' hs => ?_, fun e w' hs => ?_⟩
      · obtain ⟨w₁, hq, hd⟩ := careful_ok hs
        obtain ⟨hi, entries, hentries, rfl⟩ := hd
        have hown₁ : w₁.owned record.key = [] := (hq.owned _).trans hown
        have hone := fun q hq' => owned_create (p := ⟨⟨i, record.name⟩, entries⟩) (q := q) (hI.of_quiet hq) hi hown₁ hq'
        have hrow : (w₁.create record.key ⟨⟨i, record.name⟩, entries⟩).link record.key =
            some (record.embyPlaylistId, record.entries) := (hq.link _).trans ha.row
        refine ⟨⟨fun _ _ => ⟨hrow ▸ rfl, ?_, ?_, ?_⟩, ⟨?_, fun _ => ?_⟩, hrow⟩, ?_⟩
        · rintro _ ⟨⟩
          exact List.mem_cons_self
        · exact fun p hp => hone p hp ▸ rfl
        · rintro _ ⟨⟩
          exact ⟨rfl, rfl⟩
        · exact fun p hp => hone p hp ▸ hentries
        · exact ⟨_, World.mem_owned.2 ⟨(mem_create (hI.of_quiet hq) hi).2 (.inr rfl), List.mem_cons_self⟩⟩
        · intro j hj
          have hne : j ≠ i := fun he => hj (he ▸ List.mem_cons_self)
          exact List.mem_cons.trans (or_iff_right hne)
      · obtain ⟨hs, hc⟩ := hs
        have hmade := hc.answered e rfl
        cases hs with
        | failed switches =>
          exact ⟨(setAll_quiet w switches).unremembered.trans hun, ((setAll_quiet w switches).link _).trans ha.row⟩
        | lost switches _ hd =>
          -- the answer of a playlist that is made is not lost
          obtain ⟨-, entries, -, rfl⟩ := hd
          rw [← (setAll_quiet w switches).made] at hmade
          exact absurd hmade (by simp [World.create])
  | some i =>
    obtain ⟨hm, p, hp⟩ := ha.mine hI hun hid
    rw [Prog.wp_bind]
    refine (Prog.wp_call _).2 ⟨⟨trivial, hm.made⟩, fun current w' hs => ?_, fun e w' hs => ?_⟩
    · obtain ⟨w₁, hq, hd⟩ := careful_ok hs
      obtain ⟨q, hq', rfl, rfl⟩ := hd
      have hm := hm.of_quiet hq
      refine Prog.wp_ite (fun heq => ?_) fun _ => ?_
      · exact ⟨hm.ready (hm.holds hq' heq), fun _ _ => .rfl⟩
      · rw [Prog.wp_bind]
        refine Prog.wp_mono (wp_removeEntries hm hq') (fun _ w₂ h₂ => ?_) fun _ _ h => h
        obtain ⟨hm, p, hp, hempty⟩ := h₂
        rw [Prog.wp_bind]
        refine Prog.wp_mono (wp_addEntries hm hp hempty) (fun _ w₃ h₃ => ?_) fun _ _ h => h
        exact ⟨h₃.1.ready h₃.2, fun _ _ => .rfl⟩
    · exact hm.left.of_quiet (careful_quiet rfl hs)

theorem wp_drop (hI : Inv w) (hun : w.unremembered = none) (ha : Awaits record existing w) :
    (drop record existing).wp careful (Own record.key)
      (fun existing' w' => (∀ present missing, Guard w' (.recordSync record.key present missing none)) ∧
        w'.owned record.key = [] ∧ w'.link record.key = some (record.embyPlaylistId, record.entries) ∧
        Others record.key existing existing' w')
      (fun _ w' => Left record.key (some (record.embyPlaylistId, record.entries)) w') w := by
  -- with nothing left on the server, recording that there is none is right
  have hguard : ∀ {w' : World}, w'.owned record.key = [] → w'.unremembered = none →
      w'.link record.key = some (record.embyPlaylistId, record.entries) →
      ∀ present missing, Guard w' (.recordSync record.key present missing none) := by
    intro w' ho hu hl present missing
    exact ⟨hl ▸ rfl, by simp, by simp [ho], by simp [hu]⟩
  unfold drop
  cases hid : record.embyPlaylistId.filter (· ∈ existing) with
  | none =>
    have hown := ha.none hI hun hid
    exact ⟨hguard hown hun ha.row, hown, ha.row, fun _ _ => .rfl⟩
  | some i =>
    obtain ⟨hm, -⟩ := ha.mine hI hun hid
    rw [Prog.wp_bind]
    refine (Prog.wp_call _).2 ⟨⟨trivial, hm.made⟩, fun a w' hs => ?_, fun e w' hs => ?_⟩
    · obtain ⟨w₁, hq, hd⟩ := careful_ok hs
      obtain rfl := hd
      have hm := hm.of_quiet hq
      have hown : (w₁.delete i).owned record.key = [] := by
        refine List.eq_nil_iff_forall_not_mem.2 fun p hp => ?_
        obtain ⟨hp, hmade⟩ := World.mem_owned.1 hp
        obtain ⟨hp, hne⟩ := mem_delete.1 hp
        exact hne (hm.only p (World.mem_owned.2 ⟨hp, hmade⟩))
      refine ⟨hguard hown hm.clear hm.row, hown, hm.row, fun j hj => ?_⟩
      have : j ≠ i := fun he => hj (he ▸ hm.made)
      simp [this]
    · obtain ⟨hs, -⟩ := hs
      cases hs with
      | failed switches => exact hm.left.of_quiet (setAll_quiet w switches)
      | lost switches _ hd =>
        obtain rfl := hd
        exact ⟨(hm.of_quiet (setAll_quiet w switches)).clear, (hm.of_quiet (setAll_quiet w switches)).row⟩

/-- The list's playlist is as its row asks. -/
structure Settled (record : PlaylistRecord) (index : Index) (w : World) : Prop where
  row : (w.link record.key).map (·.2) = some record.entries
  enabled : record.enabled = true → Holds record.key (record.target index) w
  disabled : record.enabled = false → w.owned record.key = []

/-- What is recorded is what was there. -/
theorem recordSync_step {present missing : List String} {pid : Option String} {e : List RankedEntry}
    {o : Option String} {a : Unit} (hg : Guard w (.recordSync key present missing pid)) (hl : w.link key = some (o, e))
    (hs : careful w (.recordSync key present missing pid) (.ok a) w') :
    w'.unremembered = none ∧ (w'.link key).map (·.2) = some e ∧ w'.made = w.made ∧ ∀ k, w'.owned k = w.owned k := by
  obtain ⟨w₁, hq, hd⟩ := careful_ok hs
  obtain rfl := hd
  refine ⟨?_, ?_, hq.made, fun k => hq.owned k⟩
  · simp only [World.recordSync, Option.filter_eq_none_iff]
    intro m hm
    rw [hq.unremembered] at hm
    simpa using hg.2.2.2 m hm
  · rw [link_recordSync, hq.link, hl]
    simp

/-- What a record that fails raises is no Emby error. -/
theorem recordSync_raises {present missing : List String} {pid : Option String} {e : PlaylistExn}
    (hs : careful w (.recordSync key present missing pid) (.error e) w') : e = .database := by
  obtain ⟨hs, -⟩ := hs
  cases hs with
  | failed _ he => exact he
  | lost _ he _ => exact he

theorem Others.congr {existing' : List String} (h : Others key existing existing' w) (hm : w'.made = w.made) :
    Others key existing existing' w' := fun id hid => h id (hm ▸ hid)

/-- What a list's body ends in: its playlist settled, or an Emby error that leaves its row. -/
theorem wp_syncOne (index : Index) (hen : record.enabled = true) (hI : Inv w) (hun : w.unremembered = none)
    (ha : Awaits record existing w) :
    (syncOne record index existing).wp careful (Own record.key)
      (fun existing' w' => w'.unremembered = none ∧ Settled record index w' ∧ Others record.key existing existing' w')
      (fun e w' => (∃ text, e = .emby text) → Left record.key (some (record.embyPlaylistId, record.entries)) w') w := by
  unfold syncOne
  rw [Prog.wp_bind]
  refine Prog.wp_mono (wp_bring hI hun ha) (fun out w₁ h => ?_) fun _ _ h _ => h
  obtain ⟨hready, hothers⟩ := h
  have hg := hready.guard (record.presentIn index) (record.missingIn index)
  rw [Prog.wp_bind]
  refine (Prog.wp_call _).2 ⟨⟨hg, rfl⟩, fun a w₂ hs => ?_, fun e w₂ hs he => ?_⟩
  · obtain ⟨hclear, hrow, hmade, hown⟩ := recordSync_step hg hready.row hs
    refine ⟨hclear, ⟨hrow, fun _ => ⟨?_, ?_⟩, fun h => absurd hen (by simp [h])⟩, hothers.congr hmade⟩
    · rw [hown]
      exact hready.holds.items
    · rw [hown]
      exact hready.holds.present
  · obtain ⟨text, rfl⟩ := he
    cases recordSync_raises hs

theorem wp_retire (index : Index) (hen : record.enabled = false) (hI : Inv w) (hun : w.unremembered = none)
    (ha : Awaits record existing w) :
    (retire record index existing).wp careful (Own record.key)
      (fun existing' w' => w'.unremembered = none ∧ Settled record index w' ∧ Others record.key existing existing' w')
      (fun e w' => (∃ text, e = .emby text) → Left record.key (some (record.embyPlaylistId, record.entries)) w') w := by
  unfold retire
  rw [Prog.wp_bind]
  refine Prog.wp_mono (wp_drop hI hun ha) (fun existing' w₁ h => ?_) fun _ _ h _ => h
  obtain ⟨hguard, howned, hrow, hothers⟩ := h
  have hg := hguard (record.presentIn index) (record.missingIn index)
  rw [Prog.wp_bind]
  refine (Prog.wp_call _).2 ⟨⟨hg, rfl⟩, fun a w₂ hs => ?_, fun e w₂ hs he => ?_⟩
  · obtain ⟨hclear, hrow, hmade, hown⟩ := recordSync_step hg hrow hs
    exact ⟨hclear, ⟨hrow, fun h => absurd hen (by simp [h]), fun _ => (hown _).trans howned⟩, hothers.congr hmade⟩
  · obtain ⟨text, rfl⟩ := he
    cases recordSync_raises hs

theorem Awaits.of_quiet (h : Awaits record existing w) (hq : Quiet w w') : Awaits record existing w' := by
  refine ⟨(hq.link _).trans h.row, ?_⟩
  rw [hq.server]
  exact h.exist

/-- After a round: the list is settled, or an error is reported for it. -/
structure Rounded (record : PlaylistRecord) (index : Index) (acc acc' : List String × List String) (w : World) : Prop where
  clear : w.unremembered = none
  others : Others record.key acc.1 acc'.1 w
  ended : (acc'.2 = acc.2 ∧ Settled record index w) ∨ acc'.2 = record.key :: acc.2
  row : (w.link record.key).map (·.2) = some record.entries

theorem wp_round (index : Index) {acc : List String × List String} (hI : Inv w) (hun : w.unremembered = none)
    (ha : Awaits record acc.1 w) :
    (round index acc record).wp careful (Own record.key) (fun acc' w' => Rounded record index acc acc' w')
      (fun _ _ => True) w := by
  unfold round
  rw [Prog.wp_bind]
  refine (Prog.wp_call _).2 ⟨⟨trivial, trivial⟩, fun a w₁ hs => ?_, fun _ _ _ => trivial⟩
  have hq := careful_quiet rfl hs
  have hI := hI.of_quiet hq
  have hun := hq.unremembered.trans hun
  have ha := ha.of_quiet hq
  rw [Prog.wp_bind, Prog.wp_attempt]
  -- an enabled list is brought up to date, a disabled one taken away
  have hbody : (if record.enabled then syncOne record index acc.1 else retire record index acc.1).wp careful (Own record.key)
      (fun existing' w' => w'.unremembered = none ∧ Settled record index w' ∧ Others record.key acc.1 existing' w')
      (fun e w' => (∃ text, e = .emby text) → Left record.key (some (record.embyPlaylistId, record.entries)) w') w₁ :=
    Prog.wp_ite (fun hen => wp_syncOne index hen hI hun ha)
      fun hen => wp_retire index (Bool.eq_false_iff.2 hen) hI hun ha
  refine Prog.wp_mono hbody (fun existing' w₂ h => ?_) fun e w₂ h => ?_
  · exact ⟨h.1, h.2.2, .inl ⟨rfl, h.2.1⟩, h.2.1.row⟩
  · cases e with
    | emby text =>
      have hleft := h ⟨text, rfl⟩
      change Prog.wp careful (Own record.key) (recordError record.key text >>= fun _ => pure _) _ _ w₂
      rw [Prog.wp_bind]
      refine (Prog.wp_call _).2 ⟨⟨trivial, rfl⟩, fun a w₃ hs => ?_, fun _ _ _ => trivial⟩
      have hleft := hleft.of_quiet (careful_quiet rfl hs)
      exact ⟨hleft.clear, fun _ _ => .rfl, .inr rfl, by rw [hleft.row]; rfl⟩
    | _ => trivial

/-- A round, with what it leaves of the other lists. -/
theorem wp_round_frame (index : Index) {acc : List String × List String} (hI : Inv w) (hun : w.unremembered = none)
    (ha : Awaits record acc.1 w) :
    (round index acc record).wp careful Guard
      (fun acc' w' => Rounded record index acc acc' w' ∧ Inv w' ∧ Frame record.key w w') (fun _ _ => True) w := by
  have h := Prog.wp_inv (I := fun w' => Inv w' ∧ Frame record.key w w') ?_ (wp_round index hI hun ha) ⟨hI, .refl _ w⟩
  · exact Prog.wp_env (Prog.wp_mono h (fun _ _ h => h) fun _ _ _ => trivial) (fun _ _ _ _ h => h) fun _ _ h => h.1
  · intro s op r s' hs hg ht
    exact ⟨hs.1.step hg.1 ht.1, hs.2.trans (frame_step hs.1 hg.2 ht.1)⟩

/-! ## The loop -/

/-- The lists of a run as it has read them. -/
structure Read (records : List PlaylistRecord) (w : World) : Prop where
  nodup : (records.map (·.key)).Nodup
  row : ∀ record ∈ records, w.link record.key = some (record.embyPlaylistId, record.entries)
  all : ∀ key, (w.link key).isSome = true → ∃ record ∈ records, record.key = key

theorem Read.of_quiet {records : List PlaylistRecord} (h : Read records w) (hq : Quiet w w') : Read records w' :=
  ⟨h.nodup, fun record hr => (hq.link _).trans (h.row record hr), fun key hk => h.all key (hq.link key ▸ hk)⟩

theorem Read.inj {records : List PlaylistRecord} (h : Read records w) {a b : PlaylistRecord} (ha : a ∈ records)
    (hb : b ∈ records) (hk : a.key = b.key) : a = b := List.inj_on_of_nodup_map h.nodup ha hb hk

/-- Between two rounds, with `rest` still to go. -/
structure Loop (records : List PlaylistRecord) (index : Index) (rest : List PlaylistRecord) (acc : List String × List String)
    (w : World) : Prop where
  inv : Inv w
  clear : w.unremembered = none
  gone : ∃ gone, records = gone ++ rest
  todo : ∀ record ∈ rest, Awaits record acc.1 w
  done : ∀ record ∈ records, record ∈ rest ∨ record.key ∈ acc.2 ∨ Settled record index w
  row : ∀ record ∈ records, (w.link record.key).map (·.2) = some record.entries
  all : ∀ key, (w.link key).isSome = true → ∃ record ∈ records, record.key = key
  indexed : w.indexed = index

theorem Settled.frame {index : Index} {other : String} (h : Settled record index w) (hf : Frame other w w')
    (hne : record.key ≠ other) : Settled record index w' := by
  have hown := hf.owned record.key hne
  refine ⟨(hf.link _ hne).symm ▸ h.row, fun he => ⟨fun p hp => ?_, fun ht => ?_⟩, fun he => ?_⟩
  · exact (h.enabled he).items p ((hown p).1 hp)
  · obtain ⟨p, hp⟩ := (h.enabled he).present ht
    exact ⟨p, (hown p).2 hp⟩
  · refine List.eq_nil_iff_forall_not_mem.2 fun p hp => ?_
    rw [hown, h.disabled he] at hp
    cases hp

/-- The playlist a row names is there or not as before, whatever the rounds of other lists did. -/
theorem Awaits.frame {other : String} {existing' : List String} (h : Awaits record existing w) (hI : Inv w) (hI' : Inv w')
    (hf : Frame other w w') (ho : Others other existing existing' w') (hne : record.key ≠ other) :
    Awaits record existing' w' := by
  have hrow := (hf.link record.key hne).trans h.row
  refine ⟨hrow, fun id hid => ?_⟩
  have hlink : (id, record.key) ∈ w.made := hI.linked (by rw [World.remembered_eq, h.row]; exact hid)
  have hlink' : (id, record.key) ∈ w'.made := (hf.made _ hne id).2 hlink
  rw [ho id fun hm => hne (hI'.one hlink' hm), h.exist id hid]
  constructor
  · rintro ⟨p, hp, rfl⟩
    have := (hf.owned _ hne p).2 (World.mem_owned.2 ⟨hp, hlink⟩)
    exact ⟨p, (World.mem_owned.1 this).1, rfl⟩
  · rintro ⟨p, hp, rfl⟩
    have := (hf.owned _ hne p).1 (World.mem_owned.2 ⟨hp, hlink'⟩)
    exact ⟨p, (World.mem_owned.1 this).1, rfl⟩

theorem wp_rounds {records : List PlaylistRecord} {index : Index} {acc : List String × List String}
    (hnodup : (records.map (·.key)).Nodup) (h : Loop records index records acc w) :
    (Prog.foldEach records acc (round index)).wp careful Guard (fun acc' w' => Loop records index [] acc' w')
      (fun _ _ => True) w := by
  -- a list is still to come, has failed, or stands as its round left it
  refine Prog.wp_foldEach (Loop records index) (fun record rest acc w h => ?_) (fun _ _ h => h) h
  obtain ⟨gone, hgone⟩ := h.gone
  have hrec : record ∈ records := by simp [hgone]
  have hother : ∀ r ∈ rest, r.key ≠ record.key := by
    intro r hr hk
    rw [hgone, List.map_append, List.map_cons] at hnodup
    have := (List.nodup_cons.1 (List.nodup_append.1 hnodup).2.1).1
    exact this (hk ▸ List.mem_map_of_mem hr)
  refine Prog.wp_mono (wp_round_frame index h.inv h.clear (h.todo record (by simp))) ?_ fun _ _ h => h
  rintro acc' w' ⟨hround, hI', hf⟩
  have hsub : acc.2 ⊆ acc'.2 := by
    rcases hround.ended with ⟨he, -⟩ | he
    · exact he ▸ fun _ h => h
    · exact he ▸ fun _ h => List.mem_cons_of_mem _ h
  refine ⟨hI', hround.clear, ⟨gone ++ [record], by simp [hgone]⟩, ?_, ?_, ?_, ?_, hf.indexed.trans h.indexed⟩
  · exact fun r hr => (h.todo r (by simp [hr])).frame h.inv hI' hf hround.others (hother r hr)
  · intro r hr
    by_cases hk : r.key = record.key
    · obtain rfl := List.inj_on_of_nodup_map hnodup hr hrec hk
      rcases hround.ended with ⟨-, hs⟩ | he
      · exact .inr (.inr hs)
      · exact .inr (.inl (by simp [he]))
    · rcases h.done r hr with hr' | hr' | hr'
      · rcases List.mem_cons.1 hr' with rfl | hr'
        · exact absurd rfl hk
        · exact .inl hr'
      · exact .inr (.inl (hsub hr'))
      · exact .inr (.inr (hr'.frame hf hk))
  · intro r hr
    by_cases hk : r.key = record.key
    · obtain rfl := List.inj_on_of_nodup_map hnodup hr hrec hk
      exact hround.row
    · rw [hf.link _ hk]
      exact h.row r hr
  · intro key hkey
    by_cases hk : key = record.key
    · exact ⟨record, hrec, hk.symm⟩
    · exact h.all key (hf.link key hk ▸ hkey)

/-! ## The lists of a run -/

/-- A list is wanted when it was enabled at the start, and a new one is. -/
def World.wanted (w : World) (key : String) : Bool := (w.playlists.find key).elim true (·.enabled)

/-- While the run reads its lists, nothing is switched and none is dropped. -/
structure AsAtStart (start w : World) : Prop where
  inv : Inv w
  clear : w.unremembered = none
  enabled : ∀ key row, w.playlists.find key = some row → row.enabled = start.wanted key
  kept : ∀ key, w.playlists.find key = none → start.playlists.find key = none

variable {start : World}

theorem find_none_of_quiet {key : String} (hq : Quiet w w') (h : w.playlists.find key = none) :
    w'.playlists.find key = none := by
  have := hq.link key
  rw [World.link, World.link, h, Option.map_none, Option.map_eq_none_iff] at this
  exact this

/-- A row that an early call adds is a new list's. -/
theorem new_enabled {op : PlaylistOp} {r : Except PlaylistExn op.Res} {key : String} {row : PlaylistRecord}
    (hop : op.early = true) (h : Step w op r w') (hn : w.playlists.find key = none)
    (hrow : w'.playlists.find key = some row) : row.enabled = true := by
  have hdoes : ∀ {w₁ : World} {a : op.Res}, w₁.playlists.find key = none → w₁.Does op a w' → row.enabled = true := by
    intro w₁ a hn hd
    by_cases hq : op.quiet = true
    · rw [find_none_of_quiet (hd.quiet hq) hn] at hrow
      cases hrow
    · cases op with
      | replaceLists lists =>
        obtain rfl := hd
        rcases find_replaceLists w₁ lists key with ⟨r, hr, -, he, -⟩ | h
        · exact (Option.some.inj (hrow.symm.trans hr)) ▸ he
        · rw [hrow, hn] at h
          cases h
      | list | source | discoverDatabaseName | downloadDatabase | recordSource => exact absurd rfl hq
      | _ => cases hop
  cases h with
  | ok switches hd => exact hdoes (find_none_of_quiet (setAll_quiet w switches) hn) hd
  | failed switches =>
    rw [find_none_of_quiet (setAll_quiet w switches) hn] at hrow
    cases hrow
  | lost switches _ hd => exact hdoes (find_none_of_quiet (setAll_quiet w switches) hn) hd

theorem AsAtStart.step {op : PlaylistOp} {r : Except PlaylistExn op.Res} (hop : op.early = true) (h : AsAtStart start w)
    (hs : careful w op r w') : AsAtStart start w' := by
  have hguard : Guard w op := by cases op <;> trivial
  refine ⟨h.inv.step hguard hs.1, ?_, ?_, ?_⟩
  · have hdoes : ∀ {w₁ : World} {a : op.Res}, Quiet w w₁ → w₁.Does op a w' → w'.unremembered = none := by
      intro w₁ a hq hd
      cases op with
      | replaceLists =>
        obtain rfl := hd
        exact hq.unremembered.trans h.clear
      | list | source | discoverDatabaseName | downloadDatabase | recordSource =>
        exact (hq.trans (hd.quiet rfl)).unremembered.trans h.clear
      | _ => cases hop
    cases hs.1 with
    | ok switches hd => exact hdoes (setAll_quiet w switches) hd
    | failed switches => exact (setAll_quiet w switches).unremembered.trans h.clear
    | lost switches _ hd => exact hdoes (setAll_quiet w switches) hd
  · intro key row hrow
    cases hw : w.playlists.find key with
    | none =>
      rw [new_enabled hop hs.1 hw hrow, World.wanted, h.kept key hw]
      rfl
    | some old =>
      obtain ⟨row', hrow', he⟩ := hs.2.asRead hop key old hw
      rw [hrow] at hrow'
      cases hrow'
      rw [he]
      exact h.enabled key old hw
  · intro key hn
    cases hw : w.playlists.find key with
    | none => exact h.kept key hw
    | some old =>
      obtain ⟨row', hrow', -⟩ := hs.2.asRead hop key old hw
      rw [hn] at hrow'
      cases hrow'

/-- The lists were read, with the switches they had at the start. -/
structure Listed (start : World) (records : List PlaylistRecord) (w : World) : Prop where
  now : AsAtStart start w
  read : Read records w
  enabled : ∀ record ∈ records, record.enabled = start.wanted record.key

theorem Listed.step {records : List PlaylistRecord} {op : PlaylistOp} {r : Except PlaylistExn op.Res}
    (hop : op.early = true) (hquiet : op.quiet = true) (h : Listed start records w) (hs : careful w op r w') :
    Listed start records w' :=
  ⟨h.now.step hop hs, h.read.of_quiet (careful_quiet hquiet hs), h.enabled⟩

theorem wp_listRecords (h : AsAtStart start w) :
    listRecords.wp careful Guard (fun records w' => Listed start records w') (fun _ _ => True) w := by
  refine (Prog.wp_call _).2 ⟨trivial, fun (records : List PlaylistRecord) w' hs => ?_, fun _ _ _ => trivial⟩
  have hnow := h.step rfl hs
  obtain ⟨w₁, hq, hd⟩ := careful_ok hs
  obtain ⟨hperm, rfl⟩ := hd
  have hmem : ∀ {record}, record ∈ records ↔ record ∈ w'.playlists.rows := hperm.mem_iff
  have hfind : ∀ record ∈ records, w'.playlists.find record.key = some record :=
    fun record hr => Table.find_eq_some.2 ⟨hmem.1 hr, rfl⟩
  refine ⟨hnow, ⟨(hperm.map _).nodup_iff.2 w'.playlists.nodup, ?_, ?_⟩, ?_⟩
  · intro record hr
    rw [World.link, hfind record hr]
    rfl
  · intro key hk
    rw [World.link, Option.isSome_map] at hk
    obtain ⟨row, hrow⟩ := Option.isSome_iff_exists.1 hk
    obtain ⟨hr, hkey⟩ := Table.find_eq_some.1 hrow
    exact ⟨row, hmem.2 hr, hkey⟩
  · exact fun record hr => hnow.enabled record.key record (hfind record hr)

/-- A call that may be refused with a warning. -/
theorem wp_orKeepStored {α : Type} {p : Sync α} {Q : Option α → World → Prop}
    (h : p.wp careful Guard (fun a w' => Q (some a) w') (fun _ w' => Q none w') w) :
    (orKeepStored p).wp careful Guard Q (fun _ _ => True) w := by
  unfold orKeepStored
  rw [Prog.wp_bind, Prog.wp_attempt]
  refine Prog.wp_mono h (fun _ _ h => h) fun e w' h => ?_
  cases e with
  | jinjier => exact h
  | _ => trivial

theorem wp_refreshFrom {records : List PlaylistRecord} (stored name : Option String) (h : Listed start records w) :
    (refreshFrom records stored name).wp careful Guard (fun records w' => Listed start records w') (fun _ _ => True) w := by
  unfold refreshFrom
  cases name with
  | none => exact h
  | some name =>
    refine Prog.wp_ite (fun _ => ?_) fun _ => h
    rw [Prog.wp_bind]
    refine wp_orKeepStored ((Prog.wp_call _).2 ⟨trivial, fun lists w₁ hs => ?_, fun _ w₁ hs => h.step rfl rfl hs⟩)
    have hnow := h.now.step rfl hs
    change Prog.wp careful Guard (replaceLists lists >>= fun _ => recordSource name >>= fun _ => listRecords) _ _ w₁
    rw [Prog.wp_bind]
    refine (Prog.wp_call _).2 ⟨trivial, fun _ w₂ hs => ?_, fun _ _ _ => trivial⟩
    have hnow := hnow.step rfl hs
    rw [Prog.wp_bind]
    refine (Prog.wp_call _).2 ⟨trivial, fun _ w₃ hs => ?_, fun _ _ _ => trivial⟩
    exact wp_listRecords (hnow.step rfl hs)

theorem wp_refreshLists (h : AsAtStart start w) :
    refreshLists.wp careful Guard (fun records w' => Listed start records w') (fun _ _ => True) w := by
  unfold refreshLists
  rw [Prog.wp_bind]
  refine Prog.wp_mono (wp_listRecords h) (fun records w₁ h => ?_) fun _ _ h => h
  rw [Prog.wp_bind]
  refine (Prog.wp_call _).2 ⟨trivial, fun (stored : Option String) w₂ hs => ?_, fun _ _ _ => trivial⟩
  have h := h.step rfl rfl hs
  rw [Prog.wp_bind]
  refine wp_orKeepStored (p := discoverDatabaseName) ((Prog.wp_call _).2
    ⟨trivial, fun name w₃ hs => ?_, fun _ w₃ hs => ?_⟩)
  all_goals
    rw [Prog.wp_bind]
    refine Prog.wp_mono (wp_refreshFrom stored _ (h.step rfl rfl hs)) (fun records w₄ h => ?_) fun _ _ h => h
    exact Prog.wp_ite (fun _ => trivial) fun _ => h

/-! ## A run -/

/-- What a run that reports no error for a list leaves of it. -/
structure AsAsked (start : World) (row : PlaylistRecord) (w : World) : Prop where
  enabled : start.wanted row.key = true → Holds row.key (row.target w.indexed) w
  disabled : start.wanted row.key = false → w.owned row.key = []

theorem wp_run (hI : Inv start) (hun : start.unremembered = none) :
    run.wp careful Guard (fun failed w' => ∀ key row, w'.playlists.find key = some row → key ∉ failed → AsAsked start row w')
      (fun _ _ => True) start := by
  have hstart : AsAtStart start start := by
    refine ⟨hI, hun, fun key row hrow => ?_, fun _ h => h⟩
    rw [World.wanted, hrow]
    rfl
  unfold run
  rw [Prog.wp_bind]
  refine Prog.wp_mono (wp_refreshLists hstart) (fun records w₁ h => ?_) fun _ _ h => h
  have hread := h.read
  rw [Prog.wp_bind]
  refine (Prog.wp_call _).2 ⟨trivial, fun _ w₂ hs => ?_, fun _ _ _ => trivial⟩
  have hq := careful_quiet rfl hs
  have hI₂ := h.now.inv.of_quiet hq
  have hun₂ := hq.unremembered.trans h.now.clear
  have hread := hread.of_quiet hq
  rw [Prog.wp_bind]
  refine (Prog.wp_call _).2 ⟨trivial, fun (index : Index) w₃ hs => ?_, fun _ _ _ => trivial⟩
  have hI₃ := hI₂.step (show Guard w₂ .movieIndex from trivial) hs.1
  obtain ⟨w, hq, rfl⟩ := careful_ok hs
  have hun₃ := hq.unremembered.trans hun₂
  have hread : Read records { w with indexed := index } :=
    ⟨hread.nodup, (hread.of_quiet hq).row, (hread.of_quiet hq).all⟩
  rw [Prog.wp_bind]
  refine (Prog.wp_call _).2 ⟨trivial, fun (playlists : List EmbyPlaylist) w₄ hs => ?_, fun _ _ _ => trivial⟩
  have hq := careful_quiet rfl hs
  have hI₄ := hI₃.of_quiet hq
  have hun₄ := hq.unremembered.trans hun₃
  have hread := hread.of_quiet hq
  have hindexed : w₄.indexed = index := hq.indexed
  obtain ⟨w', -, hanswer, rfl⟩ := careful_ok hs
  -- the loop starts from the rows as read and the playlists the server listed
  have hloop : Loop records index records (playlists.map (·.playlistId), []) w₄ := by
    refine ⟨hI₄, hun₄, ⟨[], rfl⟩, fun record hr => ⟨hread.row record hr, fun id _ => ?_⟩, fun _ hr => .inl hr, ?_,
      hread.all, hindexed⟩
    · simp [hanswer]
    · intro record hr
      rw [hread.row record hr]
      rfl
  rw [Prog.wp_bind]
  refine Prog.wp_mono (wp_rounds hread.nodup hloop) (fun acc w₅ h₅ => ?_) fun _ _ h => h
  -- after the loop a row has its record's entries, so also its target
  intro key row hrow hfailed
  obtain ⟨record, hrec, rfl⟩ := h₅.all key (by rw [World.link, hrow]; rfl)
  have hkey : row.key = record.key := Table.find_key hrow
  have hentries : row.entries = record.entries := by
    have := h₅.row record hrec
    rw [World.link, hrow] at this
    simpa using this
  have htarget : row.target = record.target := by
    funext i
    unfold PlaylistRecord.target PlaylistRecord.presentIn
    rw [hentries]
  rcases h₅.done record hrec with hr | hr | hr
  · cases hr
  · exact absurd hr hfailed
  · refine ⟨fun he => ?_, fun he => ?_⟩
    · rw [hkey, htarget, h₅.indexed]
      exact hr.enabled ((h.enabled record hrec).trans (hkey ▸ he))
    · rw [hkey]
      exact hr.disabled ((h.enabled record hrec).trans (hkey ▸ he))

/-! ## Histories -/

/-- Runs and what happens between them: a run may stop after any call, and the next begins
where `cut` allows it. -/
inductive History (T : Env PlaylistOp.Res PlaylistExn World) (cut : World → Prop) : World → Prop
  | start {w : World} : Start w → History T cut w
  | between {w w' : World} : History T cut w → Between w w' → History T cut w'
  | run {w w' : World} : History T cut w → Prog.Stops T w run w' → cut w' → History T cut w'

/-- No run is stopped between a playlist that is made and its record. -/
def Recorded (w : World) : Prop := w.unremembered = none

theorem inv_stops (hI : Inv start) (hun : start.unremembered = none) (h : Prog.Stops careful start run w) : Inv w :=
  Prog.wp_stops (fun _ _ _ _ hI hg ht => hI.step hg ht.1) (wp_run hI hun) hI h

theorem History.inv (h : History careful Recorded w) : Inv w ∧ w.unremembered = none := by
  induction h with
  | start h => exact ⟨h.inv, h.unremembered⟩
  | between _ hb ih =>
    refine ⟨ih.1.between hb, ?_⟩
    cases hb with
    | switch key enabled => exact ih.2
    | byHand => exact ih.2
  | run _ hs hc ih => exact ⟨inv_stops ih.1 ih.2 hs, hc⟩

/-- Where every playlist that is made is recorded and no list is switched while a run reads
them: wherever a run stops no list has two playlists, and a run that reports no error for a
list leaves its playlist as the list asked when the run began. -/
theorem one_playlist (h : History careful Recorded start) :
    (∀ w, Prog.Stops careful start run w → ∀ key, (w.owned key).length ≤ 1) ∧
      ∀ failed w, Prog.Runs careful start run (.ok failed) w →
        ∀ key row, w.playlists.find key = some row → key ∉ failed → AsAsked start row w := by
  obtain ⟨hI, hun⟩ := h.inv
  exact ⟨fun w hs => (inv_stops hI hun hs).owned_le_one, fun failed w hr => Prog.wp_runs_ok (wp_run hI hun) hr⟩

/-- Nothing stored, nothing made, nothing on the server. -/
def blank : World := ⟨.empty, none, .empty, [], fun _ => none, [], none⟩

theorem blank_start : Start blank := ⟨rfl, rfl, rfl, fun _ h => by cases h⟩

/-! ## Runs in a world that answers -/

/-- A source with one list of one title, and a library that has it. The server gives out two
ids; `fails` is whether the database refuses the record. -/
def answer (fails : Bool) (w : World) : (op : PlaylistOp) → Except PlaylistExn op.Res × World
  | .list => (.ok (w.playlists.rows : List PlaylistRecord), w)
  | .source => (.ok (w.source : Option String), w)
  | .discoverDatabaseName => (.ok ("20240101" : String), w)
  | .downloadDatabase _ => (.ok ([⟨"k7", 7, "Rank", [⟨1, "ABC-001", ""⟩]⟩] : List RankedList), w)
  | .replaceLists lists => (.ok (), w.replaceLists lists)
  | .recordSource name => (.ok (), { w with source := some name })
  | .movieIndex =>
    let index : Index := fun avid => if avid = "ABC-001" then some "10" else none
    (.ok index, { w with indexed := index })
  | .listPlaylists => (.ok (w.server.rows.map (·.toEmbyPlaylist) : List EmbyPlaylist), w)
  | .createPlaylist key name itemIds =>
    let id := if "1" ∈ w.ids then "2" else "1"
    if id ∈ w.ids then (.error (.emby "no id"), w)
    else (.ok (id : String), w.create key ⟨⟨id, name⟩, itemIds.map fun i => ⟨i, i⟩⟩)
  | .playlistEntries id =>
    match w.server.find id with
    | some p => (.ok (p.entries : List EmbyPlaylistEntry), w)
    | none => (.error (.emby "HTTP 404"), w)
  | .removeEntries id entryIds => (.ok (), w.refill id fun entries => entries.filter (·.entryId ∉ entryIds))
  | .addEntries id itemIds => (.ok (), w.refill id fun entries => entries ++ itemIds.map fun i => ⟨i, i⟩)
  | .deletePlaylist id => (.ok (), w.delete id)
  | .recordSync key present missing id =>
    if fails then (.error .database, w) else (.ok (), w.recordSync key present missing id)
  | .recordError key error => (.ok (), w.recordError key error)
  | .checkCancelled => (.ok (), w)

theorem answer_step (fails : Bool) (w : World) (op : PlaylistOp) : Step w op (answer fails w op).1 (answer fails w op).2 := by
  cases op with
  | list => exact .ok [] ⟨.refl _, rfl⟩
  | source | listPlaylists => exact .ok [] ⟨rfl, rfl⟩
  | createPlaylist key name itemIds =>
    unfold answer
    dsimp only
    generalize (if "1" ∈ w.ids then "2" else "1") = id
    split
    · exact .failed [] ⟨_, rfl⟩
    · rename_i h
      exact .ok [] ⟨h, _, by simp [Function.comp_def], rfl⟩
  | playlistEntries id =>
    unfold answer
    dsimp only
    split
    · rename_i p hp
      exact .ok [] ⟨p, hp, rfl, rfl⟩
    · exact .failed [] ⟨_, rfl⟩
  | addEntries id itemIds => exact .ok [] ⟨_, by simp [Function.comp_def], rfl⟩
  | recordSync =>
    cases fails with
    | true => exact .failed [] rfl
    | false => exact .ok [] rfl
  | _ => exact .ok [] rfl

/-- What `careful` asks of the calls of such a run. -/
def answersCarefully (w : World) : PlaylistOp → Bool
  | .replaceLists _ => w.playlists.rows = [] ∧ w.unremembered = none
  | .recordSync .. => true
  | _ => w.unremembered = none

theorem answer_careful {w : World} {op : PlaylistOp} (h : answersCarefully w op = true) :
    careful w op (answer false w op).1 (answer false w op).2 := by
  refine ⟨answer_step false w op, ?_, ?_, ?_⟩
  · intro e he
    cases op with
    | createPlaylist key name itemIds =>
      revert he
      unfold answer
      dsimp only
      generalize (if "1" ∈ w.ids then "2" else "1") = id
      split
      · exact fun _ => rfl
      · exact fun he => nomatch he
    | playlistEntries id =>
      unfold answer
      dsimp only
      split <;> rfl
    | _ => rfl
  · intro hun
    cases op with
    | recordSync => exact ⟨_, rfl⟩
    | replaceLists => exact absurd (of_decide_eq_true h).2 hun
    | _ => exact absurd (of_decide_eq_true h) hun
  · intro hop key row hrow
    cases op with
    | replaceLists =>
      obtain ⟨hrow, -⟩ := Table.find_eq_some.1 hrow
      exact absurd hrow (by simp [(of_decide_eq_true h).1])
    | list | source | discoverDatabaseName | downloadDatabase | recordSource => exact ⟨row, hrow, rfl⟩
    | _ => cases hop

/-- After a first run that made the playlist of a list and recorded it. -/
def filled : World := (Prog.exec (answer false) blank run).2

theorem filled_runs : Prog.Runs careful blank run (Prog.exec (answer false) blank run).1 filled :=
  Prog.exec_runs_of_checked (fun _ _ => answer_careful) (by decide)

theorem filled_recorded : Recorded filled := show filled.unremembered = none by decide

/-- The theorem after that run, when the list is switched off. -/
theorem one_playlist_filled :
    ((filled.setEnabled "k7" false).owned "k7").map (·.items) = [["10"]] ∧
      (∀ w, Prog.Stops careful (filled.setEnabled "k7" false) run w → ∀ key, (w.owned key).length ≤ 1) ∧
        ∀ failed w, Prog.Runs careful (filled.setEnabled "k7" false) run (.ok failed) w →
          ∀ key row, w.playlists.find key = some row → key ∉ failed → AsAsked (filled.setEnabled "k7" false) row w :=
  ⟨by decide, one_playlist (.between (.run (.start blank_start) filled_runs.stops filled_recorded) (.switch filled "k7" false))⟩

/-- The database refuses the record of the playlist that was made; the next run makes another. -/
theorem forgotten_playlist_made_twice :
    ¬ ∀ start, History Step (fun _ => True) start → ∀ w, Prog.Stops Step start run w → ∀ key, (w.owned key).length ≤ 1 := by
  intro h
  have hfirst := (Prog.exec_runs (answer_step true) blank run).stops
  have hsecond := (Prog.exec_runs (answer_step false) (Prog.exec (answer true) blank run).2 run).stops
  have hle := h _ (.run (.start blank_start) hfirst trivial) _ hsecond "k7"
  revert hle
  decide

end EmbyxManager.Playlists
