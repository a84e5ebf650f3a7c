import EmbyxManager.Monitor.Playlists
/-!
# One playlist per list

The playlist is made at the server and remembered in the database, by two calls. As long as
no failure and no stop falls between the two, what the database remembers for a list is the
only playlist the pipeline has made for it, and a run leaves it as the list asks.
-/

namespace EmbyxManager.Playlists

open Atom

namespace World

/-- What the pipeline reads of a row besides its switch. -/
def link (w : World) (key : String) : Option (Option String × List RankedEntry) :=
  (w.playlists.find key).map fun r => (r.embyPlaylistId, r.entries)

/-- The playlist the database has for a list. -/
def remembered (w : World) (key : String) : Option String := (w.playlists.find key).bind (·.embyPlaylistId)

theorem remembered_eq (w : World) (key : String) : w.remembered key = (w.link key).bind (·.1) := by
  unfold remembered link
  cases w.playlists.find key <;> rfl

theorem mem_owned {w : World} {key : String} {p : ServerPlaylist} :
    p ∈ w.owned key ↔ p ∈ w.server.rows ∧ (p.playlistId, key) ∈ w.made := by
  simp [owned]

end World

/-! ## Changes that matter to no playlist -/

/-- Only switches, errors and statistics differ. -/
structure Quiet (w w' : World) : Prop where
  server : w'.server = w.server
  ids : w'.ids = w.ids
  made : w'.made = w.made
  unremembered : w'.unremembered = w.unremembered
  indexed : w'.indexed = w.indexed
  link : ∀ key, w'.link key = w.link key

theorem Quiet.refl (w : World) : Quiet w w := ⟨rfl, rfl, rfl, rfl, rfl, fun _ => rfl⟩

theorem Quiet.trans {w w' w'' : World} (h : Quiet w w') (h' : Quiet w' w'') : Quiet w w'' where
  server := h'.server.trans h.server
  ids := h'.ids.trans h.ids
  made := h'.made.trans h.made
  unremembered := h'.unremembered.trans h.unremembered
  indexed := h'.indexed.trans h.indexed
  link key := (h'.link key).trans (h.link key)

theorem Quiet.owned {w w' : World} (h : Quiet w w') (key : String) : w'.owned key = w.owned key := by
  unfold World.owned
  rw [h.server, h.made]

theorem Quiet.remembered {w w' : World} (h : Quiet w w') (key : String) : w'.remembered key = w.remembered key := by
  rw [World.remembered_eq, World.remembered_eq, h.link]

/-- An `UPDATE` of columns the pipeline does not read. -/
theorem quiet_modify (w : World) (key : String) (f : PlaylistRecord → PlaylistRecord) (hf : ∀ r, (f r).key = r.key)
    (hid : ∀ r, (f r).embyPlaylistId = r.embyPlaylistId) (he : ∀ r, (f r).entries = r.entries) :
    Quiet w { w with playlists := w.playlists.modify key (fun _ => true) f hf } := by
  refine ⟨rfl, rfl, rfl, rfl, rfl, fun key' => ?_⟩
  simp only [World.link, Table.find_modify, Option.map_map]
  congr 1
  funext r
  by_cases h : key' = key <;> simp [h, hid, he]

theorem setEnabled_quiet (w : World) (key : String) (enabled : Bool) : Quiet w (w.setEnabled key enabled) :=
  quiet_modify w key _ _ (fun _ => rfl) fun _ => rfl

theorem setAll_quiet (w : World) (switches : List (String × Bool)) : Quiet w (w.setAll switches) := by
  induction switches generalizing w with
  | nil => exact .refl w
  | cons s switches ih => exact (setEnabled_quiet w s.1 s.2).trans (ih _)

/-- The calls that only read, or write what no playlist depends on. -/
def PlaylistOp.quiet : PlaylistOp → Bool
  | list | source | discoverDatabaseName | downloadDatabase _ | recordSource _ | listPlaylists | playlistEntries _
  | recordError .. | checkCancelled => true
  | _ => false

theorem World.Does.quiet {w w' : World} {op : PlaylistOp} {a : op.Res} (hop : op.quiet = true) (h : w.Does op a w') :
    Quiet w w' := by
  cases op with
  | list | source | listPlaylists =>
    obtain ⟨-, rfl⟩ := h
    exact .refl _
  | discoverDatabaseName | downloadDatabase | checkCancelled =>
    obtain rfl := h
    exact .refl _
  | recordSource =>
    obtain rfl := h
    exact ⟨rfl, rfl, rfl, rfl, rfl, fun _ => rfl⟩
  | playlistEntries =>
    obtain ⟨_, -, -, rfl⟩ := h
    exact .refl _
  | recordError =>
    obtain rfl := h
    exact quiet_modify w _ _ _ (fun _ => rfl) fun _ => rfl
  | _ => cases hop

theorem Step.quiet {w w' : World} {op : PlaylistOp} {r : Except PlaylistExn op.Res} (hop : op.quiet = true)
    (h : Step w op r w') : Quiet w w' := by
  cases h with
  | ok switches h => exact (setAll_quiet w switches).trans (h.quiet hop)
  | failed switches => exact setAll_quiet w switches
  | lost switches _ h => exact (setAll_quiet w switches).trans (h.quiet hop)

/-! ## The invariant -/

/-- What the pipeline made for a list is what the database remembers, or is not recorded yet. -/
structure Inv (w : World) : Prop where
  used : ∀ p ∈ w.server.rows, p.playlistId ∈ w.ids
  madeUsed : ∀ m ∈ w.made, m.1 ∈ w.ids
  one : ∀ {id key key'}, (id, key) ∈ w.made → (id, key') ∈ w.made → key = key'
  linked : ∀ {key id}, w.remembered key = some id → (id, key) ∈ w.made
  known : ∀ {key p}, p ∈ w.owned key →
    w.unremembered = some (key, p.playlistId) ∨ w.remembered key = some p.playlistId
  alone : ∀ {key id}, w.unremembered = some (key, id) → ∀ p ∈ w.owned key, p.playlistId = id

/-- No new playlist, and the same links. -/
theorem Inv.of_fewer {w w' : World} (h : Inv w) (hmade : w'.made = w.made) (hun : w'.unremembered = w.unremembered)
    (hrem : ∀ key, w'.remembered key = w.remembered key) (hids : w.ids ⊆ w'.ids)
    (hused : ∀ p ∈ w'.server.rows, p.playlistId ∈ w'.ids)
    (hserver : ∀ p ∈ w'.server.rows, p.playlistId ∈ w.ids → ∃ q ∈ w.server.rows, q.playlistId = p.playlistId) :
    Inv w' := by
  have hold : ∀ {key p}, p ∈ w'.owned key → ∃ q ∈ w.owned key, q.playlistId = p.playlistId := by
    intro key p hp
    obtain ⟨hp, hm⟩ := World.mem_owned.1 hp
    rw [hmade] at hm
    obtain ⟨q, hq, hid⟩ := hserver p hp (h.madeUsed _ hm)
    exact ⟨q, World.mem_owned.2 ⟨hq, hid ▸ hm⟩, hid⟩
  refine ⟨hused, fun m hm => hids (h.madeUsed m (hmade ▸ hm)), ?_, ?_, ?_, ?_⟩
  · intro id key key' hk hk'
    rw [hmade] at hk hk'
    exact h.one hk hk'
  · intro key id hid
    rw [hmade]
    exact h.linked (hrem key ▸ hid)
  · intro key p hp
    obtain ⟨q, hq, hid⟩ := hold hp
    rw [hun, hrem, ← hid]
    exact h.known hq
  · intro key id hu p hp
    obtain ⟨q, hq, hid⟩ := hold hp
    exact hid ▸ h.alone (hun ▸ hu) q hq

theorem Inv.of_quiet {w w' : World} (h : Inv w) (hq : Quiet w w') : Inv w' := by
  refine h.of_fewer hq.made hq.unremembered hq.remembered ?_ ?_ ?_
  · rw [hq.ids]
    exact fun _ h => h
  · rw [hq.server, hq.ids]
    exact h.used
  · rw [hq.server]
    exact fun p hp _ => ⟨p, hp, rfl⟩

/-- With the invariant no list has two playlists. -/
theorem Inv.owned_le_one {w : World} (h : Inv w) (key : String) : (w.owned key).length ≤ 1 := by
  have hsame : ∃ id, ∀ p ∈ w.owned key, p.playlistId = id := by
    by_cases hu : ∃ id, w.unremembered = some (key, id)
    · obtain ⟨id, hu⟩ := hu
      exact ⟨id, h.alone hu⟩
    · refine ⟨(w.remembered key).getD "", fun p hp => ?_⟩
      rcases h.known hp with hk | hk
      · exact absurd ⟨_, hk⟩ hu
      · rw [hk]
        rfl
  obtain ⟨id, hsame⟩ := hsame
  have hnodup : ((w.owned key).map (·.playlistId)).Nodup := w.server.nodup.sublist (List.filter_sublist.map _)
  match ho : w.owned key with
  | [] | [_] => simp
  | p :: q :: rest =>
    rw [ho] at hnodup hsame
    simp [hsame p (by simp), hsame q (by simp)] at hnodup

/-! ## What the other calls write -/

/-- A download changes no link and no switch; a new list starts enabled. -/
theorem find_upsert (t : Table PlaylistRecord String (·.key)) (l : RankedList) (key : String) :
    (∃ r, (World.upsert t l).find key = some r ∧ t.find key = none ∧ r.enabled = true ∧ r.embyPlaylistId = none) ∨
      ((World.upsert t l).find key).map (fun r => (r.enabled, r.embyPlaylistId)) =
        (t.find key).map fun r => (r.enabled, r.embyPlaylistId) := by
  unfold World.upsert
  cases hl : t.find l.key with
  | none =>
    by_cases hk : l.key = key
    · subst hk
      exact .inl ⟨_, (Table.find_put ..).trans (if_pos rfl), hl, rfl, rfl⟩
    · exact .inr (by simp [Table.find_put, hk])
  | some r =>
    by_cases hk : l.key = key
    · subst hk
      exact .inr (by simp [Table.find_put, hl])
    · exact .inr (by simp [Table.find_put, hk])

theorem find_replaceLists (w : World) (lists : List RankedList) (key : String) :
    (∃ r, (w.replaceLists lists).playlists.find key = some r ∧ w.playlists.find key = none ∧ r.enabled = true ∧
        r.embyPlaylistId = none) ∨
      ((w.replaceLists lists).playlists.find key).map (fun r => (r.enabled, r.embyPlaylistId)) =
        (w.playlists.find key).map fun r => (r.enabled, r.embyPlaylistId) := by
  have hfold : ∀ (ls : List RankedList) (t : Table PlaylistRecord String (·.key)),
      (∃ r, (ls.foldl World.upsert t).find key = some r ∧ t.find key = none ∧ r.enabled = true ∧ r.embyPlaylistId = none) ∨
        ((ls.foldl World.upsert t).find key).map (fun r => (r.enabled, r.embyPlaylistId)) =
          (t.find key).map fun r => (r.enabled, r.embyPlaylistId) := by
    intro ls
    induction ls with
    | nil => exact fun t => .inr rfl
    | cons l ls ih =>
      intro t
      rw [List.foldl_cons]
      rcases ih (World.upsert t l) with ⟨r, hr, hn, he, hi⟩ | h
      · rcases find_upsert t l key with ⟨r', hr', -⟩ | h'
        · exact absurd (hr'.symm.trans hn) (by simp)
        · rw [hn, Option.map_none] at h'
          exact .inl ⟨r, hr, Option.map_eq_none_iff.1 h'.symm, he, hi⟩
      · rcases find_upsert t l key with ⟨r', hr', hn, he, hi⟩ | h'
        · rw [hr', Option.map_some, Option.map_eq_some_iff] at h
          obtain ⟨r, hr, h⟩ := h
          simp only [Prod.mk.injEq] at h
          exact .inl ⟨r, hr, hn, h.1.trans he, h.2.trans hi⟩
        · exact .inr (h.trans h')
  -- marking the lists that are gone touches neither the switch nor the link
  have hmark : ((w.replaceLists lists).playlists.find key).map (fun r => (r.enabled, r.embyPlaylistId)) =
      ((lists.foldl World.upsert w.playlists).find key).map fun r => (r.enabled, r.embyPlaylistId) := by
    simp only [World.replaceLists, Table.find_update, Option.map_map]
    congr 1
    funext r
    simp only [Function.comp]
    split <;> rfl
  rcases hfold lists w.playlists with ⟨r, hr, hn, he, hi⟩ | h
  · rw [hr, Option.map_some, Option.map_eq_some_iff] at hmark
    obtain ⟨r', hr', h'⟩ := hmark
    simp only [Prod.mk.injEq] at h'
    exact .inl ⟨r', hr', hn, h'.1.trans he, h'.2.trans hi⟩
  · exact .inr (hmark.trans h)

theorem remembered_replaceLists (w : World) (lists : List RankedList) (key : String) :
    (w.replaceLists lists).remembered key = w.remembered key := by
  unfold World.remembered
  rcases find_replaceLists w lists key with ⟨r, hr, hn, -, hi⟩ | h
  · rw [hr, hn]
    exact hi
  · have := congrArg (fun o : Option (Bool × Option String) => o.bind (·.2)) h
    simpa [Option.bind_map, Function.comp_def] using this

theorem mem_refill {w : World} {id : String} {f : List EmbyPlaylistEntry → List EmbyPlaylistEntry} {p : ServerPlaylist}
    (hp : p ∈ (w.refill id f).server.rows) : ∃ q ∈ w.server.rows, q.playlistId = p.playlistId ∧
      p = if q.playlistId = id then { q with entries := f q.entries } else q := by
  obtain ⟨q, hq, rfl⟩ := List.mem_map.1 hp
  refine ⟨q, hq, ?_, ?_⟩
  · split <;> rfl
  · simp

theorem mem_delete {w : World} {id : String} {p : ServerPlaylist} :
    p ∈ (w.delete id).server.rows ↔ p ∈ w.server.rows ∧ p.playlistId ≠ id := by
  simp [World.delete, Table.keep]

theorem mem_create {w : World} {key : String} {p q : ServerPlaylist} (h : Inv w) (hp : p.playlistId ∉ w.ids) :
    q ∈ (w.create key p).server.rows ↔ q ∈ w.server.rows ∨ q = p := by
  have hnone : w.server.find p.playlistId = none :=
    Table.find_eq_none.2 fun r hr hid => hp (hid ▸ h.used r hr)
  simp [World.create, Table.put_rows_of_none hnone]

theorem link_recordSync (w : World) (key : String) (present missing : List String) (id : Option String) (key' : String) :
    (w.recordSync key present missing id).link key' =
      (w.link key').map fun l => if key' = key then (id, l.2) else l := by
  simp only [World.link, World.recordSync, Table.find_modify, Option.map_map]
  congr 1
  funext r
  by_cases h : key' = key <;> simp [h]

/-! ## Every call keeps the invariant -/

/-- What the pipeline knows when it makes a call. -/
def Guard (w : World) : PlaylistOp → Prop
  | .createPlaylist key .. => w.owned key = [] ∧ w.unremembered = none
  | .recordSync key _ _ id =>
    (w.link key).isSome = true ∧ (∀ i, id = some i → (i, key) ∈ w.made) ∧
      (∀ p ∈ w.owned key, id = some p.playlistId) ∧ ∀ m, w.unremembered = some m → m.1 = key ∧ id = some m.2
  | _ => True

theorem Guard.of_quiet {w w' : World} {op : PlaylistOp} (h : Guard w op) (hq : Quiet w w') : Guard w' op := by
  cases op with
  | createPlaylist => exact ⟨(hq.owned _).trans h.1, hq.unremembered.trans h.2⟩
  | recordSync =>
    obtain ⟨hl, hm, ho, hu⟩ := h
    refine ⟨?_, ?_, ?_, ?_⟩
    · rw [hq.link]
      exact hl
    · rw [hq.made]
      exact hm
    · rw [hq.owned]
      exact ho
    · rw [hq.unremembered]
      exact hu
  | _ => trivial

theorem Inv.create {w : World} {key : String} {p : ServerPlaylist} (h : Inv w) (hp : p.playlistId ∉ w.ids)
    (hown : w.owned key = []) (hun : w.unremembered = none) : Inv (w.create key p) := by
  have hmade : ∀ k, (p.playlistId, k) ∉ w.made := fun k hk => hp (h.madeUsed _ hk)
  have hserver : ∀ q ∈ (w.create key p).server.rows, q ∈ w.server.rows ∨ q = p := fun q => (mem_create h hp).1
  have hmem : ∀ m ∈ (w.create key p).made, m = (p.playlistId, key) ∨ m ∈ w.made := fun m => List.mem_cons.1
  refine ⟨?_, ?_, ?_, ?_, ?_, ?_⟩
  · intro q hq
    rcases hserver q hq with hq | rfl
    · exact List.mem_cons_of_mem _ (h.used q hq)
    · exact List.mem_cons_self
  · intro m hm
    rcases hmem m hm with rfl | hm
    · exact List.mem_cons_self
    · exact List.mem_cons_of_mem _ (h.madeUsed m hm)
  · -- the new id was on no row before, so it is nobody else's
    intro id k k' hk hk'
    rcases hmem _ hk with hk | hk <;> rcases hmem _ hk' with hk' | hk'
    · simp_all
    · exact absurd ((Prod.mk.inj hk).1 ▸ hk') (hmade k')
    · exact absurd ((Prod.mk.inj hk').1 ▸ hk) (hmade k)
    · exact h.one hk hk'
  · exact fun hid => List.mem_cons_of_mem _ (h.linked hid)
  · intro k q hq
    obtain ⟨hq, hm⟩ := World.mem_owned.1 hq
    rcases hmem _ hm with hm' | hm'
    · obtain ⟨hid, rfl⟩ := Prod.mk.inj hm'
      exact .inl (by rw [hid]; rfl)
    · rcases hserver q hq with hq' | rfl
      · rcases h.known (World.mem_owned.2 ⟨hq', hm'⟩) with hk | hk
        · exact absurd (hun.symm.trans hk) (by simp)
        · exact .inr hk
      · exact absurd hm' (hmade k)
  · intro k id hu q hq
    obtain ⟨rfl, rfl⟩ := Prod.mk.inj (Option.some.inj hu)
    obtain ⟨hq, hm⟩ := World.mem_owned.1 hq
    rcases hmem _ hm with hm | hm
    · exact (Prod.mk.inj hm).1
    · rcases hserver q hq with hq | rfl
      · have : q ∈ w.owned key := World.mem_owned.2 ⟨hq, hm⟩
        rw [hown] at this
        cases this
      · rfl

theorem Inv.recordSync {w : World} {key : String} {present missing : List String} {id : Option String} (h : Inv w)
    (hg : Guard w (.recordSync key present missing id)) : Inv (w.recordSync key present missing id) := by
  obtain ⟨hl, hm, ho, hu⟩ := hg
  -- recording is what remembers a playlist made, so nothing is left unremembered
  have hun : (w.recordSync key present missing id).unremembered = none := by
    simp only [World.recordSync, Option.filter_eq_none_iff]
    intro m hm
    simpa using hu m hm
  have hrem : ∀ k, (w.recordSync key present missing id).remembered k = if k = key then id else w.remembered k := by
    intro k
    rw [World.remembered_eq, link_recordSync, World.remembered_eq]
    by_cases hk : k = key
    · obtain ⟨l, hl⟩ := Option.isSome_iff_exists.1 hl
      simp [hk, hl]
    · cases w.link k <;> simp [hk]
  refine ⟨h.used, h.madeUsed, h.one, ?_, ?_, ?_⟩
  · intro k i hi
    rw [hrem] at hi
    by_cases hk : k = key
    · rw [if_pos hk] at hi
      exact hk ▸ hm i hi
    · rw [if_neg hk] at hi
      exact h.linked hi
  · intro k p hp
    right
    rw [hrem]
    by_cases hk : k = key
    · rw [if_pos hk]
      exact ho p (hk ▸ hp)
    · rw [if_neg hk]
      rcases h.known (p := p) hp with hk' | hk'
      · exact absurd (hu _ hk').1 hk
      · exact hk'
  · intro k i hi
    rw [hun] at hi
    cases hi

theorem Inv.refill {w : World} (h : Inv w) (id : String) (f : List EmbyPlaylistEntry → List EmbyPlaylistEntry) :
    Inv (w.refill id f) := by
  refine h.of_fewer rfl rfl (fun _ => rfl) (fun _ h => h) ?_ ?_
  · intro p hp
    obtain ⟨q, hq, hid, -⟩ := mem_refill hp
    exact hid ▸ h.used q hq
  · intro p hp _
    obtain ⟨q, hq, hid, -⟩ := mem_refill hp
    exact ⟨q, hq, hid⟩

theorem Inv.does {w w' : World} {op : PlaylistOp} {a : op.Res} (h : Inv w) (hg : Guard w op) (hd : w.Does op a w') :
    Inv w' := by
  by_cases hq : op.quiet = true
  · exact h.of_quiet (hd.quiet hq)
  have hsub : ∀ w : World, w.ids ⊆ w.ids := fun w _ h => h
  cases op with
  | replaceLists lists =>
    obtain rfl := hd
    exact h.of_fewer rfl rfl (remembered_replaceLists _ lists) (hsub _) h.used fun p hp _ => ⟨p, hp, rfl⟩
  | movieIndex =>
    obtain rfl := hd
    exact h.of_fewer rfl rfl (fun _ => rfl) (hsub _) h.used fun p hp _ => ⟨p, hp, rfl⟩
  | createPlaylist key name itemIds =>
    obtain ⟨hid, entries, -, rfl⟩ := hd
    exact h.create hid hg.1 hg.2
  | removeEntries =>
    obtain rfl := hd
    exact h.refill _ _
  | addEntries =>
    obtain ⟨added, -, rfl⟩ := hd
    exact h.refill _ _
  | deletePlaylist id =>
    obtain rfl := hd
    refine h.of_fewer rfl rfl (fun _ => rfl) (hsub _) ?_ ?_
    · exact fun p hp => h.used p (mem_delete.1 hp).1
    · exact fun p hp _ => ⟨p, (mem_delete.1 hp).1, rfl⟩
  | recordSync =>
    obtain rfl := hd
    exact h.recordSync hg
  | _ => exact absurd rfl hq

theorem Inv.step {w w' : World} {op : PlaylistOp} {r : Except PlaylistExn op.Res} (h : Inv w) (hg : Guard w op)
    (hs : Step w op r w') : Inv w' := by
  cases hs with
  | ok switches hd => exact (h.of_quiet (setAll_quiet w switches)).does (hg.of_quiet (setAll_quiet w switches)) hd
  | failed switches => exact h.of_quiet (setAll_quiet w switches)
  | lost switches _ hd => exact (h.of_quiet (setAll_quiet w switches)).does (hg.of_quiet (setAll_quiet w switches)) hd

theorem Inv.between {w w' : World} (h : Inv w) (hb : Between w w') : Inv w' := by
  cases hb with
  | switch key enabled => exact h.of_quiet (setEnabled_quiet w key enabled)
  | byHand server ids hids hused hserver =>
    refine h.of_fewer rfl rfl (fun _ => rfl) hids hused fun p hp hid => ?_
    obtain ⟨q, hq⟩ := hserver p hp hid
    obtain ⟨hq, hk⟩ := Table.find_eq_some.1 hq
    exact ⟨q, hq, hk⟩

theorem Start.inv {w : World} (h : Start w) : Inv w := by
  have hno : ∀ m, m ∉ w.made := by
    rw [h.made]
    exact fun m hm => by cases hm
  refine ⟨h.ids, fun m hm => absurd hm (hno m), fun hk => absurd hk (hno _), ?_, ?_, ?_⟩
  · intro key id hid
    simp [World.remembered, Table.find, h.playlists] at hid
  · exact fun hp => absurd (World.mem_owned.1 hp).2 (hno _)
  · intro key id hu
    rw [h.unremembered] at hu
    cases hu

/-! ## What a call for one list leaves of the others -/

/-- Nothing differs but what is the list's own. -/
structure Frame (key : String) (w w' : World) : Prop where
  link : ∀ key' ≠ key, w'.link key' = w.link key'
  owned : ∀ key' ≠ key, ∀ p, p ∈ w'.owned key' ↔ p ∈ w.owned key'
  made : ∀ key' ≠ key, ∀ id, (id, key') ∈ w'.made ↔ (id, key') ∈ w.made
  indexed : w'.indexed = w.indexed

theorem Frame.refl (key : String) (w : World) : Frame key w w :=
  ⟨fun _ _ => rfl, fun _ _ _ => .rfl, fun _ _ _ => .rfl, rfl⟩

theorem Frame.trans {key : String} {w w' w'' : World} (h : Frame key w w') (h' : Frame key w' w'') : Frame key w w'' where
  link k hk := (h'.link k hk).trans (h.link k hk)
  owned k hk p := (h'.owned k hk p).trans (h.owned k hk p)
  made k hk id := (h'.made k hk id).trans (h.made k hk id)
  indexed := h'.indexed.trans h.indexed

theorem Frame.of_quiet {w w' : World} (key : String) (h : Quiet w w') : Frame key w w' := by
  refine ⟨fun k _ => h.link k, fun k _ p => ?_, fun k _ id => ?_, h.indexed⟩
  · rw [h.owned]
  · rw [h.made]

/-- The calls of a round are about the round's list. -/
def About (key : String) (w : World) : PlaylistOp → Prop
  | .createPlaylist key' .. | .recordSync key' .. | .recordError key' _ => key' = key
  | .playlistEntries id | .removeEntries id _ | .addEntries id _ | .deletePlaylist id => (id, key) ∈ w.made
  | .checkCancelled => True
  | _ => False

theorem About.of_quiet {key : String} {w w' : World} {op : PlaylistOp} (h : About key w op) (hq : Quiet w w') :
    About key w' op := by
  cases op with
  | playlistEntries | removeEntries | addEntries | deletePlaylist =>
    unfold About
    rw [hq.made]
    exact h
  | _ => exact h

theorem frame_refill {key id : String} {w : World} (h : Inv w) (hid : (id, key) ∈ w.made)
    (f : List EmbyPlaylistEntry → List EmbyPlaylistEntry) : Frame key w (w.refill id f) := by
  refine ⟨fun _ _ => rfl, fun k hk p => ?_, fun _ _ _ => .rfl, rfl⟩
  have hne : ∀ q : ServerPlaylist, (q.playlistId, k) ∈ w.made → q.playlistId ≠ id := fun q hq he => hk (h.one (he ▸ hq) hid)
  constructor
  · intro hp
    obtain ⟨hp, hm⟩ := World.mem_owned.1 hp
    obtain ⟨q, hq, hqp, hf⟩ := mem_refill hp
    rw [if_neg (hqp ▸ hne p hm)] at hf
    exact World.mem_owned.2 ⟨hf ▸ hq, hm⟩
  · intro hp
    obtain ⟨hp, hm⟩ := World.mem_owned.1 hp
    refine World.mem_owned.2 ⟨List.mem_map.2 ⟨p, hp, ?_⟩, hm⟩
    simp [hne p hm]

theorem frame_delete {key id : String} {w : World} (h : Inv w) (hid : (id, key) ∈ w.made) : Frame key w (w.delete id) := by
  refine ⟨fun _ _ => rfl, fun k hk p => ?_, fun _ _ _ => .rfl, rfl⟩
  rw [World.mem_owned, World.mem_owned, mem_delete]
  exact ⟨fun h => ⟨h.1.1, h.2⟩, fun hp => ⟨⟨hp.1, fun he => hk (h.one (he ▸ hp.2) hid)⟩, hp.2⟩⟩

theorem frame_create {key : String} {w : World} {p : ServerPlaylist} (h : Inv w) (hp : p.playlistId ∉ w.ids) :
    Frame key w (w.create key p) := by
  have hmade : ∀ k ≠ key, ∀ id, (id, k) ∈ (w.create key p).made ↔ (id, k) ∈ w.made := by
    intro k hk id
    simp [World.create, hk]
  refine ⟨fun _ _ => rfl, fun k hk q => ?_, hmade, rfl⟩
  rw [World.mem_owned, World.mem_owned, hmade k hk, mem_create h hp]
  refine and_congr_left fun hm => ⟨fun hq => ?_, .inl⟩
  rcases hq with hq | rfl
  · exact hq
  · exact absurd (h.madeUsed _ hm) hp

theorem frame_recordSync (w : World) (key : String) (present missing : List String) (id : Option String) :
    Frame key w (w.recordSync key present missing id) := by
  refine ⟨fun k hk => ?_, fun _ _ _ => .rfl, fun _ _ _ => .rfl, rfl⟩
  rw [link_recordSync]
  cases w.link k <;> simp [hk]

theorem frame_does {key : String} {w w' : World} {op : PlaylistOp} {a : op.Res} (h : Inv w) (hop : About key w op)
    (hd : w.Does op a w') : Frame key w w' := by
  by_cases hq : op.quiet = true
  · exact .of_quiet key (hd.quiet hq)
  cases op with
  | createPlaylist =>
    obtain ⟨hid, entries, -, rfl⟩ := hd
    obtain rfl := hop
    exact frame_create h hid
  | removeEntries =>
    obtain rfl := hd
    exact frame_refill h hop _
  | addEntries =>
    obtain ⟨added, -, rfl⟩ := hd
    exact frame_refill h hop _
  | deletePlaylist =>
    obtain rfl := hd
    exact frame_delete h hop
  | recordSync =>
    obtain rfl := hd
    obtain rfl := hop
    exact frame_recordSync ..
  | replaceLists | movieIndex => cases hop
  | _ => exact absurd rfl hq

theorem frame_step {key : String} {w w' : World} {op : PlaylistOp} {r : Except PlaylistExn op.Res} (h : Inv w)
    (hop : About key w op) (hs : Step w op r w') : Frame key w w' := by
  cases hs with
  | ok switches hd =>
    have hq := setAll_quiet w switches
    exact (Frame.of_quiet key hq).trans (frame_does (h.of_quiet hq) (hop.of_quiet hq) hd)
  | failed switches => exact .of_quiet key (setAll_quiet w switches)
  | lost switches _ hd =>
    have hq := setAll_quiet w switches
    exact (Frame.of_quiet key hq).trans (frame_does (h.of_quiet hq) (hop.of_quiet hq) hd)

end EmbyxManager.Playlists
