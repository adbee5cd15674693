import Attestia.Registrum.Consistency
import Attestia.Registrum.VersionHistory

/-!
# What a rehydration restores

A restored registrar holds one version for each state id of the snapshot, under the parent
and the order index that the snapshot gives it.
-/

namespace Attestia.Registrum

open Lib JsonNumber

/-! ## The restored entries -/

namespace RegistrarSnapshotV1

/-- The entry of a state id, where both records have one. -/
def entry (s : RegistrarSnapshotV1) (id : StateID) : Option RehydratedStateEntry :=
  match s.lineage.read id, s.assigned.read id with
  | some parentId, some orderIndex => some ⟨id, parentId, orderIndex⟩
  | _, _ => none

end RegistrarSnapshotV1

theorem reconstructEntries_eq_ok {s : RegistrarSnapshotV1} {ids : List StateID}
    (h : ∀ id ∈ ids, (s.entry id).isSome) (m : JsMap StateID RehydratedStateEntry) :
    ∃ m', reconstructEntries s m ids = .ok m' ∧
      ∀ id, m'.get? id = if id ∈ ids then s.entry id else m.get? id := by
  induction ids generalizing m with
  | nil => exact ⟨m, rfl, fun id => by simp⟩
  | cons id ids ih =>
    obtain ⟨e, he⟩ := Option.isSome_iff_exists.mp (h id (.head _))
    obtain ⟨m', hm', hget⟩ := ih (fun i hi => h i (.tail _ hi)) (m.set id e)
    refine ⟨m', ?_, fun i => ?_⟩
    · rw [RegistrarSnapshotV1.entry] at he
      rw [reconstructEntries]
      split at he
      · rename_i hp ho
        cases he
        rw [hp, ho]
        exact hm'
      · cases he
    · rw [hget, JsMap.get?_set]
      by_cases hi : i ∈ ids
      · simp [hi]
      · by_cases heq : id = i
        · subst heq
          simp [he, hi]
        · have heq' : ¬ i = id := fun h => heq h.symm
          simp [hi, heq, heq']

/-- What a rehydration that succeeds has read and made. -/
structure Rehydrates (raw : RawSnapshot) (options : RehydrationOptions) (s : RegistrarSnapshotV1)
    (state : RehydratedState) : Prop where
  valid : validateSnapshot raw = .ok s
  version : s.version = SNAPSHOT_VERSION
  mode : s.mode = options.mode
  hash : computeExpectedHash options = .ok s.registryHash
  entry (id : StateID) : state.registry.get? id = if id ∈ s.stateIds then s.entry id else none
  cursor : state.currentOrderIndex = roundDouble (s.maxIndex + 1)

theorem version_of_validateVersion {value : Option Json} {version : JsString}
    (h : validateVersion value = .ok version) : version = SNAPSHOT_VERSION := by
  unfold validateVersion at h
  split at h
  · split at h
    · rename_i hmem
      cases h
      exact List.mem_singleton.mp hmem
    · cases h
  · cases h

theorem Consistent.entry {s : RegistrarSnapshotV1}
    (h : Consistent s.stateIds s.lineage s.maxIndex s.assigned) {id : StateID}
    (hid : id ∈ s.stateIds) : (s.entry id).isSome := by
  obtain ⟨p, hp⟩ := Option.isSome_iff_exists.mp (h.has_lineage id hid)
  obtain ⟨n, hn⟩ := Option.isSome_iff_exists.mp (h.has_order id hid)
  rw [RegistrarSnapshotV1.entry, hp, hn]
  rfl

/-- A valid snapshot of the same mode and constitution is rehydrated. -/
theorem rehydrate_of_valid {raw : RawSnapshot} {options : RehydrationOptions}
    {s : RegistrarSnapshotV1} (hvalid : validateSnapshot raw = .ok s) (hmode : s.mode = options.mode)
    (hhash : computeExpectedHash options = .ok s.registryHash) :
    ∃ state, rehydrate raw options = .ok state ∧ Rehydrates raw options s state := by
  obtain ⟨l, o, a, hschema⟩ := validateSnapshot_eq_ok.mp hvalid
  have hversion := version_of_validateVersion hschema.version
  obtain ⟨registry, hregistry, hget⟩ := reconstructEntries_eq_ok
    (fun id hid => hschema.consistent.entry hid) .empty
  refine ⟨⟨registry, roundDouble (s.maxIndex + 1)⟩, ?_, hvalid, hversion, hmode, hhash, hget, rfl⟩
  rw [rehydrate, hvalid]
  simp only [Except.mapError, migrateToLatest, if_pos hversion, bind, Except.bind, hmode, ne_eq,
    not_true_eq_false, if_false, hhash]
  rw [reconstructState, hregistry]
  rfl

theorem Rehydrates.of_eq_ok {raw : RawSnapshot} {options : RehydrationOptions}
    {state : RehydratedState} (h : rehydrate raw options = .ok state) :
    ∃ s, Rehydrates raw options s state := by
  have hok := h
  rw [rehydrate] at h
  obtain ⟨s, hvalid, hrest⟩ := bind_eq_ok.mp h
  obtain ⟨s', hmigrate, hrest⟩ := bind_eq_ok.mp hrest
  rw [mapError_eq_ok] at hvalid hmigrate
  have hs : s' = s := by
    rw [migrateToLatest] at hmigrate
    split at hmigrate
    · exact (Except.ok.inj hmigrate).symm
    · cases hmigrate
  rw [hs] at hrest
  dsimp only at hrest
  split at hrest
  · cases hrest
  · rename_i hmode
    obtain ⟨hash, hexpected, hrest⟩ := bind_eq_ok.mp hrest
    split at hrest
    · cases hrest
    · rename_i hhash
      rw [ne_eq, not_not] at hmode hhash
      obtain ⟨state', hstate', hrehydrates⟩ := rehydrate_of_valid hvalid hmode (hhash ▸ hexpected)
      rw [hok] at hstate'
      cases hstate'
      exact ⟨s, hrehydrates⟩

/-! ## The restored registrar -/

namespace Registrar

/-- A registrar with one version of each id. -/
def restoredWith (engine : Engine) (versions : List RegisteredState) (cursor : ℤ) : Registrar where
  engine := engine
  versionsByKey := JsMap.empty.setAll (versions.map fun v => (v.versionKey, v))
  latestById := JsMap.empty.setAll (versions.map fun v => (v.id, v))
  currentOrderIndex := cursor
  lastParityStatus := none

theorem injectEntries_eq {es : List (StateID × RehydratedStateEntry)} {vs : List RegisteredState}
    (h : es.map (fun e => e.2.restored) = vs.map some) (hids : es.map Prod.fst = vs.map (·.id))
    (r : Registrar) :
    injectEntries r es = some { r with
      versionsByKey := r.versionsByKey.setAll (vs.map fun v => (v.versionKey, v)),
      latestById := r.latestById.setAll (vs.map fun v => (v.id, v)) } := by
  induction es generalizing r vs with
  | nil =>
    cases vs with
    | nil => rfl
    | cons v vs => cases h
  | cons e es ih =>
    cases vs with
    | nil => cases h
    | cons v vs =>
      obtain ⟨he, h⟩ := List.cons.inj h
      obtain ⟨hid, hids⟩ := List.cons.inj hids
      dsimp only at he hid
      rw [injectEntries, he]
      dsimp only
      rw [ih h hids, hid]
      rfl

theorem injectEntries_eq_none {es : List (StateID × RehydratedStateEntry)}
    {e : StateID × RehydratedStateEntry} (he : e ∈ es) (h : e.2.restored = none) (r : Registrar) :
    injectEntries r es = none := by
  induction es generalizing r with
  | nil => cases he
  | cons a es ih =>
    rw [injectEntries]
    rcases List.mem_cons.mp he with rfl | he
    · rw [h]
    · split
      · rfl
      · exact ih he _

end Registrar

/-- A version that stands for a state id of a snapshot. -/
structure RestoredFrom (s : RegistrarSnapshotV1) (v : RegisteredState) : Prop where
  registered : v.id ∈ s.stateIds
  parentId : s.lineage.get? v.id = some v.parentId
  orderIndex : s.assigned.get? v.id = some v.orderIndex
  versionKey : v.versionKey = makeVersionKey v.id v.orderIndex
  parentKey : v.parentKey = none

theorem restoredFrom_of_restored {s : RegistrarSnapshotV1} {id : StateID}
    {e : RehydratedStateEntry} {v : RegisteredState} (hid : id ∈ s.stateIds)
    (he : s.entry id = some e) (hv : e.restored = some v) : v.id = id ∧ RestoredFrom s v := by
  rw [RegistrarSnapshotV1.entry] at he
  split at he
  · rename_i hp ho
    cases he
    rw [RehydratedStateEntry.restored] at hv
    split at hv
    · rename_i hp' ho'
      dsimp only at hp' ho'
      cases hv
      subst hp' ho'
      exact ⟨rfl, hid, Record.read_eq_own.mp hp, Record.read_eq_own.mp ho, rfl, rfl⟩
    · cases hv
  · cases he

/-- An entry makes a version exactly where both records own it. -/
theorem exists_restored_iff {s : RegistrarSnapshotV1} {id : StateID} {e : RehydratedStateEntry}
    (he : s.entry id = some e) :
    (∃ v, e.restored = some v) ↔ id ∈ s.lineage.keys ∧ id ∈ s.assigned.keys := by
  rw [← Record.isSome_get?_iff, ← Record.isSome_get?_iff]
  constructor
  · rintro ⟨v, hv⟩
    rw [RegistrarSnapshotV1.entry] at he
    split at he
    · rename_i hp ho
      cases he
      rw [RehydratedStateEntry.restored] at hv
      split at hv
      · rename_i hp' ho'
        dsimp only at hp' ho'
        subst hp' ho'
        rw [Record.read_eq_own.mp hp, Record.read_eq_own.mp ho]
        exact ⟨rfl, rfl⟩
      · cases hv
    · cases he
  · rintro ⟨hp, ho⟩
    obtain ⟨p, hp⟩ := Option.isSome_iff_exists.mp hp
    obtain ⟨n, ho⟩ := Option.isSome_iff_exists.mp ho
    rw [RegistrarSnapshotV1.entry, Record.read_eq_own.mpr hp, Record.read_eq_own.mpr ho] at he
    cases he
    exact ⟨_, rfl⟩

section restoration

variable {raw : RawSnapshot} {options : RehydrationOptions} {s : RegistrarSnapshotV1}
  {state : RehydratedState}

theorem Rehydrates.entry_of_mem (h : Rehydrates raw options s state)
    {e : StateID × RehydratedStateEntry} (he : e ∈ state.registry.entries) :
    e.1 ∈ s.stateIds ∧ s.entry e.1 = some e.2 := by
  have hget := JsMap.get?_eq_some.mpr he
  rw [h.entry] at hget
  split at hget
  · rename_i hid
    exact ⟨hid, hget⟩
  · cases hget

theorem Rehydrates.mem_keys (h : Rehydrates raw options s state) {id : StateID} :
    id ∈ state.registry.keys ↔ id ∈ s.stateIds := by
  obtain ⟨l, o, a, hschema⟩ := validateSnapshot_eq_ok.mp h.valid
  rw [JsMap.mem_keys]
  constructor
  · rintro ⟨e, he⟩
    exact (h.entry_of_mem (JsMap.get?_eq_some.mp he)).1
  · intro hid
    rw [h.entry, if_pos hid]
    exact Option.isSome_iff_exists.mp (hschema.consistent.entry hid)

/-- The registrar is restored where both records own every state id. -/
theorem Rehydrates.inject (h : Rehydrates raw options s state)
    (hown : ∀ id ∈ s.stateIds, id ∈ s.lineage.keys ∧ id ∈ s.assigned.keys) (engine : Engine) :
    ∃ vs, (∀ v ∈ vs, RestoredFrom s v) ∧ vs.map (·.id) = state.registry.keys ∧
      (Registrar.new engine).injectRehydratedState state =
        some (.restoredWith engine vs state.currentOrderIndex) := by
  have hrestored : ∀ e ∈ state.registry.entries, ∃ v, e.2.restored = some v := by
    intro e he
    obtain ⟨hid, hentry⟩ := h.entry_of_mem he
    exact (exists_restored_iff hentry).mpr (hown _ hid)
  have : Nonempty RegisteredState := ⟨⟨[], none, 0, [], none⟩⟩
  choose! f hf using hrestored
  have hvs : state.registry.entries.map (fun e => e.2.restored) =
      (state.registry.entries.map f).map some := by
    rw [List.map_map]
    exact List.map_congr_left hf
  have hfrom : ∀ e ∈ state.registry.entries, (f e).id = e.1 ∧ RestoredFrom s (f e) := by
    intro e he
    obtain ⟨hid, hentry⟩ := h.entry_of_mem he
    exact restoredFrom_of_restored hid hentry (hf e he)
  have hids : (state.registry.entries.map f).map (·.id) = state.registry.keys := by
    rw [List.map_map]
    exact List.map_congr_left fun e he => (hfrom e he).1
  refine ⟨state.registry.entries.map f, ?_, hids, ?_⟩
  · intro v hv
    obtain ⟨e, he, rfl⟩ := List.mem_map.mp hv
    exact (hfrom e he).2
  · rw [Registrar.injectRehydratedState, Registrar.injectEntries_eq hvs hids.symm]
    rfl

theorem Rehydrates.own_of_inject (h : Rehydrates raw options s state) {engine : Engine}
    {r : Registrar} (hr : (Registrar.new engine).injectRehydratedState state = some r) :
    ∀ id ∈ s.stateIds, id ∈ s.lineage.keys ∧ id ∈ s.assigned.keys := by
  intro id hid
  obtain ⟨e, he⟩ := JsMap.mem_keys.mp (h.mem_keys.mpr hid)
  have hmem := JsMap.get?_eq_some.mp he
  apply (exists_restored_iff (h.entry_of_mem hmem).2).mp
  apply Option.ne_none_iff_exists'.mp
  intro hnone
  rw [Registrar.injectRehydratedState, Registrar.injectEntries_eq_none hmem hnone] at hr
  cases hr

/-- What a restored registrar is. -/
theorem fromSnapshot_eq_ok_some {r : Registrar}
    (h : Registrar.fromSnapshot raw options = .ok (some r)) :
    ∃ s engine vs, validateSnapshot raw = .ok s ∧ options.engine? = some engine ∧
      (∀ v ∈ vs, RestoredFrom s v) ∧ (vs.map (·.id)).Nodup ∧
      r = .restoredWith engine vs (roundDouble (s.maxIndex + 1)) := by
  obtain ⟨state, hstate, h⟩ := bind_eq_ok.mp h
  obtain ⟨s, hs⟩ := Rehydrates.of_eq_ok hstate
  obtain ⟨engine, hengine, hr⟩ := Option.bind_eq_some_iff.mp (Except.ok.inj h)
  obtain ⟨vs, hvs, hids, hinject⟩ := hs.inject (hs.own_of_inject hr) engine
  rw [hinject] at hr
  refine ⟨s, engine, vs, hs.valid, hengine, hvs, ?_, ?_⟩
  · rw [hids]
    exact state.registry.nodup
  · rw [← Option.some.inj hr, hs.cursor]

end restoration

/-! ## Its history -/

namespace Registrar

section restored

variable {engine : Engine} {vs : List RegisteredState} {cursor : ℤ}

theorem nodup_versionKeys (hids : (vs.map (·.id)).Nodup)
    (hkeys : ∀ v ∈ vs, v.versionKey = makeVersionKey v.id v.orderIndex) :
    (vs.map (·.versionKey)).Nodup := by
  apply List.Nodup.map_on _ (List.Nodup.of_map _ hids)
  intro v hv w hw h
  -- the id of a version can be read off its key
  rw [hkeys v hv, hkeys w hw] at h
  exact List.inj_on_of_nodup_map hids hv hw (makeVersionKey_inj.mp h).1

theorem entries_restoredWith (hids : (vs.map (·.id)).Nodup)
    (hkeys : ∀ v ∈ vs, v.versionKey = makeVersionKey v.id v.orderIndex) :
    (restoredWith engine vs cursor).versionsByKey.entries = vs.map (fun v => (v.versionKey, v)) ∧
      (restoredWith engine vs cursor).latestById.entries = vs.map fun v => (v.id, v) := by
  constructor
  · refine JsMap.entries_setAll ?_ fun e _ => List.not_mem_nil
    rw [List.map_map]
    exact nodup_versionKeys hids hkeys
  · refine JsMap.entries_setAll ?_ fun e _ => List.not_mem_nil
    rw [List.map_map]
    exact hids

theorem get?_versions_restoredWith (hids : (vs.map (·.id)).Nodup)
    (hkeys : ∀ v ∈ vs, v.versionKey = makeVersionKey v.id v.orderIndex) {k : JsString}
    {v : RegisteredState} :
    (restoredWith engine vs cursor).versionsByKey.get? k = some v ↔ v ∈ vs ∧ v.versionKey = k := by
  rw [JsMap.get?_eq_some, (entries_restoredWith hids hkeys).1, List.mem_map]
  constructor
  · rintro ⟨w, hw, h⟩
    cases h
    exact ⟨hw, rfl⟩
  · rintro ⟨hv, rfl⟩
    exact ⟨v, hv, rfl⟩

theorem get?_latest_restoredWith (hids : (vs.map (·.id)).Nodup)
    (hkeys : ∀ v ∈ vs, v.versionKey = makeVersionKey v.id v.orderIndex) {id : StateID}
    {v : RegisteredState} :
    (restoredWith engine vs cursor).latestById.get? id = some v ↔ v ∈ vs ∧ v.id = id := by
  rw [JsMap.get?_eq_some, (entries_restoredWith hids hkeys).2, List.mem_map]
  constructor
  · rintro ⟨w, hw, h⟩
    cases h
    exact ⟨hw, rfl⟩
  · rintro ⟨hv, rfl⟩
    exact ⟨v, hv, rfl⟩

theorem linked_restoredWith (hids : (vs.map (·.id)).Nodup)
    (hkeys : ∀ v ∈ vs, v.versionKey = makeVersionKey v.id v.orderIndex)
    (hparent : ∀ v ∈ vs, v.parentKey = none) (hcursor : 0 ≤ cursor)
    (hbelow : ∀ v ∈ vs, v.orderIndex < cursor ∨ safeBound ≤ cursor) :
    (restoredWith engine vs cursor).Linked where
  cursor := hcursor
  key hv := by
    obtain ⟨hmem, rfl⟩ := (get?_versions_restoredWith hids hkeys).mp hv
    exact hkeys _ hmem
  versionKey hv := ((get?_versions_restoredWith hids hkeys).mp hv).2
  below hv := hbelow _ ((get?_versions_restoredWith hids hkeys).mp hv).1
  parent hv hp := by
    obtain ⟨hmem, -⟩ := (get?_versions_restoredWith hids hkeys).mp hv
    cases (hparent _ hmem).symm.trans hp
  latest hv := by
    obtain ⟨hmem, hid⟩ := (get?_latest_restoredWith hids hkeys).mp hv
    exact ⟨hid, (get?_versions_restoredWith hids hkeys).mpr ⟨hmem, rfl⟩⟩

end restored

/-- The order indices of a consistent snapshot lie below the cursor that it restores. -/
theorem cursor_of_consistent {s : RegistrarSnapshotV1}
    (h : Consistent s.stateIds s.lineage s.maxIndex s.assigned) :
    0 ≤ roundDouble (s.maxIndex + 1) ∧ ∀ n ∈ s.assigned.values, s.stateIds ≠ [] →
      n < roundDouble (s.maxIndex + 1) ∨ safeBound ≤ roundDouble (s.maxIndex + 1) := by
  by_cases hids : s.stateIds = []
  · rw [h.max_empty hids]
    exact ⟨by decide, fun n _ hne => absurd hids hne⟩
  · obtain ⟨hmem, hmax⟩ := List.max?_eq_some_iff.mp (h.max_index hids)
    have hnonneg := h.nonneg hids _ hmem
    rcases lt_or_ge s.maxIndex safeBound with hlt | hge
    · rw [roundDouble_add_one hnonneg hlt]
      refine ⟨by omega, fun n hn _ => .inl ?_⟩
      have hle := hmax n hn
      omega
    · have hround := safeBound_le_roundDouble (show safeBound ≤ s.maxIndex + 1 by omega)
      exact ⟨le_trans (by decide) hround, fun _ _ _ => .inr hround⟩

theorem linked_of_fromSnapshot {raw : RawSnapshot} {options : RehydrationOptions} {r : Registrar}
    (h : fromSnapshot raw options = .ok (some r)) : r.Linked := by
  obtain ⟨s, engine, vs, hvalid, -, hvs, hids, rfl⟩ := fromSnapshot_eq_ok_some h
  obtain ⟨l, o, a, hschema⟩ := validateSnapshot_eq_ok.mp hvalid
  obtain ⟨hcursor, hbelow⟩ := cursor_of_consistent hschema.consistent
  apply linked_restoredWith hids (fun v hv => (hvs v hv).versionKey)
    (fun v hv => (hvs v hv).parentKey) hcursor
  intro v hv
  have hmem := Record.mem_of_get? (hvs v hv).orderIndex
  exact hbelow _ (List.mem_map_of_mem hmem) (List.ne_nil_of_mem (hvs v hv).registered)

end Registrar

end Attestia.Registrum
