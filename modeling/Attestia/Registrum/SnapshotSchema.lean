import Attestia.Registrum.Restoration

/-!
# The snapshot of a registrar

The snapshot of a registrar is valid where its state ids are properties of the records,
its order indices are those of a history and its parents lead to roots. It is rehydrated by
the options of the same engine.
-/

namespace Attestia.Registrum

open Lib JsonNumber

/-! ## Records that are built by assignments -/

theorem val_object_map_some (l : List (JsString × JsonValue)) :
    (JsonValue.object (l.map fun e => (e.1, some e.2))).val =
      .obj (Json.ofEntries (l.map fun e => (e.1, e.2.val))) := by
  change Json.obj (Json.ofEntries (List.filterMap _ _)) = _
  rw [List.filterMap_map]
  congr 2
  exact congrFun List.filterMap_eq_map l

/-- Assignments to keys that are all different make the entries of the object. -/
theorem ownEntries_assignedObject {α : Type} (encode : α → JsonValue) (check : Json → Option α)
    (hcheck : ∀ a, check (encode a).val = some a) (es : List (StateID × α))
    (hnodup : (es.map Prod.fst).Nodup) (hproto : js "__proto__" ∉ es.map Prod.fst) :
    ∃ t : List (StateID × α),
      (ownEntries (Registrar.assignedObject (es.map fun e => (e.1, encode e.2))).val).map
        (fun e => (e.1, check e.2)) = t.map (fun e => (e.1, some e.2)) ∧ t.Perm es := by
  have hfilter : (es.map fun e => (e.1, encode e.2)).filter (fun e => e.1 ≠ js "__proto__") =
      es.map fun e => (e.1, encode e.2) := by
    apply List.filter_eq_self.mpr
    intro e he
    obtain ⟨a, ha, rfl⟩ := List.mem_map.mp he
    rw [decide_eq_true_eq]
    rintro h
    exact hproto (h ▸ List.mem_map_of_mem ha)
  have hperm : (Json.ofEntries (es.map fun e => (e.1, (encode e.2).val))).Perm
      (es.map fun e => (e.1, (encode e.2).val)) := by
    apply JsonValue.ofEntries_perm
    rw [List.map_map]
    exact hnodup
  have hforall : List.Forall₂ (fun x (e : StateID × α) => x = (e.1, (encode e.2).val))
      (es.map fun e => (e.1, (encode e.2).val)) es := by
    rw [List.forall₂_map_left_iff]
    exact List.forall₂_same.mpr fun _ _ => rfl
  obtain ⟨t, ht, htes⟩ := List.perm_comp_forall₂ hperm hforall
  refine ⟨t, ?_, htes⟩
  rw [Registrar.assignedObject, hfilter, val_object_map_some, List.map_map, ownEntries]
  change (Json.ofEntries (es.map fun e => (e.1, (encode e.2).val))).map _ = _
  have hentries : Json.ofEntries (es.map fun e => (e.1, (encode e.2).val)) =
      t.map fun e => (e.1, (encode e.2).val) := by
    apply List.forall₂_eq_eq_eq ▸ (List.forall₂_map_right_iff.mpr ht)
  rw [hentries, List.map_map]
  apply List.map_congr_left
  intro e _
  rw [Function.comp_apply, hcheck]

/-! ## Registrars whose snapshot is valid -/

namespace Registrar

/-- What the checks of a snapshot ask of the frontier. -/
structure Storable (r : Registrar) : Prop where
  ids {id : StateID} {v : RegisteredState} (h : r.latestById.get? id = some v) : v.id = id
  proto : js "__proto__" ∉ r.latestById.keys
  nonneg {v : RegisteredState} (h : v ∈ r.latestById.values) : 0 ≤ v.orderIndex
  distinct : (r.latestById.values.map RegisteredState.orderIndex).Nodup
  max_empty (h : r.latestById.values = []) : roundDouble (r.currentOrderIndex - 1) = -1
  max_index (h : r.latestById.values ≠ []) :
    (r.latestById.values.map RegisteredState.orderIndex).max? =
      some (roundDouble (r.currentOrderIndex - 1))
  parents : ∃ rank : StateID → ℕ, ∀ v ∈ r.latestById.values, ∀ p,
    r.resolveSnapshotParentId v = some p → p ∈ r.latestById.keys ∧ rank p < rank v.id

theorem frontier_perm (r : Registrar) : r.frontier.Perm r.latestById.values :=
  List.perm_insertionSort _ _

theorem map_id_values {r : Registrar}
    (h : ∀ {id v}, r.latestById.get? id = some v → v.id = id) :
    r.latestById.values.map RegisteredState.id = r.latestById.keys := by
  rw [JsMap.values, JsMap.keys, List.map_map]
  apply List.map_congr_left
  rintro ⟨id, v⟩ he
  exact h (JsMap.get?_eq_some.mpr he)

theorem registryHash_ne_nil (r : Registrar) : r.registryHash ≠ [] := by
  have hlegacy : ∀ ids, computeLegacyRegistryHash ids ≠ [] := by
    intro ids h
    have hstart := (List.append_eq_nil_iff.mp h).1
    exact absurd hstart (by decide)
  have hregistry : ∀ registry, computeRegistryHash registry ≠ [] := by
    intro registry h
    have htext := js_injective (h.trans (by rfl : [] = js ""))
    have hlength := hexEncode_length (sha256 (Utf8.encode (normativeJson registry).canonicalText.toList))
    rw [htext, sha256_length] at hlength
    exact absurd hlength (by decide)
  rw [registryHash]
  split
  · exact hlegacy _
  · exact hregistry _
  · exact hregistry _

/-- What is read of the snapshot of a storable registrar. -/
structure View (r : Registrar) (s : RegistrarSnapshotV1) : Prop where
  registryHash : s.registryHash = r.registryHash
  mode : s.mode = r.mode
  stateIds : s.stateIds = r.frontier.map RegisteredState.id
  lineage : s.lineage.entries.Perm (r.frontier.map fun v => (v.id, r.resolveSnapshotParentId v))
  assigned : s.assigned.entries.Perm (r.frontier.map fun v => (v.id, v.orderIndex))
  maxIndex : s.maxIndex = roundDouble (r.currentOrderIndex - 1)

section view

variable {r : Registrar} {s : RegistrarSnapshotV1}

theorem Storable.frontier_ids (h : r.Storable) :
    (r.frontier.map RegisteredState.id).Perm r.latestById.keys := by
  rw [← map_id_values h.ids]
  exact r.frontier_perm.map _

theorem Storable.nodup_ids (h : r.Storable) : (r.frontier.map RegisteredState.id).Nodup :=
  h.frontier_ids.nodup_iff.mpr r.latestById.nodup

theorem View.lineage_keys (hs : r.View s) :
    s.lineage.keys.Perm (r.frontier.map RegisteredState.id) := by
  have hkeys := hs.lineage.map Prod.fst
  rwa [List.map_map] at hkeys

theorem View.assigned_keys (hs : r.View s) :
    s.assigned.keys.Perm (r.frontier.map RegisteredState.id) := by
  have hkeys := hs.assigned.map Prod.fst
  rwa [List.map_map] at hkeys

theorem View.assigned_values (hs : r.View s) :
    s.assigned.values.Perm (r.latestById.values.map RegisteredState.orderIndex) := by
  have hvalues := hs.assigned.map Prod.snd
  rw [List.map_map] at hvalues
  exact hvalues.trans (r.frontier_perm.map _)

theorem View.get?_lineage (h : r.Storable) (hs : r.View s) {v : RegisteredState}
    (hv : v ∈ r.frontier) : s.lineage.get? v.id = some (r.resolveSnapshotParentId v) := by
  apply Record.get?_of_mem (hs.lineage_keys.nodup_iff.mpr h.nodup_ids)
  rw [hs.lineage.mem_iff]
  exact List.mem_map_of_mem hv

theorem View.get?_assigned (h : r.Storable) (hs : r.View s) {v : RegisteredState}
    (hv : v ∈ r.frontier) : s.assigned.get? v.id = some v.orderIndex := by
  apply Record.get?_of_mem (hs.assigned_keys.nodup_iff.mpr h.nodup_ids)
  rw [hs.assigned.mem_iff]
  exact List.mem_map_of_mem hv

/-- The parents of a frontier lead to roots, since they decrease a rank. -/
theorem View.reachesIn (h : r.Storable) (hs : r.View s) {id : StateID}
    (hid : id ∈ s.stateIds) : ∃ n, ReachesIn s.lineage n (.id id) := by
  obtain ⟨rank, hrank⟩ := h.parents
  induction hn : rank id using Nat.strong_induction_on generalizing id with
  | _ n ih =>
    rw [hs.stateIds] at hid
    obtain ⟨v, hv, rfl⟩ := List.mem_map.mp hid
    have hread := Record.read_eq_own.mpr (hs.get?_lineage h hv)
    cases hparent : r.resolveSnapshotParentId v with
    | none =>
      rw [hparent] at hread
      exact ⟨0, hread⟩
    | some p =>
      obtain ⟨hp, hlt⟩ := hrank v (r.frontier_perm.mem_iff.mp hv) p hparent
      obtain ⟨m, hm⟩ := ih (rank p) (hn ▸ hlt)
        (by rw [hs.stateIds, h.frontier_ids.mem_iff]; exact hp) rfl
      rw [hparent] at hread
      exact ⟨m + 1, .inl ⟨p, hread, hm⟩⟩

theorem Storable.consistent (h : r.Storable) (hs : r.View s) :
    Consistent s.stateIds s.lineage s.maxIndex s.assigned where
  has_lineage id hid := by
    rw [hs.stateIds] at hid
    obtain ⟨v, hv, rfl⟩ := List.mem_map.mp hid
    rw [Record.read_eq_own.mpr (hs.get?_lineage h hv)]
    rfl
  lineage_registered id hid := by
    rw [hs.stateIds, ← hs.lineage_keys.mem_iff]
    exact hid
  parent_registered e he p hp := by
    obtain ⟨rank, hrank⟩ := h.parents
    obtain ⟨v, hv, rfl⟩ := List.mem_map.mp (hs.lineage.mem_iff.mp he)
    rw [hs.stateIds, h.frontier_ids.mem_iff]
    exact (hrank v (r.frontier_perm.mem_iff.mp hv) p hp).1
  reaches id hid := hs.reachesIn h hid
  has_order id hid := by
    rw [hs.stateIds] at hid
    obtain ⟨v, hv, rfl⟩ := List.mem_map.mp hid
    rw [Record.read_eq_own.mpr (hs.get?_assigned h hv)]
    rfl
  order_registered id hid := by
    rw [hs.stateIds, ← hs.assigned_keys.mem_iff]
    exact hid
  max_empty hids := by
    rw [hs.stateIds, List.map_eq_nil_iff] at hids
    rw [hs.maxIndex]
    exact h.max_empty (hids ▸ r.frontier_perm).nil_eq.symm
  max_index hids := by
    have hne : r.latestById.values ≠ [] := by
      intro hnil
      have hperm := r.frontier_perm
      rw [hnil] at hperm
      apply hids
      rw [hs.stateIds, hperm.eq_nil, List.map_nil]
    obtain ⟨hmem, hmax⟩ := List.max?_eq_some_iff.mp (h.max_index hne)
    rw [maxAssigned, hs.maxIndex]
    refine List.max?_eq_some_iff.mpr ⟨hs.assigned_values.mem_iff.mpr hmem, fun n hn => ?_⟩
    exact hmax n (hs.assigned_values.mem_iff.mp hn)
  nodup _ := hs.assigned_values.nodup_iff.mpr h.distinct
  nonneg _ n hn := by
    obtain ⟨v, hv, rfl⟩ := List.mem_map.mp (hs.assigned_values.mem_iff.mp hn)
    exact h.nonneg hv

end view

theorem validateMode_text (mode : RegistrarMode) :
    validateMode (some (JsonValue.str mode.text).val) = .ok mode := by
  cases mode <;> decide +kernel

theorem Storable.validateSnapshot {r : Registrar} (h : r.Storable) :
    ∃ s, validateSnapshot r.snapshot = .ok s ∧ r.View s := by
  have hids : ∀ {α : Type} (f : RegisteredState → α),
      (r.frontier.map fun v => (v.id, f v)).map Prod.fst = r.frontier.map RegisteredState.id := by
    intro α f
    rw [List.map_map]
    rfl
  have hproto : js "__proto__" ∉ r.frontier.map RegisteredState.id := by
    rw [h.frontier_ids.mem_iff]
    exact h.proto
  obtain ⟨parents, hparents, hpperm⟩ := ownEntries_assignedObject parentJson isStringOrNull
    (fun p => by cases p <;> rfl) (r.frontier.map fun v => (v.id, r.resolveSnapshotParentId v))
    (by rw [hids]; exact h.nodup_ids) (by rw [hids]; exact hproto)
  obtain ⟨indices, hindices, hiperm⟩ := ownEntries_assignedObject (fun n => .num (.ofInt n))
    isInteger (fun n => by simp [isInteger, JsonValue.num, Number.ofInt])
    (r.frontier.map fun v => (v.id, v.orderIndex))
    (by rw [hids]; exact h.nodup_ids) (by rw [hids]; exact hproto)
  rw [List.map_map] at hparents hindices
  let s : RegistrarSnapshotV1 := ⟨SNAPSHOT_VERSION, r.registryHash, r.mode,
    r.frontier.map RegisteredState.id, ⟨parents, .object⟩, roundDouble (r.currentOrderIndex - 1),
    ⟨indices, .object⟩⟩
  have hview : r.View s := ⟨rfl, rfl, rfl, hpperm, hiperm, rfl⟩
  refine ⟨s, validateSnapshot_eq_ok.mpr ⟨r.lineageJson.val, r.orderingJson.val,
    r.assignedJson.val, ?_⟩, hview⟩
  have hget : ∀ {v w : JsonValue} {key : String}, v.get? (js key) = some w →
      v.val.get? (js key) = some w.val := fun h => JsonValue.get?_eq_some.mp h
  have hbare : r.snapshot.lineageBare = false := by
    apply List.any_eq_false.mpr
    intro v hv hbare
    rw [Bool.and_eq_true, decide_eq_true_eq] at hbare
    exact hproto (hbare.1 ▸ List.mem_map_of_mem hv)
  have hprototype : ∀ es, prototypeOf (assignedObject es).val = .object := fun es => rfl
  exact {
    object := rfl
    known := by
      intro e he
      obtain ⟨a, ha, hea⟩ := List.mem_filterMap.mp (Json.mem_ofEntries he)
      obtain ⟨w, -, rfl⟩ := Option.map_eq_some_iff.mp hea
      have hkeys := List.mem_map_of_mem (f := Prod.fst) ha
      simpa [knownFields] using hkeys
    version := by
      rw [hget (w := .str SNAPSHOT_VERSION) (by simp [snapshot, snapshotValue, literalJson])]
      rfl
    registryHash := by
      rw [hget (w := .str r.registryHash) (by simp [snapshot, snapshotValue, literalJson])]
      exact if_neg r.registryHash_ne_nil
    mode := by
      rw [hget (w := .str r.mode.text) (by simp [snapshot, snapshotValue, literalJson])]
      exact validateMode_text r.mode
    stateIds := by
      rw [hget (w := .array (r.frontier.map fun e => .str e.id))
        (by simp [snapshot, snapshotValue, literalJson])]
      change some (Json.arr (List.map _ _)) = some (Json.arr (List.map _ (List.map _ _)))
      rw [List.map_map, List.map_map]
      rfl
    lineage := hget (by simp [snapshot, snapshotValue, literalJson])
    lineageObject := rfl
    parents := hparents
    lineagePrototype := by
      rw [hbare]
      rfl
    ordering := hget (by simp [snapshot, snapshotValue, literalJson])
    orderingObject := rfl
    maxIndex := by
      rw [hget (w := .num (.ofInt (roundDouble (r.currentOrderIndex - 1))))
        (by simp [orderingJson, literalJson])]
      simp [isInteger, JsonValue.num, Number.ofInt, s]
    assigned := hget (by simp [orderingJson, literalJson])
    assignedObject := rfl
    indices := hindices
    assignedPrototype := rfl
    consistent := h.consistent hview }

end Registrar

/-! ## Rehydration -/

/-- The options that rehydrate the snapshot of an engine. -/
def Engine.options : Engine → RehydrationOptions
  | .legacy invariants => ⟨.legacy, some invariants, none⟩
  | .registry compiledRegistry => ⟨.registry, none, some compiledRegistry⟩
  | .dual compiledRegistry invariants => ⟨.dual, some invariants, some compiledRegistry⟩

theorem Engine.engine?_options (engine : Engine) : engine.options.engine? = some engine := by
  cases engine <;> rfl

theorem Registrar.mode_options (r : Registrar) : r.engine.options.mode = r.mode := by
  rw [mode]
  cases r.engine <;> rfl

theorem Registrar.computeExpectedHash_options (r : Registrar) :
    computeExpectedHash r.engine.options = .ok r.registryHash := by
  rw [registryHash]
  cases r.engine <;> rfl

/-- The snapshot of a storable registrar restores its frontier. -/
theorem Registrar.Storable.fromSnapshot {r : Registrar} (h : r.Storable) :
    ∃ vs : List RegisteredState,
      fromSnapshot r.snapshot r.engine.options = .ok (some (restoredWith r.engine vs
        (roundDouble (roundDouble (r.currentOrderIndex - 1) + 1)))) ∧
      (vs.map RegisteredState.id).Nodup ∧
      (∀ w ∈ vs, w.versionKey = makeVersionKey w.id w.orderIndex ∧ w.parentKey = none ∧
        ∃ v ∈ r.latestById.values, w.id = v.id ∧ w.orderIndex = v.orderIndex ∧
          w.parentId = r.resolveSnapshotParentId v) ∧
      ∀ v ∈ r.latestById.values, ∃ w ∈ vs, w.id = v.id := by
  obtain ⟨s, hvalid, hview⟩ := h.validateSnapshot
  obtain ⟨state, hstate, hrehydrates⟩ := rehydrate_of_valid hvalid
    (hview.mode.trans r.mode_options.symm)
    (r.computeExpectedHash_options.trans (by rw [hview.registryHash]))
  have hown : ∀ id ∈ s.stateIds, id ∈ s.lineage.keys ∧ id ∈ s.assigned.keys := by
    intro id hid
    rw [hview.stateIds] at hid
    exact ⟨hview.lineage_keys.mem_iff.mpr hid, hview.assigned_keys.mem_iff.mpr hid⟩
  obtain ⟨vs, hvs, hids, hinject⟩ := hrehydrates.inject hown r.engine
  refine ⟨vs, ?_, ?_, ?_, ?_⟩
  · rw [Registrar.fromSnapshot, hstate, r.engine.engine?_options]
    change Except.ok ((new r.engine).injectRehydratedState state) = _
    rw [hinject, hrehydrates.cursor, hview.maxIndex]
  · rw [hids]
    exact state.registry.nodup
  · intro w hw
    have hfrom := hvs w hw
    have hid := hfrom.registered
    rw [hview.stateIds] at hid
    obtain ⟨v, hv, hvw⟩ := List.mem_map.mp hid
    refine ⟨hfrom.versionKey, hfrom.parentKey, v, r.frontier_perm.mem_iff.mp hv, hvw.symm, ?_, ?_⟩
    · have horder := hfrom.orderIndex
      rw [← hvw, hview.get?_assigned h hv] at horder
      exact (Option.some.inj horder).symm
    · have hparent := hfrom.parentId
      rw [← hvw, hview.get?_lineage h hv] at hparent
      exact (Option.some.inj hparent).symm
  · intro v hv
    have hid : v.id ∈ s.stateIds := by
      rw [hview.stateIds]
      exact List.mem_map_of_mem (r.frontier_perm.mem_iff.mpr hv)
    rw [← hrehydrates.mem_keys, ← hids] at hid
    exact List.mem_map.mp hid

end Attestia.Registrum
