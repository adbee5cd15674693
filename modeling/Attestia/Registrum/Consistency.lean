import Attestia.Lib.Except
import Attestia.Registrum.Rehydrator
import Mathlib.Data.List.Perm.Subperm

/-!
# Consistent snapshots

What the checks of a snapshot come to, and what a rehydration restores.
-/

namespace Attestia.Registrum

open Lib JsonNumber

/-! ## Records -/

namespace Record

variable {α : Type} {r : Record α} {key : JsString}

theorem mem_of_get? {a : α} (h : r.get? key = some a) : (key, a) ∈ r.entries := by
  obtain ⟨e, he, rfl⟩ := Option.map_eq_some_iff.mp h
  have hkey : e.1 = key := by simpa using List.find?_some he
  rw [← hkey]
  exact List.mem_of_find?_eq_some he

theorem isSome_get?_iff : (r.get? key).isSome ↔ key ∈ r.keys := by
  rw [get?, Option.isSome_map, List.find?_isSome, keys, List.mem_map]
  simp

theorem get?_of_mem (hnodup : r.keys.Nodup) {a : α} (h : (key, a) ∈ r.entries) :
    r.get? key = some a :=
  (JsMap.get?_eq_some (m := ⟨r.entries, hnodup⟩)).mpr h

theorem read_eq_own {a : α} : r.read key = some (.own a) ↔ r.get? key = some a := by
  rw [read]
  cases hget : r.get? key with
  | some b => simp
  | none => simp

end Record

/-! ## The consistency of a snapshot -/

/-- A node that leads to a root by a number of parents. -/
def ReachesIn (lineage : Record (Option StateID)) : ℕ → Cursor → Prop
  | 0, c => lineage.read c.text = some (.own none)
  | n + 1, c =>
    (∃ p, lineage.read c.text = some (.own (some p)) ∧ ReachesIn lineage n (.id p)) ∨
      ∃ text, lineage.read c.text = some (.inherited text) ∧
        ReachesIn lineage n (.inherited text)

theorem ReachesIn.unique {lineage : Record (Option StateID)} {m n : ℕ} {c : Cursor}
    (hm : ReachesIn lineage m c) (hn : ReachesIn lineage n c) : m = n := by
  induction m generalizing n c with
  | zero =>
    cases n with
    | zero => rfl
    | succ n =>
      rw [ReachesIn] at hm
      rcases hn with ⟨p, h, -⟩ | ⟨text, h, -⟩ <;> cases hm.symm.trans h
  | succ m ih =>
    cases n with
    | zero =>
      rw [ReachesIn] at hn
      rcases hm with ⟨p, h, -⟩ | ⟨text, h, -⟩ <;> cases hn.symm.trans h
    | succ n =>
      congr 1
      rcases hm with ⟨p, h, hm⟩ | ⟨p, h, hm⟩ <;> rcases hn with ⟨q, h', hn⟩ | ⟨q, h', hn⟩ <;>
        cases h.symm.trans h'
      · exact ih hm hn
      · exact ih hm hn

/-- The nodes that a walk can visit. -/
def nodes (stateIds : List StateID) (lineage : Record (Option StateID)) : List Cursor :=
  stateIds.map .id ++ lineage.prototype.members.map fun e => .inherited e.2

theorem read_eq_inherited {α : Type} {r : Record α} {key text : JsString}
    (h : r.read key = some (.inherited text)) : ∃ e ∈ r.prototype.members, e.2 = text := by
  rw [Record.read] at h
  split at h
  · cases h
  · obtain ⟨e, he, htext⟩ := Option.map_eq_some_iff.mp h
    cases htext
    exact ⟨e, List.mem_of_find?_eq_some he, rfl⟩

section walk

variable {stateIds : List StateID} {lineage : Record (Option StateID)} {start : StateID}

theorem walkToRoot_of_reachesIn
    (hparent : ∀ e ∈ lineage.entries, ∀ p ∈ e.2, p ∈ stateIds) {n : ℕ} {fuel : ℕ}
    {seen : List Cursor} {c : Cursor} (hc : ReachesIn lineage n c)
    (hmem : c ∈ nodes stateIds lineage) (hnodup : seen.Nodup)
    (hseen : ∀ s ∈ seen, s ∈ nodes stateIds lineage ∧ ∃ m, n < m ∧ ReachesIn lineage m s)
    (hfuel : (nodes stateIds lineage).length < fuel + seen.length) :
    walkToRoot lineage start fuel seen c = .ok () := by
  induction n generalizing fuel seen c with
  | zero =>
    obtain ⟨fuel, rfl⟩ := Nat.exists_eq_succ_of_ne_zero (fuel_ne_zero hnodup hseen hfuel)
    have hnew := not_mem_seen hc hseen
    rw [ReachesIn] at hc
    rw [walkToRoot, if_neg hnew, hc]
  | succ n ih =>
    obtain ⟨fuel, rfl⟩ := Nat.exists_eq_succ_of_ne_zero (fuel_ne_zero hnodup hseen hfuel)
    have hnew := not_mem_seen hc hseen
    have hseen' : ∀ s ∈ c :: seen,
        s ∈ nodes stateIds lineage ∧ ∃ m, n < m ∧ ReachesIn lineage m s := by
      intro s hs
      rcases List.mem_cons.mp hs with rfl | hs
      · exact ⟨hmem, n + 1, Nat.lt_succ_self n, hc⟩
      · obtain ⟨hsmem, m, hm, hsm⟩ := hseen s hs
        exact ⟨hsmem, m, Nat.lt_of_succ_lt hm, hsm⟩
    have hfuel' : (nodes stateIds lineage).length < fuel + (c :: seen).length := by
      rw [List.length_cons]
      omega
    rw [walkToRoot, if_neg hnew]
    rcases hc with ⟨p, hread, hp⟩ | ⟨text, hread, hp⟩
    · rw [hread]
      refine ih hp ?_ (List.nodup_cons.mpr ⟨hnew, hnodup⟩) hseen' hfuel'
      have hentry := Record.mem_of_get? (Record.read_eq_own.mp hread)
      exact List.mem_append_left _ (List.mem_map_of_mem (hparent _ hentry p rfl))
    · rw [hread]
      refine ih hp ?_ (List.nodup_cons.mpr ⟨hnew, hnodup⟩) hseen' hfuel'
      obtain ⟨e, he, rfl⟩ := read_eq_inherited hread
      exact List.mem_append_right _ (List.mem_map_of_mem he)
where
  /-- A node is never visited again, since it leads to its root in one number of parents. -/
  not_mem_seen {n : ℕ} {seen : List Cursor} {c : Cursor} (hc : ReachesIn lineage n c)
      (hseen : ∀ s ∈ seen, s ∈ nodes stateIds lineage ∧ ∃ m, n < m ∧ ReachesIn lineage m s) :
      c ∉ seen := by
    intro hmem
    obtain ⟨-, m, hm, hcm⟩ := hseen c hmem
    exact hm.ne (hc.unique hcm)
  fuel_ne_zero {n fuel : ℕ} {seen : List Cursor} (hnodup : seen.Nodup)
      (hseen : ∀ s ∈ seen, s ∈ nodes stateIds lineage ∧ ∃ m, n < m ∧ ReachesIn lineage m s)
      (hfuel : (nodes stateIds lineage).length < fuel + seen.length) : fuel ≠ 0 := by
    have hle := (hnodup.subperm fun s hs => (hseen s hs).1).length_le
    omega

theorem reachesIn_of_walkToRoot {fuel : ℕ} {seen : List Cursor} {c : Cursor}
    (h : walkToRoot lineage start fuel seen c = .ok ()) : ∃ n, ReachesIn lineage n c := by
  induction fuel generalizing seen c with
  | zero => cases h
  | succ fuel ih =>
    rw [walkToRoot] at h
    split at h
    · cases h
    · split at h
      · cases h
      · rename_i hread
        exact ⟨0, hread⟩
      · rename_i p hread
        obtain ⟨n, hn⟩ := ih h
        exact ⟨n + 1, .inl ⟨p, hread, hn⟩⟩
      · rename_i text hread
        obtain ⟨n, hn⟩ := ih h
        exact ⟨n + 1, .inr ⟨text, hread, hn⟩⟩

/-- The walk from a state succeeds exactly where its parents lead to a root. -/
theorem reachesRoot_eq_ok (hparent : ∀ e ∈ lineage.entries, ∀ p ∈ e.2, p ∈ stateIds)
    (hstart : start ∈ stateIds) :
    reachesRoot stateIds lineage start = .ok () ↔ ∃ n, ReachesIn lineage n (.id start) := by
  constructor
  · exact reachesIn_of_walkToRoot
  · rintro ⟨n, hn⟩
    refine walkToRoot_of_reachesIn hparent hn ?_ List.nodup_nil ?_ ?_
    · exact List.mem_append_left _ (List.mem_map_of_mem hstart)
    · intro s hs
      cases hs
    · simp [nodes]

end walk

/-- What the checks between the fields of a snapshot establish. -/
structure Consistent (stateIds : List StateID) (lineage : Record (Option StateID)) (maxIndex : ℤ)
    (assigned : Record ℤ) : Prop where
  has_lineage : ∀ id ∈ stateIds, (lineage.read id).isSome
  lineage_registered : ∀ id ∈ lineage.keys, id ∈ stateIds
  parent_registered : ∀ e ∈ lineage.entries, ∀ p ∈ e.2, p ∈ stateIds
  reaches : ∀ id ∈ stateIds, ∃ n, ReachesIn lineage n (.id id)
  has_order : ∀ id ∈ stateIds, (assigned.read id).isSome
  order_registered : ∀ id ∈ assigned.keys, id ∈ stateIds
  max_empty : stateIds = [] → maxIndex = -1
  max_index : stateIds ≠ [] → maxAssigned assigned.values = some maxIndex
  nodup : stateIds ≠ [] → assigned.values.Nodup
  nonneg : stateIds ≠ [] → ∀ n ∈ assigned.values, 0 ≤ n

theorem require_eq_ok {condition : Bool} {message field : JsString} :
    require condition message field = .ok () ↔ condition = true := by
  rw [require]
  cases condition <;> simp

theorem validateSnapshotConsistency_eq_ok {stateIds : List StateID}
    {lineage : Record (Option StateID)} {maxIndex : ℤ} {assigned : Record ℤ} :
    validateSnapshotConsistency stateIds lineage maxIndex assigned = .ok () ↔
      Consistent stateIds lineage maxIndex assigned := by
  have hwalk : (∀ e ∈ lineage.entries, ∀ p ∈ e.2, p ∈ stateIds) →
      ((∀ id ∈ stateIds, reachesRoot stateIds lineage id = .ok ()) ↔
        ∀ id ∈ stateIds, ∃ n, ReachesIn lineage n (.id id)) := fun hparent =>
    forall₂_congr fun id hid => reachesRoot_eq_ok hparent hid
  rw [validateSnapshotConsistency]
  by_cases hids : stateIds = []
  · simp only [List.forM_eq_forM, bind_unit_eq_ok, forM_eq_ok, require_eq_ok, decide_eq_true_eq,
      Option.all_eq_true, if_pos hids]
    constructor
    · rintro ⟨h1, h2, h3, h4, h5, h6, h7⟩
      exact ⟨h1, h2, h3, (hwalk h3).mp h4, h5, h6, fun _ => h7, fun h => absurd hids h, fun h => absurd hids h,
        fun h => absurd hids h⟩
    · intro h
      exact ⟨h.has_lineage, h.lineage_registered, h.parent_registered,
        (hwalk h.parent_registered).mpr h.reaches, h.has_order, h.order_registered, h.max_empty hids⟩
  · simp only [List.forM_eq_forM, bind_unit_eq_ok, forM_eq_ok, require_eq_ok, decide_eq_true_eq,
      Option.all_eq_true, if_neg hids]
    constructor
    · rintro ⟨h1, h2, h3, h4, h5, h6, h7, h8, h9⟩
      exact ⟨h1, h2, h3, (hwalk h3).mp h4, h5, h6, fun h => absurd h hids, fun _ => h7, fun _ => h8, fun _ => h9⟩
    · intro h
      exact ⟨h.has_lineage, h.lineage_registered, h.parent_registered,
        (hwalk h.parent_registered).mpr h.reaches, h.has_order, h.order_registered, h.max_index hids, h.nodup hids, h.nonneg hids⟩

/-! ## The schema -/

theorem checkEntries_eq_ok {α : Type} {check : Json → Option α} {name expected : String}
    {es : List (JsString × Json)} {l : List (JsString × α)} :
    checkEntries check name expected es = .ok l ↔
      es.map (fun e => (e.1, check e.2)) = l.map fun e => (e.1, some e.2) := by
  induction es generalizing l with
  | nil => cases l <;> simp [checkEntries]
  | cons e es ih =>
    rw [checkEntries]
    cases hcheck : check e.2 with
    | none => cases l <;> simp [hcheck]
    | some a =>
      simp only [bind_eq_ok]
      constructor
      · rintro ⟨rest, hrest, h⟩
        cases h
        rw [List.map_cons, List.map_cons, ih.mp hrest, hcheck]
      · intro h
        cases l with
        | nil => cases h
        | cons f l =>
          obtain ⟨he, hrest⟩ := List.cons.inj h
          obtain ⟨h1, h2⟩ := Prod.mk.inj he
          rw [hcheck] at h2
          refine ⟨l, ih.mpr hrest, ?_⟩
          rw [h1, Option.some.inj h2]
          rfl

theorem checkStateIds_eq_ok {i : ℕ} {es : List Json} {ids : List StateID} :
    checkStateIds i es = .ok ids ↔ es = ids.map .str := by
  induction es generalizing i ids with
  | nil => cases ids <;> simp [checkStateIds]
  | cons e es ih =>
    cases e with
    | str s =>
      rw [checkStateIds, bind_eq_ok]
      constructor
      · rintro ⟨rest, hrest, h⟩
        cases h
        rw [ih.mp hrest, List.map_cons]
      · intro h
        cases ids with
        | nil => cases h
        | cons id ids =>
          obtain ⟨hs, hrest⟩ := List.cons.inj h
          cases hs
          exact ⟨ids, ih.mpr hrest, rfl⟩
    | _ => cases ids <;> simp [checkStateIds]

theorem objectField_eq_ok {value : Option Json} {field : String} {v : Json} :
    objectField value field = .ok v ↔ value = some v ∧ isObject v = true := by
  cases value with
  | none => simp [objectField]
  | some w =>
    rw [objectField]
    split
    · rename_i h
      constructor
      · intro hv
        cases hv
        exact ⟨rfl, h⟩
      · rintro ⟨hv, -⟩
        cases hv
        rfl
    · rename_i h
      constructor
      · intro hv
        cases hv
      · rintro ⟨hv, hobject⟩
        cases hv
        exact absurd hobject h

theorem validateStateIds_eq_ok {value : Option Json} {ids : List StateID} :
    validateStateIds value = .ok ids ↔ value = some (.arr (ids.map .str)) := by
  unfold validateStateIds
  split
  · rw [checkStateIds_eq_ok]
    simp
  · rename_i hne
    constructor
    · intro h
      cases h
    · intro h
      exact absurd h (hne _)

theorem validateMaxIndex_eq_ok {value : Option Json} {n : ℤ} :
    validateMaxIndex value = .ok n ↔ value.bind isInteger = some n := by
  rw [validateMaxIndex]
  cases value.bind isInteger <;> simp

/-- A snapshot value of the schema, and what is read of it. -/
structure Schema (raw : RawSnapshot) (s : RegistrarSnapshotV1) (l o a : Json) : Prop where
  object : isObject raw.value.val = true
  known : ∀ e ∈ ownEntries raw.value.val, e.1 ∈ knownFields
  version : validateVersion (raw.value.val.get? (js "version")) = .ok s.version
  registryHash : validateRegistryHash (raw.value.val.get? (js "registry_hash")) = .ok s.registryHash
  mode : validateMode (raw.value.val.get? (js "mode")) = .ok s.mode
  stateIds : raw.value.val.get? (js "state_ids") = some (.arr (s.stateIds.map .str))
  lineage : raw.value.val.get? (js "lineage") = some l
  lineageObject : isObject l = true
  parents : (ownEntries l).map (fun e => (e.1, isStringOrNull e.2)) =
    s.lineage.entries.map fun e => (e.1, some e.2)
  lineagePrototype : s.lineage.prototype = if raw.lineageBare then .nothing else prototypeOf l
  ordering : raw.value.val.get? (js "ordering") = some o
  orderingObject : isObject o = true
  maxIndex : (o.get? (js "max_index")).bind isInteger = some s.maxIndex
  assigned : o.get? (js "assigned") = some a
  assignedObject : isObject a = true
  indices : (ownEntries a).map (fun e => (e.1, isInteger e.2)) =
    s.assigned.entries.map fun e => (e.1, some e.2)
  assignedPrototype : s.assigned.prototype = prototypeOf a
  consistent : Consistent s.stateIds s.lineage s.maxIndex s.assigned

theorem validateSnapshot_eq_ok {raw : RawSnapshot} {s : RegistrarSnapshotV1} :
    validateSnapshot raw = .ok s ↔ ∃ l o a, Schema raw s l o a := by
  rw [validateSnapshot]
  dsimp only
  cases hobject : isObject raw.value.val with
  | false =>
    constructor
    · intro h
      cases h
    · rintro ⟨l, o, a, h⟩
      cases hobject.symm.trans h.object
  | true =>
    simp only [Bool.not_true, Bool.false_eq_true, if_false, List.forM_eq_forM, bind_eq_ok,
      Unique.exists_iff, PUnit.default_eq_unit, forM_eq_ok, require_eq_ok, decide_eq_true_eq,
      validateStateIds_eq_ok, objectField_eq_ok, checkEntries_eq_ok, validateMaxIndex_eq_ok,
      validateSnapshotConsistency_eq_ok]
    constructor
    · rintro ⟨hknown, version, hversion, hash, hhash, mode, hmode, ids, hids, l, ⟨hl, hlo⟩, parents,
        hparents, o, ⟨ho, hoo⟩, n, hn, a, ⟨ha, hao⟩, indices, hindices, hconsistent, h⟩
      cases h
      exact ⟨l, o, a, hobject, hknown, hversion, hhash, hmode, hids, hl, hlo, hparents, rfl, ho,
        hoo, hn, ha, hao, hindices, rfl, hconsistent⟩
    · rintro ⟨l, o, a, h⟩
      have hlineage : s.lineage =
          ⟨s.lineage.entries, if raw.lineageBare then .nothing else prototypeOf l⟩ := by
        rw [← h.lineagePrototype]
      have hassigned : s.assigned = ⟨s.assigned.entries, prototypeOf a⟩ := by
        rw [← h.assignedPrototype]
      refine ⟨h.known, _, h.version, _, h.registryHash, _, h.mode, _, h.stateIds, l,
        ⟨h.lineage, h.lineageObject⟩, _, h.parents, o, ⟨h.ordering, h.orderingObject⟩, _,
        h.maxIndex, a, ⟨h.assigned, h.assignedObject⟩, _, h.indices, ?_, ?_⟩
      · rw [← hlineage, ← hassigned]
        exact h.consistent
      · rw [← hlineage, ← hassigned]
        rfl

end Attestia.Registrum
