import Attestia.Registrum.Ancestry
import Attestia.Registrum.SnapshotSchema

/-!
# The frontier of a run

The latest versions that calls of `register` lead to, under what the calls have to meet for a
snapshot of them to be valid.
-/

namespace Attestia.Registrum

open Lib JsonNumber

namespace Registrar

/-! ## Order -/

/-- Every version lies below the cursor, and the latest versions have indices of their own. -/
structure Ordered (r : Registrar) : Prop extends Linked r where
  inRange : r.currentOrderIndex ≤ safeBound
  earlier {k : JsString} {v : RegisteredState} (h : r.versionsByKey.get? k = some v) :
    0 ≤ v.orderIndex ∧ v.orderIndex < r.currentOrderIndex
  distinct {a b : StateID} {v w : RegisteredState} (hv : r.latestById.get? a = some v)
    (hw : r.latestById.get? b = some w) (h : v.orderIndex = w.orderIndex) : a = b

theorem Ordered.latest_earlier {r : Registrar} (h : r.Ordered) {id : StateID}
    {v : RegisteredState} (hv : r.latestById.get? id = some v) :
    0 ≤ v.orderIndex ∧ v.orderIndex < r.currentOrderIndex :=
  h.earlier (h.latest hv).2

theorem ordered_new (engine : Engine) : Ordered (new engine) where
  toLinked := linked_new engine
  inRange := show (0 : ℤ) ≤ safeBound by decide
  earlier h := by cases h
  distinct h := by cases h

theorem Ordered.withStatus {r : Registrar} (h : r.Ordered) (status : Option ParityStatus) :
    (r.withStatus status).Ordered :=
  ⟨h.toLinked.withStatus status, h.inRange, h.earlier, h.distinct⟩

/-- The guard of the keys is never reached. -/
theorem Ordered.next_not_mem {r : Registrar} (h : r.Ordered) (t : Transition) :
    (r.nextVersion t).versionKey ∉ r.versionsByKey.keys := by
  intro hmem
  obtain ⟨v, hv⟩ := JsMap.mem_keys.mp hmem
  obtain ⟨-, hindex⟩ := makeVersionKey_inj.mp (h.key hv)
  have hearlier := h.earlier hv
  omega

theorem cursor_appended {r : Registrar} (h0 : 0 ≤ r.currentOrderIndex)
    (hlt : r.currentOrderIndex < safeBound) (t : Transition) :
    (r.appended t).currentOrderIndex = r.currentOrderIndex + 1 :=
  roundDouble_add_one h0 hlt

theorem Ordered.appended {r : Registrar} (h : r.Ordered) (hlt : r.currentOrderIndex < safeBound)
    (t : Transition) : (r.appended t).Ordered where
  toLinked := h.toLinked.appended hlt t
  inRange := by
    rw [cursor_appended h.cursor hlt]
    omega
  earlier hv := by
    have hcursor := h.cursor
    rw [cursor_appended h.cursor hlt]
    rcases version_appended hv with ⟨-, rfl⟩ | hv
    · change 0 ≤ r.currentOrderIndex ∧ r.currentOrderIndex < r.currentOrderIndex + 1
      omega
    · have hearlier := h.earlier hv
      omega
  distinct {a b v w} hv hw hvw := by
    -- the new index is above all old ones
    have hnew : ∀ {id u}, r.latestById.get? id = some u →
        u.orderIndex ≠ (r.nextVersion t).orderIndex := by
      intro id u hu
      exact (h.latest_earlier hu).2.ne
    rw [get?_latest_appended] at hv hw
    split at hv <;> split at hw
    · rename_i ha hb
      rw [← ha, hb]
    · cases hv
      exact absurd hvw.symm (hnew hw)
    · cases hw
      exact absurd hvw (hnew hv)
    · exact h.distinct hv hw hvw

/-! ## Calls -/

theorem register_of_refuse {r : Registrar} {t : Transition} {recorded : Option ParityStatus}
    {result : Except RegisterError RegistrationResult}
    (h : r.decision t = .refuse recorded result) :
    ∃ status, r.register t = (r.withStatus status, result) := by
  obtain ⟨status, hstatus⟩ := r.exists_record recorded
  refine ⟨status, ?_⟩
  rw [register_eq_carryOut, h, carryOut, hstatus]

theorem Ordered.register_of_accept {r : Registrar} (hr : r.Ordered) {t : Transition}
    {recorded : Option ParityStatus} {applied : List JsString}
    (h : r.decision t = .accept recorded applied) :
    ∃ status, r.register t = ((r.appended t).withStatus status,
      .ok (.accepted t.toState.id r.currentOrderIndex applied)) := by
  obtain ⟨status, hstatus⟩ := r.exists_record recorded
  refine ⟨status, ?_⟩
  rw [register_eq_carryOut, h, carryOut, hstatus, acceptTransition_withStatus,
    if_neg (hr.next_not_mem t)]

/-- What a call does, where an accepted one has an index below the bound. -/
theorem Ordered.register_cases {r : Registrar} (h : r.Ordered) (t : Transition) :
    ∃ status, ((r.register t).1 = r.withStatus status ∧ acceptedIndex (r.register t).2 = none) ∨
      ((r.register t).1 = (r.appended t).withStatus status ∧
        (acceptedIndex (r.register t).2).isSome) := by
  cases hdecision : r.decision t with
  | refuse recorded result =>
    obtain ⟨status, hregister⟩ := register_of_refuse hdecision
    rw [hregister]
    exact ⟨status, .inl ⟨rfl, acceptedIndex_of_decision hdecision⟩⟩
  | accept recorded applied =>
    obtain ⟨status, hregister⟩ := h.register_of_accept hdecision
    rw [hregister]
    exact ⟨status, .inr ⟨rfl, rfl⟩⟩

/-- The call gets an index that a number can hold, if it gets one. -/
def Counts (r : Registrar) (t : Transition) : Prop :=
  (acceptedIndex (r.register t).2).isSome → r.currentOrderIndex < safeBound

theorem Ordered.register {r : Registrar} (h : r.Ordered) {t : Transition} (ht : r.Counts t) :
    (r.register t).1.Ordered := by
  obtain ⟨status, ⟨h1, -⟩ | ⟨h1, hindex⟩⟩ := h.register_cases t
  · rw [h1]
    exact h.withStatus status
  · rw [h1]
    exact (h.appended (ht hindex) t).withStatus status

/-! ## Parents -/

/-- An id that the parents of another lead to. -/
def Ancestor (r : Registrar) : StateID → StateID → Prop :=
  Relation.ReflTransGen fun p id => r.parentOf id = some p

/-- The parent is the id itself, or a registered one that does not descend from it. -/
def Rooted (r : Registrar) (t : Transition) : Prop :=
  ∀ p, t.fromId = some p →
    p = t.toState.id ∨ (p ∈ r.latestById.keys ∧ ¬ r.Ancestor t.toState.id p)

/-- What a call has to meet, if it accepts. -/
def Storing (r : Registrar) (t : Transition) : Prop :=
  (acceptedIndex (r.register t).2).isSome →
    r.currentOrderIndex < safeBound ∧ t.toState.id ≠ js "__proto__" ∧ r.Rooted t

/-- The parents are registered, and they lead to roots. -/
def Grounded (r : Registrar) : Prop :=
  ∃ rank : StateID → ℕ, ∀ id p, r.parentOf id = some p →
    p ∈ r.latestById.keys ∧ rank p < rank id

theorem Grounded.appended {r : Registrar} (hr : r.Linked) (h : r.Grounded)
    (hlt : r.currentOrderIndex < safeBound) {t : Transition} (ht : r.Rooted t) :
    (r.appended t).Grounded := by
  obtain ⟨rank, hrank⟩ := h
  have hkeys : ∀ {id}, id ∈ r.latestById.keys → id ∈ (r.appended t).latestById.keys := by
    intro id hid
    exact JsMap.mem_keys_set.mpr (.inr hid)
  by_cases hmoved : ∃ p, t.fromId = some p ∧ p ≠ t.toState.id
  · obtain ⟨p, hfrom, hp⟩ := hmoved
    obtain ⟨hpmem, hancestor⟩ := (ht p hfrom).resolve_left hp
    -- the id moves above its new parent, with all that descend from it
    classical
    refine ⟨fun x => if r.Ancestor t.toState.id x then rank x + rank p + 1 else rank x, ?_⟩
    intro id q hq
    dsimp only
    rw [hr.parentOf_appended hlt] at hq
    split at hq
    · rename_i hid
      have hqp : q = p := Option.some.inj (hq.symm.trans hfrom)
      have hself : r.Ancestor t.toState.id t.toState.id := .refl
      rw [hqp, ← hid.1, if_neg hancestor, if_pos hself]
      exact ⟨hkeys hpmem, by omega⟩
    · obtain ⟨hqmem, hqlt⟩ := hrank id q hq
      refine ⟨hkeys hqmem, ?_⟩
      by_cases hqa : r.Ancestor t.toState.id q
      · have hida : r.Ancestor t.toState.id id := hqa.tail hq
        rw [if_pos hqa, if_pos hida]
        omega
      · rw [if_neg hqa]
        split <;> omega
  · refine ⟨rank, fun id q hq => ?_⟩
    rw [hr.parentOf_appended hlt] at hq
    split at hq
    · rename_i hid
      exact absurd ⟨q, hq, fun hqid => hid.2 (by rw [hq, hqid, hid.1])⟩ hmoved
    · obtain ⟨hqmem, hqlt⟩ := hrank id q hq
      exact ⟨hkeys hqmem, hqlt⟩

/-! ## Storable runs -/

/-- The frontier of a run whose calls have all met what storing asks. -/
structure Lasting (r : Registrar) : Prop extends Ordered r where
  top : r.currentOrderIndex = 0 ∧ r.latestById.keys = [] ∨
    ∃ id v, r.latestById.get? id = some v ∧ v.orderIndex + 1 = r.currentOrderIndex
  proto : js "__proto__" ∉ r.latestById.keys
  grounded : r.Grounded

theorem lasting_new (engine : Engine) : Lasting (new engine) where
  toOrdered := ordered_new engine
  top := .inl ⟨rfl, rfl⟩
  proto := List.not_mem_nil
  grounded := ⟨fun _ => 0, fun _ _ h => by cases h⟩

theorem Lasting.withStatus {r : Registrar} (h : r.Lasting) (status : Option ParityStatus) :
    (r.withStatus status).Lasting where
  toOrdered := h.toOrdered.withStatus status
  top := h.top
  proto := h.proto
  grounded := by
    rw [Grounded, parentOf_withStatus]
    exact h.grounded

theorem Lasting.appended {r : Registrar} (h : r.Lasting) (hlt : r.currentOrderIndex < safeBound)
    {t : Transition} (hid : t.toState.id ≠ js "__proto__") (hrooted : r.Rooted t) :
    (r.appended t).Lasting where
  toOrdered := h.toOrdered.appended hlt t
  top := by
    refine .inr ⟨t.toState.id, r.nextVersion t, ?_, ?_⟩
    · rw [get?_latest_appended, if_pos rfl]
    · rw [cursor_appended h.cursor hlt]
      rfl
  proto hmem := (JsMap.mem_keys_set.mp hmem).elim (fun heq => hid heq.symm) h.proto
  grounded := h.grounded.appended h.toLinked hlt hrooted

theorem Lasting.register {r : Registrar} (h : r.Lasting) {t : Transition} (ht : r.Storing t) :
    (r.register t).1.Lasting := by
  obtain ⟨status, ⟨h1, -⟩ | ⟨h1, hindex⟩⟩ := h.register_cases t
  · rw [h1]
    exact h.withStatus status
  · obtain ⟨hlt, hid, hrooted⟩ := ht hindex
    rw [h1]
    exact (h.appended hlt hid hrooted).withStatus status

theorem mem_latest_values {r : Registrar} {v : RegisteredState} :
    v ∈ r.latestById.values ↔ ∃ id, r.latestById.get? id = some v := by
  rw [JsMap.values, List.mem_map]
  constructor
  · rintro ⟨⟨id, w⟩, he, rfl⟩
    exact ⟨id, JsMap.get?_eq_some.mpr he⟩
  · rintro ⟨id, hv⟩
    exact ⟨(id, v), JsMap.get?_eq_some.mp hv, rfl⟩

theorem Ordered.nodup_indices {r : Registrar} (h : r.Ordered) :
    (r.latestById.values.map RegisteredState.orderIndex).Nodup := by
  rw [JsMap.values, List.map_map]
  apply List.Nodup.map_on _ (List.Nodup.of_map _ r.latestById.nodup)
  intro a ha b hb hab
  have hid := h.distinct (JsMap.get?_eq_some.mpr ha) (JsMap.get?_eq_some.mpr hb) hab
  exact List.inj_on_of_nodup_map r.latestById.nodup ha hb hid

theorem Lasting.storable {r : Registrar} (h : r.Lasting) : r.Storable where
  ids hv := (h.latest hv).1
  proto := h.proto
  nonneg hv := by
    obtain ⟨id, hv⟩ := mem_latest_values.mp hv
    exact (h.latest_earlier hv).1
  distinct := h.nodup_indices
  max_empty hvalues := by
    have hcursor : r.currentOrderIndex = 0 := by
      rcases h.top with ⟨hcursor, -⟩ | ⟨id, v, hv, -⟩
      · exact hcursor
      · have hmem := mem_latest_values.mpr ⟨id, hv⟩
        rw [hvalues] at hmem
        cases hmem
    rw [hcursor]
    decide
  max_index hvalues := by
    rw [roundDouble_sub_one h.cursor h.inRange]
    rcases h.top with ⟨-, hkeys⟩ | ⟨id, v, hv, hindex⟩
    · have hentries : r.latestById.entries = [] := List.map_eq_nil_iff.mp hkeys
      exact absurd (by rw [JsMap.values, hentries]; rfl) hvalues
    · refine List.max?_eq_some_iff.mpr ⟨?_, fun n hn => ?_⟩
      · refine List.mem_map.mpr ⟨v, mem_latest_values.mpr ⟨id, hv⟩, ?_⟩
        omega
      · obtain ⟨w, hw, rfl⟩ := List.mem_map.mp hn
        obtain ⟨i, hw⟩ := mem_latest_values.mp hw
        have hearlier := h.latest_earlier hw
        omega
  parents := by
    obtain ⟨rank, hrank⟩ := h.grounded
    refine ⟨rank, fun v hv p hp => ?_⟩
    obtain ⟨id, hv⟩ := mem_latest_values.mp hv
    obtain ⟨rfl, -⟩ := h.latest hv
    apply hrank
    rw [parentOf, hv, Option.bind_some, hp]

end Registrar

end Attestia.Registrum
