import Attestia.Registrum.History
import Attestia.Registrum.Rehydrator

/-!
# The history of a registrar

Every version stands under a key of its own, and its parent version has a lower order
index. So a lineage descends to a version without a recorded parent.
-/

namespace Attestia.Registrum

open Lib JsonNumber

/-! ## Version keys -/

theorem indexString_injective : Function.Injective indexString := by
  intro m n h
  have htext := JsString.units_injective h
  have hparse := congrArg parseNumber htext
  simp only [Number.ofInt] at hparse
  rw [parseNumber_numberText (decimal_intCast m), parseNumber_numberText (decimal_intCast n)] at hparse
  exact_mod_cast Option.some.inj hparse

/-- The text of an index has no separator in it. -/
theorem separator_not_mem_indexString (n : ℤ) : (35 : UInt16) ∉ indexString n := by
  intro h
  obtain ⟨c, hc, hunit⟩ := List.mem_flatMap.mp h
  have hnum := isNumberChar_of_mem_numberText hc
  simp only [isNumberChar, Char.isDigit, Bool.or_eq_true, Bool.and_eq_true, decide_eq_true_eq,
    UInt32.le_iff_toNat_le] at hnum
  obtain ((((⟨h0, h9⟩ | rfl) | rfl) | rfl) | rfl) | rfl := hnum
  · change 48 ≤ c.toNat at h0
    change c.toNat ≤ 57 at h9
    rw [JsString.utf16, if_pos (by omega), List.mem_singleton] at hunit
    have hval := congrArg UInt16.toNat hunit
    rw [UInt16.toNat_ofNat', Nat.mod_eq_of_lt (by omega)] at hval
    change 35 = c.toNat at hval
    omega
  all_goals revert hunit; decide

/-- A list is cut at its last element of a kind in one way. -/
theorem append_cons_inj_of_notMem_right {α : Type*} {x : α} {a b s t : List α} (hs : x ∉ s)
    (ht : x ∉ t) (h : a ++ x :: s = b ++ x :: t) : a = b ∧ s = t := by
  rcases List.append_eq_append_iff.mp h with ⟨d, rfl, hd⟩ | ⟨d, rfl, hd⟩
  · cases d with
    | nil => exact ⟨(List.append_nil a).symm, (List.cons.inj hd).2⟩
    | cons y d => exact absurd ((List.cons.inj hd).2 ▸ by simp) hs
  · cases d with
    | nil => exact ⟨List.append_nil b, (List.cons.inj hd).2.symm⟩
    | cons y d => exact absurd ((List.cons.inj hd).2 ▸ by simp) ht

theorem makeVersionKey_inj {a b : StateID} {m n : ℤ} :
    makeVersionKey a m = makeVersionKey b n ↔ a = b ∧ m = n := by
  constructor
  · intro h
    have hjs : js "#" = [35] := by decide
    simp only [makeVersionKey, hjs, List.append_assoc, List.singleton_append] at h
    obtain ⟨hid, hindex⟩ := append_cons_inj_of_notMem_right (separator_not_mem_indexString m)
      (separator_not_mem_indexString n) h
    exact ⟨hid, indexString_injective hindex⟩
  · rintro ⟨rfl, rfl⟩
    rfl

/-! ## Keys and links -/

namespace Registrar

/-- Every version stands under its own key, and below the cursor while that counts. -/
structure Keyed (r : Registrar) : Prop where
  cursor : 0 ≤ r.currentOrderIndex
  key {k : JsString} {v : RegisteredState} (h : r.versionsByKey.get? k = some v) :
    k = makeVersionKey v.id v.orderIndex
  versionKey {k : JsString} {v : RegisteredState} (h : r.versionsByKey.get? k = some v) :
    v.versionKey = k
  below {k : JsString} {v : RegisteredState} (h : r.versionsByKey.get? k = some v) :
    v.orderIndex < r.currentOrderIndex ∨ safeBound ≤ r.currentOrderIndex

/-- The parent of a version is an earlier one, and the latest version of an id is one of its. -/
structure Linked (r : Registrar) : Prop extends Keyed r where
  parent {k p : JsString} {v : RegisteredState} (h : r.versionsByKey.get? k = some v)
    (hp : v.parentKey = some p) :
    ∃ u, r.versionsByKey.get? p = some u ∧ u.orderIndex < v.orderIndex ∧ v.parentId = some u.id
  latest {id : StateID} {v : RegisteredState} (h : r.latestById.get? id = some v) :
    v.id = id ∧ r.versionsByKey.get? v.versionKey = some v

theorem keyed_new (engine : Engine) : Keyed (new engine) where
  cursor := le_rfl
  key h := by cases h
  versionKey h := by cases h
  below h := by cases h

theorem linked_new (engine : Engine) : Linked (new engine) where
  toKeyed := keyed_new engine
  parent h := by cases h
  latest h := by cases h

theorem Keyed.withStatus {r : Registrar} (h : r.Keyed) (status : Option ParityStatus) :
    (r.withStatus status).Keyed :=
  ⟨h.cursor, h.key, h.versionKey, h.below⟩

theorem Linked.withStatus {r : Registrar} (h : r.Linked) (status : Option ParityStatus) :
    (r.withStatus status).Linked :=
  ⟨h.toKeyed.withStatus status, h.parent, h.latest⟩

/-- Below the bound the next key is new. -/
theorem Keyed.next_not_mem {r : Registrar} (h : r.Keyed) (hlt : r.currentOrderIndex < safeBound)
    (t : Transition) : (r.nextVersion t).versionKey ∉ r.versionsByKey.keys := by
  intro hmem
  obtain ⟨v, hv⟩ := JsMap.mem_keys.mp hmem
  obtain ⟨-, hindex⟩ := makeVersionKey_inj.mp (h.key hv)
  have hbelow := h.below hv
  rw [← hindex] at hbelow
  omega

theorem Keyed.cursor_advance {r : Registrar} (h : r.Keyed) :
    0 ≤ r.advanced.currentOrderIndex ∧
      (r.currentOrderIndex < r.advanced.currentOrderIndex ∨
        safeBound ≤ r.advanced.currentOrderIndex) := by
  rcases lt_or_ge r.currentOrderIndex safeBound with hlt | hge
  · have hnext : r.advanced.currentOrderIndex = r.currentOrderIndex + 1 :=
      roundDouble_add_one h.cursor hlt
    have hcursor := h.cursor
    omega
  · have hround := safeBound_le_roundDouble (show safeBound ≤ r.currentOrderIndex + 1 by omega)
    exact ⟨le_trans (by decide) hround, .inr hround⟩

theorem get?_appended (r : Registrar) (t : Transition) (k : JsString) :
    (r.appended t).versionsByKey.get? k =
      if (r.nextVersion t).versionKey = k then some (r.nextVersion t)
      else r.versionsByKey.get? k :=
  JsMap.get?_set _ _ _ _

theorem get?_latest_appended (r : Registrar) (t : Transition) (id : StateID) :
    (r.appended t).latestById.get? id =
      if t.toState.id = id then some (r.nextVersion t) else r.latestById.get? id :=
  JsMap.get?_set _ _ _ _

/-- An old version is found where it was. -/
theorem Keyed.get?_appended_of_some {r : Registrar} (h : r.Keyed)
    (hlt : r.currentOrderIndex < safeBound) (t : Transition) {k : JsString} {u : RegisteredState}
    (hu : r.versionsByKey.get? k = some u) : (r.appended t).versionsByKey.get? k = some u := by
  rw [get?_appended, if_neg, hu]
  rintro rfl
  exact h.next_not_mem hlt t (JsMap.mem_keys.mpr ⟨u, hu⟩)

/-- A version of the history after an accepted transition. -/
theorem version_appended {r : Registrar} {t : Transition} {k : JsString} {v : RegisteredState}
    (h : (r.appended t).versionsByKey.get? k = some v) :
    (k = (r.nextVersion t).versionKey ∧ v = r.nextVersion t) ∨ r.versionsByKey.get? k = some v := by
  rw [get?_appended] at h
  split at h
  · rename_i hk
    exact .inl ⟨hk.symm, (Option.some.inj h).symm⟩
  · exact .inr h

theorem Keyed.advanced {r : Registrar} (h : r.Keyed) : r.advanced.Keyed where
  cursor := h.cursor_advance.1
  key := h.key
  versionKey := h.versionKey
  below hv := by
    rcases h.below hv with hlt | hge
    · rcases h.cursor_advance.2 with hcursor | hcursor
      · exact .inl (hlt.trans hcursor)
      · exact .inr hcursor
    · exact .inr (safeBound_le_roundDouble (by omega))

theorem Keyed.appended {r : Registrar} (h : r.Keyed) (t : Transition) : (r.appended t).Keyed where
  cursor := h.cursor_advance.1
  key hv := by
    rcases version_appended hv with ⟨rfl, rfl⟩ | hv
    · rfl
    · exact h.key hv
  versionKey hv := by
    rcases version_appended hv with ⟨rfl, rfl⟩ | hv
    · rfl
    · exact h.versionKey hv
  below hv := by
    rcases version_appended hv with ⟨rfl, rfl⟩ | hv
    · exact h.cursor_advance.2
    · exact h.advanced.below hv

theorem Keyed.register {r : Registrar} (h : r.Keyed) (t : Transition) : (r.register t).1.Keyed := by
  rcases r.outcome_register t with ⟨status, h1, -⟩ | ⟨status, h1, -, -⟩ | ⟨status, h1, -, -⟩
  · rw [h1]
    exact h.withStatus status
  · rw [h1]
    exact h.advanced.withStatus status
  · rw [h1]
    exact (h.appended t).withStatus status

theorem Linked.appended {r : Registrar} (h : r.Linked) (hlt : r.currentOrderIndex < safeBound)
    (t : Transition) : (r.appended t).Linked where
  toKeyed := h.toKeyed.appended t
  parent {k p v} hv hp := by
    rcases version_appended hv with ⟨rfl, rfl⟩ | hv
    · obtain ⟨u, hu, rfl⟩ := Option.map_eq_some_iff.mp hp
      obtain ⟨parent, hfrom, hlatest⟩ := Option.bind_eq_some_iff.mp hu
      obtain ⟨hid, hversion⟩ := h.latest hlatest
      refine ⟨u, h.get?_appended_of_some hlt t hversion, ?_, ?_⟩
      · have hbelow := h.below hversion
        change u.orderIndex < r.currentOrderIndex
        omega
      · rw [hid]
        exact hfrom
    · obtain ⟨u, hu, hindex, hid⟩ := h.parent hv hp
      exact ⟨u, h.get?_appended_of_some hlt t hu, hindex, hid⟩
  latest {id v} hv := by
    rw [get?_latest_appended] at hv
    split at hv
    · rename_i hid
      cases hv
      refine ⟨hid, ?_⟩
      rw [get?_appended, if_pos rfl]
    · obtain ⟨hid, hversion⟩ := h.latest hv
      exact ⟨hid, h.get?_appended_of_some hlt t hversion⟩

/-- What a call can do while the cursor counts. -/
theorem Keyed.register_cases {r : Registrar} (h : r.Keyed) (hlt : r.currentOrderIndex < safeBound)
    (t : Transition) :
    ∃ status, ((r.register t).1 = r.withStatus status ∧ acceptedIndex (r.register t).2 = none) ∨
      ((r.register t).1 = (r.appended t).withStatus status ∧
        acceptedIndex (r.register t).2 = some r.currentOrderIndex) := by
  rcases r.outcome_register t with ⟨status, h1, h2⟩ | ⟨_, _, _, hkey⟩ | ⟨status, h1, h2, _⟩
  · exact ⟨status, .inl ⟨h1, h2⟩⟩
  · exact absurd hkey (h.next_not_mem hlt t)
  · exact ⟨status, .inr ⟨h1, h2⟩⟩

theorem Linked.register {r : Registrar} (h : r.Linked) (hlt : r.currentOrderIndex < safeBound)
    (t : Transition) : (r.register t).1.Linked := by
  obtain ⟨status, ⟨h1, -⟩ | ⟨h1, -⟩⟩ := h.register_cases hlt t
  · rw [h1]
    exact h.withStatus status
  · rw [h1]
    exact (h.appended hlt t).withStatus status

/-! ## Lineage -/

/-- A walk reaches a version without a recorded parent, by decreasing order indices. -/
structure Descends (v : RegisteredState) (walk : List RegisteredState × LineageEnd) : Prop where
  end_eq : walk.2 = .root
  head : walk.1.head? = some v
  decreasing : walk.1.Pairwise fun a b => b.orderIndex < a.orderIndex
  root : ∀ u, walk.1.getLast? = some u → u.parentKey = none

theorem Descends.le {v : RegisteredState} {walk : List RegisteredState × LineageEnd}
    (h : Descends v walk) {u : RegisteredState} (hu : u ∈ walk.1) :
    u.orderIndex ≤ v.orderIndex := by
  obtain ⟨rest, hrest⟩ := List.head?_eq_some_iff.mp h.head
  have hdecreasing := h.decreasing
  rw [hrest, List.pairwise_cons] at hdecreasing
  rw [hrest] at hu
  rcases List.mem_cons.mp hu with rfl | hu
  · exact le_rfl
  · exact (hdecreasing.1 u hu).le

/-- The keys that a walk has visited before it comes to a version: each of a later one. -/
structure Visited (r : Registrar) (visited : List JsString) (v : RegisteredState) : Prop where
  nodup : visited.Nodup
  later : ∀ k ∈ visited, ∃ u, r.versionsByKey.get? k = some u ∧ v.orderIndex < u.orderIndex

theorem visited_nil (r : Registrar) (v : RegisteredState) : Visited r [] v :=
  ⟨List.nodup_nil, fun _ hk => (nomatch hk)⟩

theorem Visited.length_le {r : Registrar} {visited : List JsString} {v : RegisteredState}
    (h : Visited r visited v) : visited.length ≤ r.versionsByKey.entries.length := by
  -- the visited keys are distinct keys of the map
  have hsubset : visited ⊆ r.versionsByKey.keys := fun k hk =>
    (h.later k hk).elim fun u hu => JsMap.mem_keys.mpr ⟨u, hu.1⟩
  have hle := (h.nodup.subperm hsubset).length_le
  rwa [JsMap.keys, List.length_map] at hle

theorem Visited.not_mem {r : Registrar} {visited : List JsString} {v : RegisteredState}
    (h : Visited r visited v) (hv : r.versionsByKey.get? v.versionKey = some v) :
    v.versionKey ∉ visited := by
  intro hmem
  obtain ⟨u, hu, hlt⟩ := h.later _ hmem
  cases hv.symm.trans hu
  exact lt_irrefl _ hlt

theorem Visited.cons {r : Registrar} {visited : List JsString} {v u : RegisteredState}
    (h : Visited r visited v) (hv : r.versionsByKey.get? v.versionKey = some v)
    (hlt : u.orderIndex < v.orderIndex) : Visited r (v.versionKey :: visited) u where
  nodup := List.nodup_cons.mpr ⟨h.not_mem hv, h.nodup⟩
  later k hk := by
    rcases List.mem_cons.mp hk with rfl | hk
    · exact ⟨v, hv, hlt⟩
    · obtain ⟨w, hw, hvw⟩ := h.later k hk
      exact ⟨w, hw, hlt.trans hvw⟩

/-- The walk from a version that lies below all that were visited. -/
theorem Linked.descends_lineageWalk {r : Registrar} (h : r.Linked) :
    ∀ (fuel : ℕ) (visited : List JsString) (v : RegisteredState),
      r.versionsByKey.get? v.versionKey = some v → Visited r visited v →
      r.versionsByKey.entries.length < fuel + visited.length →
        Descends v (r.lineageWalk fuel visited v) := by
  intro fuel
  induction fuel with
  | zero =>
    intro visited v _ hvisited hfuel
    have hle := hvisited.length_le
    omega
  | succ fuel ih =>
    intro visited v hv hvisited hfuel
    rw [lineageWalk, if_neg (hvisited.not_mem hv)]
    cases hp : v.parentKey with
    | none =>
      refine ⟨rfl, rfl, List.pairwise_singleton _ _, fun u hu => ?_⟩
      cases hu
      exact hp
    | some p =>
      obtain ⟨u, hu, hlt, -⟩ := h.parent hv hp
      have hwalk := ih (v.versionKey :: visited) u (by rw [h.versionKey hu, hu])
        (hvisited.cons hv hlt) (by rw [List.length_cons]; omega)
      dsimp only
      rw [hu]
      dsimp only
      refine ⟨hwalk.end_eq, rfl, ?_, ?_⟩
      · apply List.pairwise_cons.mpr
        exact ⟨fun w hw => (hwalk.le hw).trans_lt hlt, hwalk.decreasing⟩
      · obtain ⟨rest, hrest⟩ := List.head?_eq_some_iff.mp hwalk.head
        intro w hw
        apply hwalk.root w
        rw [hrest] at hw ⊢
        rwa [List.getLast?_cons_cons] at hw

theorem Linked.descends_lineageFrom {r : Registrar} (h : r.Linked) {id : StateID}
    {v : RegisteredState} (hv : r.latestById.get? id = some v) : Descends v (r.lineageFrom v) := by
  apply h.descends_lineageWalk _ _ _ (h.latest hv).2 (r.visited_nil v)
  rw [List.length_nil]
  omega

/-! ## What reads the history alone -/

theorem lineageWalk_congr (r r' : Registrar) (h : r'.versionsByKey = r.versionsByKey) (fuel : ℕ)
    (visited : List JsString) (v : RegisteredState) :
    r'.lineageWalk fuel visited v = r.lineageWalk fuel visited v := by
  induction fuel generalizing visited v with
  | zero => rfl
  | succ fuel ih =>
    rw [lineageWalk, lineageWalk, h]
    simp only [ih]

theorem resolveWalk_congr (r r' : Registrar) (h : r'.versionsByKey = r.versionsByKey) (id : StateID)
    (fuel : ℕ) (visited : List JsString) (v : RegisteredState) :
    r'.resolveWalk id fuel visited v = r.resolveWalk id fuel visited v := by
  induction fuel generalizing visited v with
  | zero => rfl
  | succ fuel ih =>
    rw [resolveWalk, resolveWalk, h]
    simp only [ih]

theorem getLineage_withStatus (r : Registrar) (status : Option ParityStatus) (id : StateID) :
    (r.withStatus status).getLineage id = r.getLineage id := by
  have hwalk : (r.withStatus status).lineageFrom = r.lineageFrom := by
    funext v
    exact lineageWalk_congr r (r.withStatus status) rfl _ _ _
  rw [getLineage, getLineage, hwalk]
  rfl

theorem snapshot_withStatus (r : Registrar) (status : Option ParityStatus) :
    (r.withStatus status).snapshot = r.snapshot := by
  have hresolve : (r.withStatus status).resolveSnapshotParentId = r.resolveSnapshotParentId := by
    funext v
    exact resolveWalk_congr r (r.withStatus status) rfl _ _ _ _
  rw [snapshot, snapshotValue, lineageJson, hresolve]
  rfl

end Registrar

end Attestia.Registrum
