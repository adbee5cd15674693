import Mathlib.Logic.Relation
import Attestia.Registrum.VersionHistory

/-!
# Parents between ids

`resolveSnapshotParentId`: the versions of an id lead back to a version under another id, or
to a root. What they lead to does not change while the history grows.
-/

namespace Attestia.Registrum

open Lib

namespace Registrar

/-- The id that a version under `id` leads to. -/
inductive Resolves (r : Registrar) (id : StateID) : RegisteredState → Option StateID → Prop
  | root {v : RegisteredState} (h : v.parentId = none) : Resolves r id v none
  | cross {v : RegisteredState} {p : StateID} (h : v.parentId = some p) (hne : p ≠ id) :
      Resolves r id v (some p)
  | cut {v : RegisteredState} (h : v.parentId = some id) (hkey : v.parentKey = none) :
      Resolves r id v none
  | back {v u : RegisteredState} {k : JsString} {p : Option StateID} (h : v.parentId = some id)
      (hkey : v.parentKey = some k) (hu : r.versionsByKey.get? k = some u)
      (hrest : Resolves r id u p) : Resolves r id v p

theorem Resolves.unique {r : Registrar} {id : StateID} {v : RegisteredState}
    {p q : Option StateID} (hp : Resolves r id v p) (hq : Resolves r id v q) : p = q := by
  induction hp with
  | root h =>
    cases hq with
    | root => rfl
    | cross h' => cases h.symm.trans h'
    | cut => rfl
    | back h' => cases h.symm.trans h'
  | cross h hne =>
    cases hq with
    | root h' => cases h.symm.trans h'
    | cross h' => rw [← h, ← h']
    | cut h' => exact absurd (Option.some.inj (h.symm.trans h')) hne
    | back h' => exact absurd (Option.some.inj (h.symm.trans h')) hne
  | cut h hkey =>
    cases hq with
    | root => rfl
    | cross h' hne => exact absurd (Option.some.inj (h'.symm.trans h)) hne
    | cut => rfl
    | back _ hkey' => cases hkey.symm.trans hkey'
  | back h hkey hu _ ih =>
    cases hq with
    | root h' => cases h.symm.trans h'
    | cross h' hne => exact absurd (Option.some.inj (h'.symm.trans h)) hne
    | cut _ hkey' => cases hkey.symm.trans hkey'
    | back _ hkey' hu' hrest =>
      cases hkey.symm.trans hkey'
      cases hu.symm.trans hu'
      exact ih hrest

theorem Resolves.mono {r r' : Registrar} {id : StateID} {v : RegisteredState}
    {p : Option StateID} (h : Resolves r id v p)
    (hsub : ∀ k u, r.versionsByKey.get? k = some u → r'.versionsByKey.get? k = some u) :
    Resolves r' id v p := by
  induction h with
  | root h => exact .root h
  | cross h hne => exact .cross h hne
  | cut h hkey => exact .cut h hkey
  | back h hkey hu _ ih => exact .back h hkey (hsub _ _ hu) ih

theorem Resolves.ne {r : Registrar} {id p : StateID} {v : RegisteredState}
    (h : Resolves r id v (some p)) : p ≠ id := by
  generalize hq : some p = q at h
  induction h with
  | root => cases hq
  | cross _ hne =>
    cases hq
    exact hne
  | cut => cases hq
  | back _ _ _ _ ih => exact ih hq

/-- The walk stops before its fuel ends, since it goes back to earlier versions. -/
theorem Linked.resolves_resolveWalk {r : Registrar} (h : r.Linked) (id : StateID) :
    ∀ (fuel : ℕ) (visited : List JsString) (v : RegisteredState),
      r.versionsByKey.get? v.versionKey = some v → Visited r visited v →
      r.versionsByKey.entries.length < fuel + visited.length →
        Resolves r id v (r.resolveWalk id fuel visited v) := by
  intro fuel
  induction fuel with
  | zero =>
    intro visited v _ hvisited hfuel
    have hle := hvisited.length_le
    omega
  | succ fuel ih =>
    intro visited v hv hvisited hfuel
    rw [resolveWalk, if_neg (hvisited.not_mem hv)]
    cases hparent : v.parentId with
    | none => exact .root hparent
    | some p =>
      dsimp only
      by_cases hp : p = id
      · subst hp
        rw [if_neg (not_not.mpr rfl)]
        cases hkey : v.parentKey with
        | none => exact .cut hparent hkey
        | some k =>
          obtain ⟨u, hu, hlt, -⟩ := h.parent hv hkey
          rw [Option.bind_some, hu]
          apply Resolves.back hparent hkey hu
          apply ih (v.versionKey :: visited) u (by rw [h.versionKey hu, hu]) (hvisited.cons hv hlt)
          rw [List.length_cons]
          omega
      · rw [if_pos hp]
        exact .cross hparent hp

theorem Linked.resolves {r : Registrar} (h : r.Linked) {id : StateID} {v : RegisteredState}
    (hv : r.latestById.get? id = some v) : Resolves r id v (r.resolveSnapshotParentId v) := by
  obtain ⟨rfl, hversion⟩ := h.latest hv
  apply h.resolves_resolveWalk _ _ _ _ hversion (r.visited_nil v)
  rw [List.length_nil]
  omega

/-- The parent of an id in the lineage of a snapshot. -/
def parentOf (r : Registrar) (id : StateID) : Option StateID :=
  (r.latestById.get? id).bind r.resolveSnapshotParentId

theorem parentOf_withStatus (r : Registrar) (status : Option ParityStatus) :
    (r.withStatus status).parentOf = r.parentOf := by
  funext id
  have hresolve : (r.withStatus status).resolveSnapshotParentId = r.resolveSnapshotParentId := by
    funext v
    exact resolveWalk_congr r (r.withStatus status) rfl _ _ _ _
  rw [parentOf, parentOf, hresolve]
  rfl

theorem Linked.parentOf_ne {r : Registrar} (h : r.Linked) {id p : StateID}
    (hp : r.parentOf id = some p) : p ≠ id := by
  obtain ⟨v, hv, hresolve⟩ := Option.bind_eq_some_iff.mp hp
  have hresolves := h.resolves hv
  rw [hresolve] at hresolves
  exact hresolves.ne

/-- An accepted transition is the parent of its own id; the parents of the others stay. -/
theorem Linked.parentOf_appended {r : Registrar} (h : r.Linked)
    (hlt : r.currentOrderIndex < safeBound) (t : Transition) (id : StateID) :
    (r.appended t).parentOf id =
      if t.toState.id = id ∧ t.fromId ≠ some id then t.fromId else r.parentOf id := by
  have hlinked := h.appended hlt t
  have hold : ∀ k u, r.versionsByKey.get? k = some u →
      (r.appended t).versionsByKey.get? k = some u := fun _ _ =>
    h.get?_appended_of_some hlt t
  have hlatest := r.get?_latest_appended t id
  by_cases hid : t.toState.id = id
  · subst hid
    rw [if_pos rfl] at hlatest
    have hresolves := hlinked.resolves hlatest
    rw [parentOf, hlatest, Option.bind_some]
    cases hfrom : t.fromId with
    | none =>
      rw [if_pos ⟨rfl, by simp⟩]
      exact hresolves.unique (.root hfrom)
    | some p =>
      by_cases hp : p = t.toState.id
      · subst hp
        rw [if_neg (by simp), parentOf]
        have hkey : (r.nextVersion t).parentKey =
            (r.latestById.get? t.toState.id).map RegisteredState.versionKey := by
          rw [nextVersion, hfrom]
          rfl
        cases hv : r.latestById.get? t.toState.id with
        | none =>
          rw [hv] at hkey
          exact hresolves.unique (.cut hfrom hkey)
        | some v =>
          rw [hv] at hkey
          have hversion := hold _ _ (h.latest hv).2
          exact hresolves.unique (.back hfrom hkey hversion ((h.resolves hv).mono hold))
      · rw [if_pos ⟨rfl, by simpa using hp⟩]
        exact hresolves.unique (.cross hfrom hp)
  · rw [if_neg hid] at hlatest
    rw [if_neg (fun hand => hid hand.1), parentOf, parentOf, hlatest]
    cases hv : r.latestById.get? id with
    | none => rfl
    | some v =>
      rw [hv] at hlatest
      exact (hlinked.resolves hlatest).unique ((h.resolves hv).mono hold)

end Registrar

end Attestia.Registrum
