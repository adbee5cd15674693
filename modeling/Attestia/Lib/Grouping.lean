import Attestia.Lib.JsMap
import Mathlib.Algebra.Order.Group.Multiset

/-!
# Groups of a list

The groups of a list by a key together are the list in another order, and grouping is stable under
tests that drop elements.
-/

namespace Attestia.Lib.JsMap

variable {κ ε : Type*} [DecidableEq κ] (key : ε → κ)

/-- The groups hold every element as often as the list does. -/
theorem perm_flatten_groupBy (l : List ε) : (groupBy key l).values.flatten.Perm l := by
  rw [← Multiset.coe_eq_coe]
  have hflatten : ∀ gs : List (List ε),
      ((gs.flatten : List ε) : Multiset ε) = (gs.map Multiset.ofList).sum := by
    intro gs
    induction gs with
    | nil => rfl
    | cons g gs ih => rw [List.flatten_cons, ← Multiset.coe_add, ih, List.map_cons, List.sum_cons]
  rw [hflatten]
  induction l using List.reverseRecOn with
  | nil => rfl
  | append_singleton l e ih =>
    have hset := sum_values_set Multiset.ofList (groupBy key l) (key e)
      (((groupBy key l).get? (key e)).getD [] ++ [e])
    rw [ih] at hset
    have hold : (((groupBy key l).get? (key e)).map Multiset.ofList).getD 0 =
        ((((groupBy key l).get? (key e)).getD [] : List ε) : Multiset ε) := by
      cases (groupBy key l).get? (key e) <;> rfl
    rw [hold, ← Multiset.coe_add, ← add_assoc, add_right_comm] at hset
    rw [groupBy, collect_append_singleton, ← groupBy, add_right_cancel hset, Multiset.coe_add]

/-- Grouping what a test leaves of the groups finds them in their places. -/
theorem flatten_groupBy_filter (l : List ε) (p : ε → Bool) :
    (groupBy key ((groupBy key l).values.flatten.filter p)).values.flatten =
      (groupBy key l).values.flatten.filter p := by
  let batches := (groupBy key l).entries.filter fun b => b.2.filter p ≠ []
  have hlist : (groupBy key l).values.flatten.filter p = batches.flatMap fun b => b.2.filter p := by
    rw [values, List.filter_flatten, List.map_map, List.flatMap_def]
    show _ = (((groupBy key l).entries.filter _).map _).flatten
    induction (groupBy key l).entries with
    | nil => rfl
    | cons b bs ih =>
      rw [List.map_cons, List.flatten_cons, ih, List.filter_cons]
      split
      · rw [List.map_cons, List.flatten_cons]
        rfl
      · rename_i hnil
        rw [decide_eq_true_eq, not_not] at hnil
        show b.2.filter p ++ _ = _
        rw [hnil, List.nil_append]
  have hnodup : (batches.map Prod.fst).Nodup :=
    (groupBy key l).nodup.sublist (List.filter_sublist.map Prod.fst)
  have hentries :=
    @entries_groupBy_flatMap κ ε _ key _ (fun b => b.2.filter p) Prod.fst batches hnodup
    (fun b hb => of_decide_eq_true (List.mem_filter.mp hb).2)
    (fun b hb e he => by
      obtain ⟨hgroup, -⟩ := mem_entries_groupBy key |>.mp (List.mem_filter.mp hb).1
      have hmem := (List.mem_filter.mp he).1
      rw [hgroup] at hmem
      exact of_decide_eq_true (List.mem_filter.mp hmem).2)
  rw [hlist, values, hentries, List.map_map, List.flatMap_def]
  rfl

end Attestia.Lib.JsMap

namespace Attestia.Lib

/-- Two tests divide a list exactly where each element passes one of them. -/
theorem perm_filter_append_filter_iff {α : Type*} {l : List α} {p q : α → Bool} :
    (l.filter p ++ l.filter q).Perm l ↔ ∀ a ∈ l, p a ≠ q a := by
  classical
  constructor
  · intro h a ha hequal
    have hcount := h.count_eq a
    have hpos : 0 < l.count a := List.count_pos_iff.mpr ha
    rw [List.count_append] at hcount
    cases hp : p a with
    | true =>
      rw [List.count_filter hp, List.count_filter (hequal ▸ hp)] at hcount
      omega
    | false =>
      have hnot : ∀ r : α → Bool, r a = false → (l.filter r).count a = 0 := fun r hr =>
        List.count_eq_zero.mpr fun hmem => by simp [hr] at hmem
      rw [hnot p hp, hnot q (hequal ▸ hp)] at hcount
      omega
  · intro h
    have hq : l.filter q = l.filter fun a => ! p a := by
      apply List.filter_congr
      intro a ha
      exact Bool.eq_not.mpr (h a ha).symm
    rw [hq]
    exact List.filter_append_perm p l

end Attestia.Lib
