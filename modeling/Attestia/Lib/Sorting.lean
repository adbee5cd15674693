import Mathlib.Data.List.Sort

/-!
# Sorting a list by a relation that orders its elements

A comparator of the language orders the elements that it is given, and need not order others.
Where it does, the sorted list does not depend on the order of the input.
-/

namespace Attestia.Lib

variable {α : Type*}

/-- A relation that orders the elements of a list. -/
structure Orders (r : α → α → Prop) (l : List α) : Prop where
  total : ∀ a ∈ l, ∀ b ∈ l, r a b ∨ r b a
  trans : ∀ a ∈ l, ∀ b ∈ l, ∀ c ∈ l, r a b → r b c → r a c
  antisymm : ∀ a ∈ l, ∀ b ∈ l, r a b → r b a → a = b

variable {r : α → α → Prop} {l l' : List α}

theorem Orders.of_subset (h : Orders r l) (hsub : ∀ a ∈ l', a ∈ l) : Orders r l' where
  total a ha b hb := h.total a (hsub a ha) b (hsub b hb)
  trans a ha b hb c hc := h.trans a (hsub a ha) b (hsub b hb) c (hsub c hc)
  antisymm a ha b hb := h.antisymm a (hsub a ha) b (hsub b hb)

theorem Orders.tail {a : α} (h : Orders r (a :: l)) : Orders r l :=
  h.of_subset fun _ => List.mem_cons_of_mem a

/-- The elements are ordered by a key. -/
theorem Orders.of_map {β : Type*} {f : α → β} {s : β → β → Prop} (h : Orders s (l.map f))
    (hinj : ∀ a ∈ l, ∀ b ∈ l, f a = f b → a = b) : Orders (fun a b => s (f a) (f b)) l where
  total _ ha _ hb := h.total _ (List.mem_map_of_mem ha) _ (List.mem_map_of_mem hb)
  trans _ ha _ hb _ hc :=
    h.trans _ (List.mem_map_of_mem ha) _ (List.mem_map_of_mem hb) _ (List.mem_map_of_mem hc)
  antisymm a ha b hb hab hba :=
    hinj a ha b hb (h.antisymm _ (List.mem_map_of_mem ha) _ (List.mem_map_of_mem hb) hab hba)

variable [DecidableRel r]

theorem pairwise_orderedInsert {a : α} (h : Orders r (a :: l)) (hl : l.Pairwise r) :
    (l.orderedInsert r a).Pairwise r := by
  induction l with
  | nil => exact List.pairwise_singleton r a
  | cons b l ih =>
    obtain ⟨hb, hl⟩ := List.pairwise_cons.mp hl
    rw [List.orderedInsert]
    split
    · rename_i hab
      refine List.pairwise_cons.mpr ⟨fun c hc => ?_, List.pairwise_cons.mpr ⟨hb, hl⟩⟩
      rcases List.mem_cons.mp hc with rfl | hc
      · exact hab
      · exact h.trans a (.head _) b (.tail _ (.head _)) c (.tail _ (.tail _ hc)) hab (hb c hc)
    · rename_i hab
      have hba : r b a := (h.total a (.head _) b (.tail _ (.head _))).resolve_left hab
      have hsub : ∀ c ∈ a :: l, c ∈ a :: b :: l := fun c hc =>
        (List.mem_cons.mp hc).elim (fun heq => heq ▸ .head _) fun hc => .tail _ (.tail _ hc)
      refine List.pairwise_cons.mpr ⟨fun c hc => ?_, ih (h.of_subset hsub) hl⟩
      rcases List.mem_cons.mp ((List.perm_orderedInsert r a l).mem_iff.mp hc) with rfl | hc
      · exact hba
      · exact hb c hc

theorem pairwise_insertionSort (h : Orders r l) : (l.insertionSort r).Pairwise r := by
  induction l with
  | nil => exact .nil
  | cons a l ih =>
    refine pairwise_orderedInsert (h.of_subset fun b hb => ?_) (ih h.tail)
    rcases List.mem_cons.mp hb with rfl | hb
    · exact .head _
    · exact .tail _ ((List.perm_insertionSort r l).mem_iff.mp hb)

/-- The order of the input does not matter. -/
theorem insertionSort_eq_of_perm (h : Orders r l) (hperm : l.Perm l') :
    l.insertionSort r = l'.insertionSort r := by
  have hsorted := pairwise_insertionSort h
  have hsorted' := pairwise_insertionSort (h.of_subset fun a => hperm.mem_iff.mpr)
  have hboth : (l.insertionSort r).Perm (l'.insertionSort r) :=
    (List.perm_insertionSort r l).trans (hperm.trans (List.perm_insertionSort r l').symm)
  refine hboth.eq_of_pairwise ?_ hsorted hsorted'
  intro a b ha hb
  exact h.antisymm a ((List.perm_insertionSort r l).mem_iff.mp ha) b
    (hperm.mem_iff.mpr ((List.perm_insertionSort r l').mem_iff.mp hb))

end Attestia.Lib
