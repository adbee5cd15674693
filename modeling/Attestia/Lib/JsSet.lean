import Mathlib.Data.List.ReduceOption
import Mathlib.Data.List.Nodup

/-!
# Sets that are iterated while they change

A set as its iterators see it. An element that is deleted leaves an empty slot behind, and one that
is added takes a new slot, so that an iterator still comes to it.
-/

namespace Attestia.Lib

structure JsSet (α : Type) where
  slots : List (Option α)
  nodup : slots.reduceOption.Nodup

namespace JsSet

variable {α : Type}

section iterators

def empty : JsSet α := ⟨[], List.nodup_nil⟩

variable (s : JsSet α)

def members : List α := s.slots.reduceOption

/-- What an iterator at a slot still comes to. -/
def membersFrom (slot : ℕ) : List α := (s.slots.drop slot).reduceOption

@[simp] theorem membersFrom_zero : s.membersFrom 0 = s.members := rfl

variable {s}

theorem membersFrom_of_end {slot : ℕ} (h : s.slots[slot]? = none) : s.membersFrom slot = [] := by
  rw [membersFrom, List.drop_eq_nil_of_le (List.getElem?_eq_none_iff.mp h)]
  rfl

/-- One step of an iterator. -/
theorem membersFrom_of_slot {slot : ℕ} {o : Option α} (h : s.slots[slot]? = some o) :
    s.membersFrom slot = o.toList ++ s.membersFrom (slot + 1) := by
  obtain ⟨hlt, rfl⟩ := List.getElem?_eq_some_iff.mp h
  rw [membersFrom, List.drop_eq_getElem_cons hlt, membersFrom]
  cases s.slots[slot] <;> rfl

end iterators

/-! ## Changes -/

variable [DecidableEq α] (s : JsSet α)

def add (a : α) : JsSet α :=
  if h : a ∈ s.members then s
  else
    { slots := s.slots ++ [some a]
      nodup := by
        rw [List.reduceOption_append, List.reduceOption_singleton]
        exact List.nodup_append.mpr ⟨s.nodup, List.nodup_singleton a,
          fun b hb c hc hbc => h (List.mem_singleton.mp hc ▸ hbc ▸ hb)⟩ }

theorem reduceOption_map_erase (a : α) (l : List (Option α)) :
    (l.map fun o => if o = some a then none else o).reduceOption =
      l.reduceOption.filter fun b => b ≠ a := by
  induction l with
  | nil => rfl
  | cons o l ih =>
    rcases o with _ | b
    · simpa using ih
    · by_cases hb : b = a
      · simpa [hb] using ih
      · simpa [hb] using ih

def delete (a : α) : JsSet α where
  slots := s.slots.map fun o => if o = some a then none else o
  nodup := by
    rw [reduceOption_map_erase]
    exact s.nodup.filter _

theorem membersFrom_delete (a : α) (slot : ℕ) :
    (s.delete a).membersFrom slot = (s.membersFrom slot).filter fun b => b ≠ a := by
  rw [membersFrom, delete, ← List.map_drop, reduceOption_map_erase]
  rfl

variable {s}

theorem add_of_mem {a : α} (h : a ∈ s.members) : s.add a = s := dif_pos h

/-- An iterator comes to a new element last, unless it is at its end already. -/
theorem membersFrom_add {a : α} (h : a ∉ s.members) (slot : ℕ) :
    ((s.add a).membersFrom slot).Sublist (s.membersFrom slot ++ [a]) := by
  rw [add, dif_neg h, membersFrom, membersFrom, List.drop_append, List.reduceOption_append]
  exact (List.Sublist.refl _).append ((List.drop_sublist _ [some a]).filterMap id)

end JsSet

/-! ## What is made of the elements that iterators come to -/

/-- A part of a list in which something new is put in at one place. -/
def InsertedIn {β : Type} (new l l' : List β) : Prop :=
  ∃ before behind, l = before ++ behind ∧ l'.Sublist (before ++ new ++ behind)

namespace InsertedIn

variable {α β : Type} {new l l' : List β}

theorem append (h : InsertedIn new l l') (front back : List β) :
    InsertedIn new (front ++ l ++ back) (front ++ l' ++ back) := by
  obtain ⟨before, behind, rfl, hsub⟩ := h
  refine ⟨front ++ before, behind ++ back, by simp, ?_⟩
  have happend := ((List.Sublist.refl front).append hsub).append (List.Sublist.refl back)
  simpa [List.append_assoc] using happend

/-- One element of a list brings more. -/
theorem flatMap {f f' : α → List β} {a : α} (h : InsertedIn new (f a) (f' a)) {front back : List α}
    (hother : ∀ b ∈ front ++ back, f' b = f b) :
    InsertedIn new ((front ++ a :: back).flatMap f) ((front ++ a :: back).flatMap f') := by
  have hflat : ∀ g : α → List β,
      (front ++ a :: back).flatMap g = front.flatMap g ++ g a ++ back.flatMap g := by
    intro g
    rw [List.flatMap_append, List.flatMap_cons, List.append_assoc]
  rw [hflat, hflat, List.flatMap_congr fun b hb => hother b (List.mem_append_left _ hb),
    List.flatMap_congr fun b hb => hother b (List.mem_append_right _ hb)]
  exact h.append _ _

end InsertedIn

end Attestia.Lib
