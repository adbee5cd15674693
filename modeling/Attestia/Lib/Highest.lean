import Mathlib.Data.Finset.Card
import Mathlib.Data.Finset.Max

/-!
# The highest elements

A set of at most `d` elements of a set keeps the highest ones when nothing that it leaves out has
fewer than `d` elements above it.
-/

namespace Attestia.Lib

variable {α : Type*} [LinearOrder α] {d : ℕ} {all kept : Finset α} {a oldest : α}

def KeepsHighest (d : ℕ) (all kept : Finset α) : Prop :=
  ∀ a ∈ all, (all.filter fun b => a < b).card < d → a ∈ kept

/-- What is left out is below everything that is kept, and that is `d` elements. -/
theorem KeepsHighest.lt_of_left_out (h : KeepsHighest d all kept) (hcard : kept.card ≤ d)
    (ha : a ∈ all) (hout : a ∉ kept) : kept.card = d ∧ ∀ b ∈ kept, a < b := by
  -- the highest element that is left out
  have hne : (all \ kept).Nonempty := ⟨a, Finset.mem_sdiff.mpr ⟨ha, hout⟩⟩
  obtain ⟨hmem, hmiss⟩ := Finset.mem_sdiff.mp (Finset.max'_mem (all \ kept) hne)
  have habove : (all.filter fun b => (all \ kept).max' hne < b) ⊆ kept := by
    intro b hb
    obtain ⟨hb, hlt⟩ := Finset.mem_filter.mp hb
    by_contra hout
    exact absurd (Finset.le_max' _ b (Finset.mem_sdiff.mpr ⟨hb, hout⟩)) (not_le.mpr hlt)
  have hmany : d ≤ (all.filter fun b => (all \ kept).max' hne < b).card := by
    by_contra hfew
    exact hmiss (h _ hmem (not_le.mp hfew))
  have heq := Finset.eq_of_subset_of_card_le habove (hcard.trans hmany)
  refine ⟨le_antisymm hcard (hmany.trans (Finset.card_le_card habove)), fun b hb => ?_⟩
  rw [← heq, Finset.mem_filter] at hb
  exact (Finset.le_max' _ a (Finset.mem_sdiff.mpr ⟨ha, hout⟩)).trans_lt hb.2

theorem keepsHighest_of_lt (hsub : kept ⊆ all) (hcard : d ≤ kept.card)
    (hlt : ∀ a ∈ all, a ∉ kept → ∀ b ∈ kept, a < b) : KeepsHighest d all kept := by
  intro a ha hfew
  by_contra hout
  have hle : kept ⊆ all.filter fun b => a < b := fun b hb =>
    Finset.mem_filter.mpr ⟨hsub hb, hlt a ha hout b hb⟩
  exact absurd (hcard.trans (Finset.card_le_card hle)) (not_le.mpr hfew)

/-- While fewer than `d` elements are kept, none is left out. -/
theorem KeepsHighest.grow (h : KeepsHighest d all kept) (hcard : kept.card < d) :
    KeepsHighest d (insert a all) (insert a kept) := by
  intro b hb _
  rcases Finset.mem_insert.mp hb with rfl | hb
  · exact Finset.mem_insert_self b kept
  · apply Finset.mem_insert_of_mem
    by_contra hout
    exact absurd (h.lt_of_left_out hcard.le hb hout).1 hcard.ne

/-- An element that takes the place of another: the other is the lowest. -/
theorem KeepsHighest.replace_iff (h : KeepsHighest d all kept) (hsub : kept ⊆ all)
    (hcard : kept.card = d) (ha : a ∉ kept) (holdest : oldest ∈ kept) :
    KeepsHighest d (insert a all) ((insert a kept).erase oldest) ↔
      ∀ b ∈ (insert a kept).erase oldest, oldest < b := by
  have hsize : ((insert a kept).erase oldest).card = d := by
    rw [Finset.card_erase_of_mem (Finset.mem_insert_of_mem holdest), Finset.card_insert_of_notMem ha,
      Nat.add_sub_cancel, hcard]
  have hsub' : (insert a kept).erase oldest ⊆ insert a all :=
    (Finset.erase_subset _ _).trans (Finset.insert_subset_insert a hsub)
  constructor
  · intro hkeeps
    exact (hkeeps.lt_of_left_out hsize.le (Finset.mem_insert_of_mem (hsub holdest))
      (Finset.notMem_erase oldest _)).2
  · intro hlowest
    apply keepsHighest_of_lt hsub' hsize.ge
    intro b hb hout c hc
    by_cases heq : b = oldest
    · exact heq ▸ hlowest c hc
    · -- what was left out before is below the oldest
      have hout' : b ∉ insert a kept := fun hmem => hout (Finset.mem_erase.mpr ⟨heq, hmem⟩)
      rw [Finset.mem_insert, not_or] at hout'
      have hall := (Finset.mem_insert.mp hb).resolve_left hout'.1
      exact ((h.lt_of_left_out hcard.le hall hout'.2).2 oldest holdest).trans (hlowest c hc)

end Attestia.Lib
