import Attestia.Lib.Binary64
import Attestia.Lib.JsMap

/-!
# Queues with a cap

A loop that drops the oldest element while there are more than a cap.
-/

namespace Attestia.Lib

variable {α : Type*} {cap : JsNumber}

/-- The oldest elements are dropped while there are more than the cap. The loop ends at the empty
queue. -/
def evict (cap : JsNumber) : List α → List α
  | [] => []
  | a :: as => if cap.lt (.finite (as.length + 1 : ℕ)) then evict cap as else a :: as

theorem evict_suffix (cap : JsNumber) (as : List α) : evict cap as <:+ as := by
  induction as with
  | nil => exact List.suffix_rfl
  | cons a as ih =>
    rw [evict]
    split
    · exact ih.trans (List.suffix_cons a as)
    · exact List.suffix_rfl

/-- Nothing is dropped up to the cap. -/
theorem evict_eq_self {as : List α} (h : cap.lt (.finite as.length) = false) :
    evict cap as = as := by
  cases as with
  | nil => rfl
  | cons a as =>
    rw [List.length_cons] at h
    rw [evict, if_neg (by rw [h]; decide)]

theorem finite_zero_le (hcap : (JsNumber.finite 1).le cap = true) :
    (JsNumber.finite (0 : ℕ)).le cap = true := by
  apply JsNumber.le_of_le_of_le (b := .finite 1) _ hcap
  decide

theorem le_of_not_lt {n : ℕ} (hcap : (JsNumber.finite 1).le cap = true)
    (h : cap.lt (.finite n) = false) : (JsNumber.finite n).le cap = true := by
  cases cap with
  | finite q =>
    rw [JsNumber.lt, decide_eq_false_iff_not, not_lt] at h
    simp only [JsNumber.le, JsNumber.lt, JsNumber.same, Bool.or_eq_true, decide_eq_true_eq]
    exact h.lt_or_eq
  | infinity negative =>
    cases negative with
    | false => rfl
    | true => cases hcap
  | nan => cases hcap

theorem length_evict_le (hcap : (JsNumber.finite 1).le cap = true) (as : List α) :
    (JsNumber.finite (evict cap as).length).le cap = true := by
  induction as with
  | nil => exact finite_zero_le hcap
  | cons a as ih =>
    rw [evict]
    split
    · exact ih
    · rename_i hle
      exact le_of_not_lt hcap (Bool.eq_false_of_not_eq_true hle)

namespace JsMap

variable {κ : Type*}

/-- A map with a cap, the oldest keys of which are deleted. -/
def evictOldest (cap : JsNumber) (m : JsMap κ α) : JsMap κ α :=
  ⟨evict cap m.entries, m.nodup.sublist ((evict_suffix cap m.entries).sublist.map Prod.fst)⟩

theorem evictOldest_eq_self {m : JsMap κ α} (h : cap.lt (.finite m.entries.length) = false) :
    m.evictOldest cap = m :=
  JsMap.ext (evict_eq_self h)

end JsMap

end Attestia.Lib
