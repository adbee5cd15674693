import Attestia.Lib.JsonValue

/-!
# Numbers with a rounding hook

A program that reads numbers from JSON, counts on from them and writes them again, whatever the
numbers are kept as. The exact numbers are what it computes with where nothing else is said.
-/

namespace Attestia.Lib

open JsonNumber

/-- How numbers are kept: the number that a decimal is read as, the decimal that is written for a
number if there is one, and the text of a number. -/
class Rounding where
  round : Number → Number
  json : Number → Option Number
  text : Number → JsString
  round_round (n : Number) : round (round n) = round n
  round_one : round (.ofNat 1) = .ofNat 1
  one_le_round {n : Number} : 1 ≤ n.val → 1 ≤ (round n).val
  round_of_json {n m : Number} : round n = n → json n = some m → round m = n
  json_one : json (.ofNat 1) ≠ none
  json_succ {n : Number} : round n = n → (json (round n.succ) = none ↔ json n = none)

/-- Every decimal is kept as it is. -/
instance Rounding.exact : Rounding where
  round := id
  json := some
  text := JsonValue.numberString
  round_round _ := rfl
  round_one := rfl
  one_le_round := id
  round_of_json _ h := (Option.some.inj h).symm
  json_one := Option.some_ne_none _
  json_succ _ := ⟨fun h => (nomatch h), fun h => (nomatch h)⟩

/-- `JSON.stringify` of a number. -/
def JsonValue.ofNumber [Rounding] (n : Number) : JsonValue := ((Rounding.json n).map num).getD null

@[simp] theorem JsonValue.ofNumber_exact (n : Number) : ofNumber n = num n := rfl

namespace JsonNumber.Number

/-- `n + 1`, rounded. -/
def next [Rounding] (n : Number) : Number := Rounding.round n.succ

/-- A number that the program can have. -/
def IsKept [Rounding] (n : Number) : Prop := Rounding.round n = n

/-- A number that is not written as `null`. -/
def IsWritten [Rounding] (n : Number) : Prop := Rounding.json n ≠ none

@[simp] theorem next_exact (n : Number) : n.next = n.succ := rfl

section

variable [Rounding]

theorem isKept_round (n : Number) : (Rounding.round n).IsKept := Rounding.round_round n

theorem isKept_one : (ofNat 1).IsKept := Rounding.round_one

theorem isWritten_one : (ofNat 1).IsWritten := Rounding.json_one

theorem isKept_next (n : Number) : n.next.IsKept := isKept_round _

theorem isWritten_next {n : Number} (h : n.IsKept) : n.next.IsWritten ↔ n.IsWritten :=
  not_congr (Rounding.json_succ h)

theorem one_le_next {n : Number} (h : 1 ≤ n.val) : 1 ≤ n.next.val :=
  Rounding.one_le_round (h.trans (le_add_of_nonneg_right zero_le_one))

/-- A number is read back as it was written. -/
theorem IsKept.map_round_json {n : Number} (h : n.IsKept) (hw : n.IsWritten) :
    (Rounding.json n).map Rounding.round = some n := by
  obtain ⟨m, hm⟩ := Option.ne_none_iff_exists'.mp hw
  rw [hm, Option.map_some, Rounding.round_of_json h hm]

end

end JsonNumber.Number

end Attestia.Lib
