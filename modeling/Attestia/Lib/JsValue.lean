import Attestia.Lib.JsString
import Mathlib.Data.Int.Log
import Mathlib.Data.Rat.Floor
import Mathlib.Algebra.Order.Ring.Rat
import Mathlib.Tactic.Positivity

/-!
# Values of the language

The dynamically typed values that an interpreter reads. An object is what its properties
read as, own or inherited, under the identity that `===` compares; functions, symbols and
big integers have no properties that are read here. Arithmetic on integers rounds to
binary64.
-/

namespace Attestia.Lib

/-- An integer rounded to 53 significant bits, ties to even. -/
def roundDouble (n : ℤ) : ℤ :=
  let unit : ℤ := 2 ^ (n.natAbs.log2 - 52)
  let quotient := n / unit
  let rest := n % unit
  if 2 * rest < unit ∨ (2 * rest = unit ∧ quotient % 2 = 0) then quotient * unit
  else (quotient + 1) * unit

/-- The bound of the integers on which arithmetic is exact. -/
def safeBound : ℤ := 2 ^ 53

theorem roundDouble_of_lt {n : ℤ} (h : n.natAbs < 2 ^ 53) : roundDouble n = n := by
  have hunit : n.natAbs.log2 - 52 = 0 := by
    obtain hn | hn := Nat.eq_zero_or_pos n.natAbs
    · rw [hn]
      rfl
    · have hlog := (Nat.log2_lt hn.ne').mpr h
      omega
  simp [roundDouble, hunit]

theorem roundDouble_of_le {n : ℤ} (hneg : -safeBound < n) (h : n ≤ safeBound) :
    roundDouble n = n := by
  rcases h.lt_or_eq with hlt | rfl
  · apply roundDouble_of_lt
    simp only [safeBound] at hneg hlt
    omega
  · decide +kernel

theorem roundDouble_add_one {n : ℤ} (h0 : 0 ≤ n) (h : n < safeBound) :
    roundDouble (n + 1) = n + 1 := by
  apply roundDouble_of_le <;> simp only [safeBound] at * <;> omega

theorem roundDouble_sub_one {n : ℤ} (h0 : 0 ≤ n) (h : n ≤ safeBound) :
    roundDouble (n - 1) = n - 1 := by
  apply roundDouble_of_le <;> simp only [safeBound] at * <;> omega

theorem safeBound_le_roundDouble {n : ℤ} (h : safeBound ≤ n) : safeBound ≤ roundDouble n := by
  obtain ⟨m, rfl⟩ := Int.eq_ofNat_of_zero_le (show 0 ≤ n by simp only [safeBound] at h; omega)
  have hm : 2 ^ 53 ≤ m := by simp only [safeBound] at h; omega
  have hlog : 53 ≤ m.log2 := (Nat.le_log2 (by omega)).mpr hm
  obtain ⟨k, hk⟩ := Nat.exists_eq_add_of_le hlog
  have hunit : m.log2 - 52 = k + 1 := by omega
  have hfloor : 2 ^ 52 * 2 ^ (k + 1) ≤ m := by
    rw [← pow_add]
    exact (Nat.le_log2 (by omega)).mp (by omega)
  have hquotient : (2 ^ 52 : ℤ) ≤ (m : ℤ) / 2 ^ (k + 1) := by
    rw [Int.le_ediv_iff_mul_le (by positivity)]
    exact_mod_cast hfloor
  have hpos : (2 : ℤ) ≤ 2 ^ (k + 1) := by
    rw [pow_succ]
    have : (1 : ℤ) ≤ 2 ^ k := one_le_pow₀ (by norm_num)
    omega
  have hround : ∀ q : ℤ, 2 ^ 52 ≤ q → safeBound ≤ q * 2 ^ (k + 1) := fun q hq =>
    calc safeBound = 2 ^ 52 * 2 := by decide
      _ ≤ q * 2 ^ (k + 1) := mul_le_mul hq hpos (by decide) (le_trans (by decide) hq)
  simp only [roundDouble, Int.natAbs_natCast, hunit]
  split
  · exact hround _ hquotient
  · exact hround _ (by omega)

/-- A number of the language. -/
inductive JsNumber where
  | finite (q : ℚ)
  | infinity (negative : Bool)
  | nan
  deriving DecidableEq

namespace JsNumber

/-- The number of an integer text. -/
def ofInteger (n : ℤ) : JsNumber :=
  if (roundDouble n).natAbs.log2 < 1024 then .finite (roundDouble n)
  else .infinity (decide (n < 0))

/-- `===` on numbers. -/
def same : JsNumber → JsNumber → Bool
  | finite p, finite q => p = q
  | infinity a, infinity b => a = b
  | _, _ => false

def lt : JsNumber → JsNumber → Bool
  | finite p, finite q => p < q
  | finite _, infinity negative => !negative
  | infinity negative, finite _ => negative
  | infinity a, infinity b => a && !b
  | _, _ => false

def le (a b : JsNumber) : Bool := lt a b || same a b

theorem lt_intCast (m n : ℤ) : lt (finite m) (finite n) = decide (m < n) := by simp [lt]

theorem same_intCast (m n : ℤ) : same (finite m) (finite n) = decide (m = n) := by simp [same]

/-- The nearest integer, ties to even. -/
def nearest (q : ℚ) : ℤ :=
  let rest := q - q.floor
  if rest < 1 / 2 ∨ (rest = 1 / 2 ∧ q.floor % 2 = 0) then q.floor else q.floor + 1

/-- The number of binary64 that an exact result is rounded to. -/
def ofRational (q : ℚ) : JsNumber :=
  let unit : ℚ := 2 ^ max (Int.log 2 |q| - 52) (-1074)
  let rounded := nearest (q / unit) * unit
  if |rounded| < 2 ^ 1024 then .finite rounded else .infinity (decide (q < 0))

def add : JsNumber → JsNumber → JsNumber
  | finite p, finite q => ofRational (p + q)
  | finite _, infinity negative => infinity negative
  | infinity negative, finite _ => infinity negative
  | infinity a, infinity b => if a = b then infinity a else nan
  | _, _ => nan

def neg : JsNumber → JsNumber
  | finite q => finite (-q)
  | infinity negative => infinity !negative
  | nan => nan

def sub (a b : JsNumber) : JsNumber := a.add b.neg

end JsNumber

/-- What `===` compares two objects by. -/
inductive Ref where
  | given (n : ℕ)
  | named (name : JsString)
  deriving DecidableEq

/-- The kinds of values whose properties are not read. -/
inductive OtherType where
  | function
  | symbol
  | bigint
  deriving DecidableEq

inductive JsType where
  | undefined
  | object
  | boolean
  | number
  | string
  | other (type : OtherType)
  deriving DecidableEq

inductive JsValue where
  | undefined
  | null
  | boolean (b : Bool)
  | number (x : JsNumber)
  | string (s : JsString)
  | object (ref : Ref) (get : JsString → JsValue)
  | other (type : OtherType) (ref : Ref)

namespace JsValue

def integer (n : ℤ) : JsValue := number (.finite n)

/-- `typeof`. -/
def typeOf : JsValue → JsType
  | undefined => .undefined
  | null => .object
  | boolean _ => .boolean
  | number _ => .number
  | string _ => .string
  | object _ _ => .object
  | other type _ => .other type

/-- `=== null` or `=== undefined`. -/
def isNullish : JsValue → Bool
  | undefined => true
  | null => true
  | _ => false

/-- `===`. -/
def same : JsValue → JsValue → Bool
  | undefined, undefined => true
  | null, null => true
  | boolean a, boolean b => a = b
  | number a, number b => a.same b
  | string a, string b => a = b
  | object a _, object b _ => a = b
  | other s a, other t b => s = t && a = b
  | _, _ => false

/-- The members that every object inherits, `__proto__` apart. -/
def objectMembers : List JsString :=
  [js "constructor", js "__defineGetter__", js "__defineSetter__", js "hasOwnProperty",
    js "__lookupGetter__", js "__lookupSetter__", js "isPrototypeOf", js "propertyIsEnumerable",
    js "toString", js "valueOf", js "toLocaleString"]

/-- A property of `Object.prototype`. -/
def prototypeGet (key : JsString) : JsValue :=
  if key = js "__proto__" then null
  else if key ∈ objectMembers then other .function (.named key)
  else undefined

/-- A property of an object literal with the given entries. -/
def literalGet (entries : List (JsString × JsValue)) (key : JsString) : JsValue :=
  match entries.find? fun e => e.1 = key with
  | some e => e.2
  | none =>
    if key = js "__proto__" then object (.named (js "Object.prototype")) prototypeGet
    else prototypeGet key

/-- An object literal. -/
def literal (name : String) (entries : List (JsString × JsValue)) : JsValue :=
  object (.named (js name)) (literalGet entries)

end JsValue

end Attestia.Lib
