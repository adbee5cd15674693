import Attestia.Lib.Binary64
import Attestia.Reconciler.Types

/-!
# Amounts of chain events

What the two matchers of chain events share: the text of an amount is checked, and the amount is
compared with a money, at the greater number of decimals where the two differ. Numbers are subtracted
and integers are held by the arithmetic of an engine.
-/

namespace Attestia.Reconciler

open Lib JsonNumber Ledger DecimalText

/-- `/^-?\d+$/`. -/
def isIntegerText (s : JsString) : Bool := unsigned s ≠ [] && (unsigned s).all isDigit

/-- `BigInt` of such a text. -/
def integerOf (s : JsString) : ℤ :=
  let value : ℤ := digitsNat (unsigned s)
  if s.head? = some minus then -value else value

/-- How an engine subtracts two numbers, and which integers a `BigInt` of it can hold. -/
class Arithmetic where
  subtract : ℚ → ℚ → JsNumber
  holds : ℤ → Bool

/-- The arithmetic of binary64 numbers, where a `BigInt` has at most so many bits. -/
@[reducible] def binary64Arithmetic (bits : ℕ) : Arithmetic where
  subtract a b := (JsNumber.finite a).sub (.finite b)
  holds n := n.natAbs.log2 < bits

/-- Exact differences, and integers of any size. -/
instance exactArithmetic : Arithmetic where
  subtract a b := .finite (a - b)
  holds _ := true

/-- `BigInt` of a number. -/
def bigInt : JsNumber → Except MatchFault ℤ
  | .finite q => if q.den = 1 then .ok q.num else .error .range
  | _ => .error .range

section arithmetic

variable [Arithmetic]

/-- A `BigInt` that is too large throws. -/
def held (n : ℤ) : Except MatchFault ℤ := if Arithmetic.holds n then .ok n else .error .range

/-- `n * 10n ** BigInt(maxDec - decimals)`. -/
def rescale (n : ℤ) (maxDec decimals : Number) : Except MatchFault ℤ := do
  let exponent ← bigInt (Arithmetic.subtract maxDec.val decimals.val)
  let power ← held (10 ^ exponent.toNat)
  held (n * power)

end arithmetic

/-- `Math.max` of numbers of decimals. -/
def maxDecimals (a b : Number) : Number := if a.val < b.val then b else a

/-- What the matchers say of a money and an amount of the chain. -/
structure Wording where
  side : JsString
  differing : Number → Number → JsString → JsString → JsString

def Wording.plain (w : Wording) (expected actual : JsString) : JsString :=
  js "Amount mismatch: " ++ w.side ++ js "=" ++ expected ++ js " chain=" ++ actual

def amountDiscrepancy (message expected actual : JsString) : Discrepancy :=
  valueDiscrepancy .amountMismatch .amount message expected actual

/-- The discrepancy of the amounts, if there is one. A number of decimals that is not finite makes
`BigInt` throw. -/
def compareAmounts [Arithmetic] (w : Wording) (money : Money) (event : ReconcilableChainEvent) :
    Except MatchFault (Option Discrepancy) := do
  let raw ← (parseAmount money.amount money.decimals).mapError .ledger
  let chainRaw ← held (integerOf event.amount)
  match event.decimals with
  | .finite decimals =>
    let expected := formatAmount raw money.decimals
    let actual := formatAmount chainRaw decimals
    if money.decimals = decimals then
      return if raw = chainRaw then none
        else some (amountDiscrepancy (w.plain expected actual) expected actual)
    else do
      let maxDec := maxDecimals money.decimals decimals
      let norm ← rescale raw maxDec money.decimals
      let chainNorm ← rescale chainRaw maxDec decimals
      return if norm = chainNorm then none
        else some (amountDiscrepancy (w.differing money.decimals decimals expected actual) expected
          actual)
  | _ => .error .range

/-- The discrepancy of an amount of the chain that is not the text of an integer. -/
def invalidAmount (w : Wording) (money : Money) (event : ReconcilableChainEvent) :
    Except MatchFault Discrepancy := do
  let raw ← (parseAmount money.amount money.decimals).mapError .ledger
  let expected := formatAmount raw money.decimals
  return amountDiscrepancy (js "Invalid chain amount: " ++ w.side ++ js "=" ++ expected ++
    js " chain=" ++ quoted event.amount ++ js " (not an integer string)") expected event.amount

def currencyDiscrepancy (message expected actual : JsString) : Discrepancy :=
  valueDiscrepancy .currencyMismatch .currency message expected actual

/-- The events of each transaction. -/
def byTxHash (chainEvents : List ReconcilableChainEvent) :
    JsMap JsString (List ReconcilableChainEvent) :=
  JsMap.groupBy ReconcilableChainEvent.txHash chainEvents

def eventsOf (index : JsMap JsString (List ReconcilableChainEvent)) (txHash : JsString) :
    List ReconcilableChainEvent :=
  (index.get? txHash).getD []

theorem eventsOf_byTxHash (chainEvents : List ReconcilableChainEvent) (txHash : JsString) :
    eventsOf (byTxHash chainEvents) txHash = chainEvents.filter fun e => e.txHash = txHash := by
  rw [eventsOf, byTxHash, JsMap.get?_groupBy]
  split
  · rename_i hnil
    rw [hnil]
    rfl
  · rfl

end Attestia.Reconciler
