import Attestia.Lib.Binary64
import Attestia.Lib.DecimalText

/-!
# Retries

`retry.ts`: which errors of a submission are worth another attempt. An error is told apart by the
text of its message.
-/

namespace Attestia.Witness

open Lib

/-- What can be thrown: an error with its message, or another value with its text. -/
inductive Thrown where
  | error (message : JsString)
  | value (text : JsString)

/-- `err instanceof Error ? err.message : String(err)`. -/
def Thrown.detail : Thrown → JsString
  | .error message => message
  | .value text => text

/-- `toLowerCase`, up to code units that are ASCII neither before nor after. -/
def lowerUnit (u : UInt16) : JsString :=
  if 0x41 ≤ u ∧ u ≤ 0x5A then [u + 0x20]
  else if u = 0x212A then [0x6B] -- the Kelvin sign
  else if u = 0x130 then [0x69, 0x307]
  else [u]

def toLowerCase (s : JsString) : JsString := s.flatMap lowerUnit

def permanentPatterns : List JsString :=
  [js "tembad", js "tefinvalid", js "tefdst_tag", js "temmalformed", js "temredundant",
    js "not connected"]

def isRetryableXrplError : Thrown → Bool
  | .value _ => true
  | .error message => !permanentPatterns.any fun pattern => pattern <:+: toLowerCase message

def attemptTimeoutError (timeoutMs : JsNumber) (operation : JsString) : Thrown :=
  .error (operation ++ js " did not complete within the per-attempt deadline of " ++
    timeoutMs.text ++
    (js "ms; treating as a (possibly-applied) transient \u2014 the next attempt's idempotency " ++
      js "check will recover it if it landed (timed out)."))

/-- What `withRetry` throws: the error of an attempt, or that there are no attempts left. -/
inductive RetryError where
  | permanent (error : Thrown)
  | exhausted (attempts : JsNumber) (lastError : Option Thrown)

def RetryError.message : RetryError → JsString
  | .permanent error => error.detail
  | .exhausted attempts lastError => js "All " ++ attempts.text ++
      js " retry attempts exhausted. Last error: " ++ (lastError.map Thrown.detail).getD (js "undefined")

/-- `err.attempts ?? 1`. -/
def RetryError.attempts : RetryError → JsNumber
  | .permanent _ => .finite 1
  | .exhausted attempts _ => attempts

/-! ## Timeouts -/

theorem append_cons_eq_append {s t a b : JsString} {u : UInt16} (h : s ++ u :: t = a ++ b) :
    (∃ c, a = s ++ u :: c) ∨ ∃ c, b = c ++ u :: t := by
  rcases List.append_eq_append_iff.mp h with ⟨c, hc, hd⟩ | ⟨c, -, hd⟩
  · cases c with
    | nil => exact .inr ⟨[], hd.symm⟩
    | cons v c =>
      cases (List.cons.inj hd).1
      exact .inl ⟨c, hc⟩
  · exact .inr ⟨c, hd⟩

/-- A text that is found around another one has a unit on one side of it. -/
theorem not_infix_append {p q : JsString} {u : UInt16} {a x b : JsString} (hx : u ∉ x)
    (ha : ¬ p ++ [u] <:+: a) (hb : ¬ u :: q <:+: b) : ¬ p ++ u :: q <:+: a ++ x ++ b := by
  rintro ⟨s, t, h⟩
  have h : (s ++ p) ++ u :: (q ++ t) = a ++ (x ++ b) := by simpa using h
  rcases append_cons_eq_append h with ⟨c, hc⟩ | ⟨c, hc⟩
  · exact ha ⟨s, c, by simp [hc]⟩
  · rcases append_cons_eq_append hc.symm with ⟨d, hd⟩ | ⟨d, hd⟩
    · exact hx (by simp [hd])
    · exact hb ⟨d, t, by simp [hd]⟩

theorem toLowerCase_append (s t : JsString) :
    toLowerCase (s ++ t) = toLowerCase s ++ toLowerCase t := List.flatMap_append

/-- What the text of a number in lower case is made of. -/
def isNumberUnit (u : UInt16) : Bool :=
  DecimalText.isDigit u || decide (u ∈ toLowerCase (js "+-.eInfinityNaN"))

theorem lowerUnit_of_isDigit {u : UInt16} (h : DecimalText.isDigit u = true) :
    lowerUnit u = [u] := by
  have hu := DecimalText.toNat_of_isDigit h
  rw [lowerUnit, if_neg, if_neg, if_neg]
  · rintro rfl
    exact absurd hu (by decide)
  · rintro rfl
    exact absurd hu (by decide)
  · rintro ⟨hle, -⟩
    have hle : 0x41 ≤ u.toNat := hle
    omega

theorem isNumberUnit_of_isNumberChar {c : Char} (h : JsonNumber.isNumberChar c = true) :
    ∀ u ∈ toLowerCase (JsString.utf16 c), isNumberUnit u = true := by
  simp only [JsonNumber.isNumberChar, Bool.or_eq_true, decide_eq_true_eq, or_assoc] at h
  rcases h with h | rfl | rfl | rfl | rfl | rfl
  · obtain ⟨hutf, hnat, hlow, hhigh⟩ := DecimalText.utf16_of_isDigit h
    have hdigit : DecimalText.isDigit (UInt16.ofNat c.toNat) = true := by
      rw [DecimalText.isDigit, hnat]
      simp [hlow, hhigh]
    intro u hu
    rw [hutf, toLowerCase, List.flatMap_singleton, lowerUnit_of_isDigit hdigit,
      List.mem_singleton] at hu
    rw [hu, isNumberUnit, hdigit, Bool.true_or]
  all_goals exact List.all_eq_true.mp (by decide +kernel)

theorem isNumberUnit_of_mem {n : JsNumber} :
    ∀ u ∈ toLowerCase n.text, isNumberUnit u = true := by
  intro u hu
  cases n with
  | finite q =>
    obtain ⟨v, hv, hu⟩ := List.mem_flatMap.mp hu
    obtain ⟨c, hc, hv⟩ := List.mem_flatMap.mp hv
    exact isNumberUnit_of_isNumberChar (JsonNumber.isNumberChar_of_mem_numberText hc) u
      (List.mem_flatMap.mpr ⟨v, hv, hu⟩)
  | infinity negative =>
    revert u
    cases negative <;> exact List.all_eq_true.mp (by decide +kernel)
  | nan =>
    revert u
    exact List.all_eq_true.mp (by decide +kernel)

/-- What stands before and behind the number of milliseconds. -/
def timeoutFront : JsString :=
  toLowerCase (js "submitAndWait" ++ js " did not complete within the per-attempt deadline of ")

def timeoutBack : JsString :=
  toLowerCase (js "ms; treating as a (possibly-applied) transient — the next attempt's idempotency " ++
    js "check will recover it if it landed (timed out).")

/-- Each pattern, cut at a unit that no number has. -/
def permanentSplits : List (JsString × UInt16 × JsString) :=
  [(js "tem", 0x62, js "ad"), (js "tefin", 0x76, js "alid"), (js "tefdst", 0x5F, js "tag"),
    (js "tem", 0x6D, js "alformed"), (js "tem", 0x72, js "edundant"), (js "not conne", 0x63, js "ted")]

theorem permanentPatterns_eq :
    permanentPatterns = permanentSplits.map fun x => x.1 ++ x.2.1 :: x.2.2 := by
  decide +kernel

theorem not_infix_permanentSplits : ∀ x ∈ permanentSplits, isNumberUnit x.2.1 = false ∧
    ¬ x.1 ++ [x.2.1] <:+: timeoutFront ∧ ¬ x.2.1 :: x.2.2 <:+: timeoutBack := by
  decide +kernel

/-- An attempt that has timed out is repeated. -/
theorem isRetryableXrplError_timeout (timeoutMs : JsNumber) :
    isRetryableXrplError (attemptTimeoutError timeoutMs (js "submitAndWait")) = true := by
  rw [attemptTimeoutError, isRetryableXrplError, permanentPatterns_eq, Bool.not_eq_true',
    List.any_map, List.any_eq_false]
  intro x hx
  obtain ⟨hunit, hfront, hback⟩ := not_infix_permanentSplits x hx
  rw [Function.comp_apply, decide_eq_true_eq, toLowerCase_append,
    toLowerCase_append _ (timeoutMs.text)]
  apply not_infix_append _ hfront hback
  -- the cut falls into the number, which has no such unit
  intro hmem
  rw [isNumberUnit_of_mem _ hmem] at hunit
  cases hunit

end Attestia.Witness
