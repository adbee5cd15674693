import Attestia.Lib.HexText
import Attestia.Lib.NumberText
import Attestia.Registrum.Attestation

/-!
# Attestations in memos

`attestation/generator.ts`: every field of a payload is the text of a memo, the two ends of the
range in one. The numbers are read back by `parseInt`, and the range is cut at its first minus.
-/

namespace Attestia.Registrum

open Lib JsString
open JsNumber (parseInt beforeMinus IsDouble IsPlain)
open DecimalText (minus)

structure XrplMemo where
  MemoType : JsString
  MemoData : JsString
  deriving DecidableEq

/-- A payload of which some fields may be missing. -/
structure PartialPayload where
  registrumVersion : Option JsString
  snapshotVersion : Option JsString
  snapshotHash : Option JsString
  registryHash : Option JsString
  mode : Option JsString
  parityStatus : Option JsString
  transitionRange : Option TransitionRange
  stateCount : Option JsNumber
  orderingMax : Option JsNumber
  deriving DecidableEq

def AttestationPayload.complete (p : AttestationPayload) : PartialPayload where
  registrumVersion := some p.registrumVersion
  snapshotVersion := some p.snapshotVersion
  snapshotHash := some p.snapshotHash
  registryHash := some p.registryHash
  mode := some p.mode
  parityStatus := some p.parityStatus
  transitionRange := some p.transitionRange
  stateCount := some p.stateCount
  orderingMax := some p.orderingMax

/-! ## Encoding -/

def rangeText (range : TransitionRange) : JsString :=
  range.fromIndex.string ++ minus :: range.toIndex.string

/-- The types and the data of the memos. -/
def memoEntries (p : AttestationPayload) : List (JsString × JsString) :=
  [(js "registrum:mode", p.mode), (js "registrum:ordering_max", p.orderingMax.string),
    (js "registrum:parity", p.parityStatus), (js "registrum:range", rangeText p.transitionRange),
    (js "registrum:registry_hash", p.registryHash), (js "registrum:snapshot_hash", p.snapshotHash),
    (js "registrum:snapshot_version", p.snapshotVersion),
    (js "registrum:state_count", p.stateCount.string),
    (js "registrum:version", p.registrumVersion)]

def memoOfEntry (e : JsString × JsString) : XrplMemo := ⟨toHex e.1, toHex e.2⟩

def encodeAsXrplMemos (localeCompare : JsString → JsString → ℤ) (p : AttestationPayload) :
    List XrplMemo :=
  ((memoEntries p).insertionSort fun a b => localeCompare a.1 b.1 ≤ 0).map memoOfEntry

/-! ## Decoding -/

def entryOf (memo : XrplMemo) : JsString × JsString := (fromHex memo.MemoType, fromHex memo.MemoData)

/-- The data of the last memo of each type. -/
def memoData (memos : List XrplMemo) : JsMap JsString JsString :=
  JsMap.empty.setAll (memos.map entryOf)

/-- The first two parts between the minuses, where there are two. -/
def readRange (s : JsString) : Option TransitionRange :=
  match s.dropWhile (· ≠ minus) with
  | [] => none
  | _ :: rest => some ⟨parseInt (beforeMinus s), parseInt (beforeMinus rest)⟩

def readPayload (result : JsMap JsString JsString) : PartialPayload where
  registrumVersion := result.get? (js "registrum:version")
  snapshotVersion := result.get? (js "registrum:snapshot_version")
  snapshotHash := result.get? (js "registrum:snapshot_hash")
  registryHash := result.get? (js "registrum:registry_hash")
  mode := result.get? (js "registrum:mode")
  parityStatus := result.get? (js "registrum:parity")
  transitionRange := (result.get? (js "registrum:range")).bind readRange
  stateCount := (result.get? (js "registrum:state_count")).map parseInt
  orderingMax := (result.get? (js "registrum:ordering_max")).map parseInt

def decodeXrplMemos (memos : List XrplMemo) : PartialPayload := readPayload (memoData memos)

/-! ## The texts of a payload -/

/-- The strings are well formed, and the numbers are numbers of the language. -/
structure AttestationPayload.Proper (p : AttestationPayload) : Prop where
  registrumVersion : IsWellFormed p.registrumVersion
  snapshotVersion : IsWellFormed p.snapshotVersion
  snapshotHash : IsWellFormed p.snapshotHash
  registryHash : IsWellFormed p.registryHash
  mode : IsWellFormed p.mode
  parityStatus : IsWellFormed p.parityStatus
  fromIndex : IsDouble p.transitionRange.fromIndex
  toIndex : IsDouble p.transitionRange.toIndex
  stateCount : IsDouble p.stateCount
  orderingMax : IsDouble p.orderingMax

theorem isWellFormed_append {a b : JsString} (ha : IsWellFormed a) (hb : IsWellFormed b) :
    IsWellFormed (a ++ b) := by
  obtain ⟨as, rfl⟩ := ha
  obtain ⟨bs, rfl⟩ := hb
  exact ⟨as ++ bs, List.flatMap_append.symm⟩

theorem isWellFormed_string (x : JsNumber) : IsWellFormed x.string := ⟨x.chars, rfl⟩

theorem isWellFormed_rangeText (range : TransitionRange) : IsWellFormed (rangeText range) := by
  apply isWellFormed_append (isWellFormed_string _)
  exact isWellFormed_append (a := [minus]) ⟨['-'], rfl⟩ (isWellFormed_string _)

variable {localeCompare : JsString → JsString → ℤ} {p p' : AttestationPayload}

theorem isWellFormed_memoEntries (h : p.Proper) {e : JsString × JsString}
    (he : e ∈ memoEntries p) : IsWellFormed e.1 ∧ IsWellFormed e.2 := by
  simp only [memoEntries, List.mem_cons, List.not_mem_nil, or_false] at he
  rcases he with rfl | rfl | rfl | rfl | rfl | rfl | rfl | rfl | rfl
  · exact ⟨isWellFormed_js _, h.mode⟩
  · exact ⟨isWellFormed_js _, isWellFormed_string _⟩
  · exact ⟨isWellFormed_js _, h.parityStatus⟩
  · exact ⟨isWellFormed_js _, isWellFormed_rangeText _⟩
  · exact ⟨isWellFormed_js _, h.registryHash⟩
  · exact ⟨isWellFormed_js _, h.snapshotHash⟩
  · exact ⟨isWellFormed_js _, h.snapshotVersion⟩
  · exact ⟨isWellFormed_js _, isWellFormed_string _⟩
  · exact ⟨isWellFormed_js _, h.registrumVersion⟩

theorem nodup_memoEntries (p : AttestationPayload) : ((memoEntries p).map Prod.fst).Nodup := by
  simp [memoEntries]

/-- The memos hold the entries, in some order. -/
theorem entries_encode (h : p.Proper) :
    ((encodeAsXrplMemos localeCompare p).map entryOf).Perm (memoEntries p) := by
  have hentry : ∀ e ∈ memoEntries p, entryOf (memoOfEntry e) = e := fun e he => by
    obtain ⟨h1, h2⟩ := isWellFormed_memoEntries h he
    rw [entryOf, memoOfEntry, fromHex_toHex h1, fromHex_toHex h2]
  have hperm := List.perm_insertionSort (fun a b : JsString × JsString =>
    localeCompare a.1 b.1 ≤ 0) (memoEntries p)
  have hsame : (encodeAsXrplMemos localeCompare p).map entryOf =
      (memoEntries p).insertionSort fun a b => localeCompare a.1 b.1 ≤ 0 := by
    rw [encodeAsXrplMemos, List.map_map]
    conv_rhs => rw [← List.map_id ((memoEntries p).insertionSort _)]
    apply List.map_congr_left
    intro e he
    exact hentry e (hperm.mem_iff.mp he)
  rw [hsame]
  exact hperm

/-- The data of a type is the one of the payload. -/
theorem get?_memoData_encode (h : p.Proper) {type data : JsString} :
    (memoData (encodeAsXrplMemos localeCompare p)).get? type = some data ↔
      (type, data) ∈ memoEntries p := by
  have hperm := @entries_encode localeCompare p h
  have hnodup : (((encodeAsXrplMemos localeCompare p).map entryOf).map Prod.fst).Nodup :=
    (hperm.map Prod.fst).nodup_iff.mpr (nodup_memoEntries p)
  have hentries := JsMap.entries_setAll (m := .empty) hnodup fun _ _ => List.not_mem_nil
  rw [JsMap.get?_eq_some, memoData, hentries]
  exact hperm.mem_iff

/-! ## The range -/

theorem beforeMinus_append (a b : JsString) : beforeMinus (a ++ minus :: b) = beforeMinus a := by
  induction a with
  | nil => exact List.takeWhile_cons_of_neg (by decide)
  | cons u a ih =>
    by_cases hu : u = minus
    · rw [hu]
      exact (List.takeWhile_cons_of_neg (by decide)).trans
        (List.takeWhile_cons_of_neg (by decide)).symm
    · rw [List.cons_append, beforeMinus, List.takeWhile_cons_of_pos (by simpa using hu), beforeMinus,
        List.takeWhile_cons_of_pos (by simpa using hu)]
      exact congrArg (u :: ·) ih

theorem dropWhile_append_minus {a : JsString} (h : minus ∉ a) (b : JsString) :
    (a ++ minus :: b).dropWhile (· ≠ minus) = minus :: b := by
  have hpos : ∀ u ∈ a, decide (u ≠ minus) = true := fun u hu =>
    decide_eq_true fun heq => h (heq ▸ hu)
  rw [List.dropWhile_append_of_pos hpos]
  exact List.dropWhile_cons_of_neg (by decide)

theorem minus_notMem_of_isPlain {x : JsNumber} (hx : x.IsDouble) (h : x.IsPlain) :
    minus ∉ x.string := by
  rcases h with heq | ⟨n, hn, heq⟩
  · rw [heq]
    decide
  · obtain ⟨v, hv, -⟩ := JsNumber.string_natCast (hx _ heq) hn
    rw [heq, hv]
    exact fun hmem => DecimalText.ne_minus_of_isDigit (DecimalText.isDigit_of_mem_natDigits hmem) rfl

/-- What is read of a range is in front its first number as far as its first minus. -/
theorem readRange_eq_some {range range' : TransitionRange}
    (h : readRange (rangeText range) = some range') :
    range'.fromIndex = parseInt (beforeMinus range.fromIndex.string) := by
  unfold readRange at h
  split at h
  · cases h
  · rw [← Option.some.inj h, rangeText, beforeMinus_append]

theorem readRange_rangeText {range : TransitionRange} (h : minus ∉ range.fromIndex.string) :
    readRange (rangeText range) = some ⟨parseInt (beforeMinus range.fromIndex.string),
      parseInt (beforeMinus range.toIndex.string)⟩ := by
  rw [readRange, rangeText, dropWhile_append_minus h, beforeMinus_append]

/-- A range comes back exactly where both of its ends are plain. -/
theorem readRange_rangeText_iff {range : TransitionRange} (hfrom : range.fromIndex.IsDouble)
    (hto : range.toIndex.IsDouble) :
    readRange (rangeText range) = some range ↔ range.fromIndex.IsPlain ∧ range.toIndex.IsPlain := by
  constructor
  · intro h
    have hplain := (JsNumber.parseInt_beforeMinus_iff hfrom).mp (readRange_eq_some h).symm
    rw [readRange_rangeText (minus_notMem_of_isPlain hfrom hplain)] at h
    have hsecond := congrArg TransitionRange.toIndex (Option.some.inj h)
    exact ⟨hplain, (JsNumber.parseInt_beforeMinus_iff hto).mp hsecond⟩
  · intro ⟨hplain, hplain'⟩
    rw [readRange_rangeText (minus_notMem_of_isPlain hfrom hplain),
      (JsNumber.parseInt_beforeMinus_iff hfrom).mpr hplain,
      (JsNumber.parseInt_beforeMinus_iff hto).mpr hplain']

/-! ## The round trip -/

/-- The data that is looked up for each field of a payload. -/
structure Holds (result : JsMap JsString JsString) (p : AttestationPayload) : Prop where
  registrumVersion : result.get? (js "registrum:version") = some p.registrumVersion
  snapshotVersion : result.get? (js "registrum:snapshot_version") = some p.snapshotVersion
  snapshotHash : result.get? (js "registrum:snapshot_hash") = some p.snapshotHash
  registryHash : result.get? (js "registrum:registry_hash") = some p.registryHash
  mode : result.get? (js "registrum:mode") = some p.mode
  parityStatus : result.get? (js "registrum:parity") = some p.parityStatus
  transitionRange : result.get? (js "registrum:range") = some (rangeText p.transitionRange)
  stateCount : result.get? (js "registrum:state_count") = some p.stateCount.string
  orderingMax : result.get? (js "registrum:ordering_max") = some p.orderingMax.string

theorem holds_memoData (h : p.Proper) : Holds (memoData (encodeAsXrplMemos localeCompare p)) p := by
  constructor <;> exact (get?_memoData_encode h).mpr (by simp [memoEntries])

/-- What is decoded of the memos of a payload. -/
theorem decodeXrplMemos_encode (h : p.Proper) :
    decodeXrplMemos (encodeAsXrplMemos localeCompare p) =
      { p.complete with
        transitionRange := readRange (rangeText p.transitionRange)
        stateCount := some (parseInt p.stateCount.string)
        orderingMax := some (parseInt p.orderingMax.string) } := by
  have hholds := @holds_memoData localeCompare p h
  rw [decodeXrplMemos, readPayload, hholds.registrumVersion, hholds.snapshotVersion,
    hholds.snapshotHash, hholds.registryHash, hholds.mode, hholds.parityStatus,
    hholds.transitionRange, hholds.stateCount, hholds.orderingMax]
  rfl

/-- A number without a fraction whose text has no exponent. -/
def IsBelow (x : JsNumber) : Prop := ∃ n : ℤ, n.natAbs < 10 ^ 21 ∧ x = .finite n

/-- The payloads whose numbers their memos can carry. -/
structure AttestationPayload.Carried (p : AttestationPayload) : Prop where
  fromIndex : p.transitionRange.fromIndex.IsPlain
  toIndex : p.transitionRange.toIndex.IsPlain
  stateCount : IsBelow p.stateCount
  orderingMax : IsBelow p.orderingMax

theorem parseInt_string_iff_isBelow {x : JsNumber} (hx : x.IsDouble)
    (hinteger : isIntegerNumber (.number x) = true) : parseInt x.string = x ↔ IsBelow x := by
  cases x with
  | finite q =>
    obtain ⟨n, rfl⟩ : ∃ n : ℤ, q = n :=
      ⟨q.num, (Rat.coe_int_num_of_den_eq_one (of_decide_eq_true hinteger)).symm⟩
    rw [JsNumber.parseInt_string_iff (hx _ rfl)]
    constructor
    · intro hlt
      exact ⟨n, hlt, rfl⟩
    · intro ⟨m, hlt, heq⟩
      rw [Int.cast_injective (JsNumber.finite.inj heq)]
      exact hlt
  | infinity negative => cases hinteger
  | nan => cases hinteger

/-- A payload comes back from its memos exactly where they can carry its numbers. -/
theorem decode_eq_complete_iff (hform : WellFormed p.property) (h : p.Proper) :
    decodeXrplMemos (encodeAsXrplMemos localeCompare p) = p.complete ↔ p.Carried := by
  obtain ⟨hcount, hmax, -⟩ := wellFormed_property_iff.mp hform
  have hrange := readRange_rangeText_iff h.fromIndex h.toIndex
  have hcountIff := parseInt_string_iff_isBelow h.stateCount hcount
  have hmaxIff := parseInt_string_iff_isBelow h.orderingMax hmax
  rw [decodeXrplMemos_encode h]
  constructor
  · intro heq
    obtain ⟨hfrom, hto⟩ := hrange.mp (congrArg PartialPayload.transitionRange heq)
    have hcountEq := congrArg PartialPayload.stateCount heq
    have hmaxEq := congrArg PartialPayload.orderingMax heq
    exact ⟨hfrom, hto, hcountIff.mp (Option.some.inj hcountEq), hmaxIff.mp (Option.some.inj hmaxEq)⟩
  · intro hcarried
    rw [hrange.mpr ⟨hcarried.fromIndex, hcarried.toIndex⟩, hcountIff.mpr hcarried.stateCount,
      hmaxIff.mpr hcarried.orderingMax]
    rfl

/-- The memos of a payload determine it, whether or not it is decoded from them. -/
theorem encodeAsXrplMemos_inj (h : p.Proper) (h' : p'.Proper)
    (heq : encodeAsXrplMemos localeCompare p = encodeAsXrplMemos localeCompare p') : p = p' := by
  have hholds := @holds_memoData localeCompare p h
  have hholds' := @holds_memoData localeCompare p' h'
  rw [heq] at hholds
  have hrange := Option.some.inj (hholds.transitionRange.symm.trans hholds'.transitionRange)
  obtain ⟨hfrom, hto⟩ :=
    JsNumber.string_minus_inj h.fromIndex h.toIndex h'.fromIndex h'.toIndex hrange
  apply AttestationPayload.ext
  · exact Option.some.inj (hholds.registrumVersion.symm.trans hholds'.registrumVersion)
  · exact Option.some.inj (hholds.snapshotVersion.symm.trans hholds'.snapshotVersion)
  · exact Option.some.inj (hholds.snapshotHash.symm.trans hholds'.snapshotHash)
  · exact Option.some.inj (hholds.registryHash.symm.trans hholds'.registryHash)
  · exact Option.some.inj (hholds.mode.symm.trans hholds'.mode)
  · exact Option.some.inj (hholds.parityStatus.symm.trans hholds'.parityStatus)
  · exact TransitionRange.ext hfrom hto
  · exact JsNumber.string_inj h.stateCount h'.stateCount
      (Option.some.inj (hholds.stateCount.symm.trans hholds'.stateCount))
  · exact JsNumber.string_inj h.orderingMax h'.orderingMax
      (Option.some.inj (hholds.orderingMax.symm.trans hholds'.orderingMax))

/-- The round trip of a payload, and what the memos tell about it. -/
theorem roundTrip_iff_carried (hform : validateAttestationPayload p.value = .ok ())
    (h : p.Proper) :
    (decodeXrplMemos (encodeAsXrplMemos localeCompare p) = p.complete ↔ p.Carried) ∧
    ∀ p' : AttestationPayload, validateAttestationPayload p'.value = .ok () → p'.Proper →
      encodeAsXrplMemos localeCompare p' = encodeAsXrplMemos localeCompare p → p' = p := by
  obtain ⟨ref, q, hvalue, hwell⟩ := validateAttestationPayload_eq_ok.mp hform
  cases hvalue
  exact ⟨decode_eq_complete_iff hwell h, fun p' _ h' heq => encodeAsXrplMemos_inj h' h heq⟩

/-! ### A range below zero -/

/-- A payload of a range that starts at a number. -/
def payloadFrom (fromIndex : ℤ) : AttestationPayload where
  registrumVersion := js "1.0.0"
  snapshotVersion := js "1.0"
  snapshotHash := List.replicate 64 48
  registryHash := List.replicate 64 48
  mode := AttestationMode.dual.text
  parityStatus := ParityStatus.AGREED.text
  transitionRange := ⟨.finite fromIndex, .finite 0⟩
  stateCount := .finite 0
  orderingMax := .finite 0

theorem isHash_zeros : isHash (List.replicate 64 48) = true := by decide

theorem isWellFormed_zeros : IsWellFormed (List.replicate 64 48) :=
  ⟨List.replicate 64 '0', by decide⟩

theorem validate_payloadFrom (fromIndex : ℤ) :
    validateAttestationPayload (payloadFrom fromIndex).value = .ok () := by
  apply validateAttestationPayload_eq_ok.mpr
  exact ⟨_, _, rfl, wellFormed_property_iff.mpr ⟨rfl, rfl, mem_modeTexts .dual,
    mem_parityTexts .AGREED, isHash_zeros, isHash_zeros⟩⟩

theorem isDouble_intCast {n : ℤ} (h : |n| ≤ 2 ^ 53) : IsDouble (.finite n) := by
  intro q hq
  rw [← JsNumber.finite.inj hq]
  refine ⟨⟨n, 0, by simp, h, by norm_num⟩, ?_⟩
  calc |(n : ℚ)| ≤ 2 ^ 53 := by exact_mod_cast h
    _ < 2 ^ 1024 := pow_lt_pow_right₀ (by norm_num) (by norm_num)

theorem isDouble_zero : IsDouble (.finite 0) := by
  have h := isDouble_intCast (n := 0) (by norm_num)
  rwa [Int.cast_zero] at h

theorem proper_payloadFrom {fromIndex : ℤ} (h : |fromIndex| ≤ 2 ^ 53) :
    (payloadFrom fromIndex).Proper where
  registrumVersion := isWellFormed_js _
  snapshotVersion := isWellFormed_js _
  snapshotHash := isWellFormed_zeros
  registryHash := isWellFormed_zeros
  mode := isWellFormed_js _
  parityStatus := isWellFormed_js _
  fromIndex := isDouble_intCast h
  toIndex := isDouble_zero
  stateCount := isDouble_zero
  orderingMax := isDouble_zero

/-- The range from minus one to zero is cut at its first character. -/
theorem decode_ne_complete_negative :
    validateAttestationPayload (payloadFrom (-1)).value = .ok () ∧ (payloadFrom (-1)).Proper ∧
      ∀ localeCompare, decodeXrplMemos (encodeAsXrplMemos localeCompare (payloadFrom (-1))) ≠
        (payloadFrom (-1)).complete := by
  have hproper : (payloadFrom (-1)).Proper := proper_payloadFrom (by norm_num)
  refine ⟨validate_payloadFrom _, hproper, fun localeCompare heq => ?_⟩
  obtain ⟨ref, q, hvalue, hwell⟩ := validateAttestationPayload_eq_ok.mp (validate_payloadFrom (-1))
  cases hvalue
  rcases ((decode_eq_complete_iff hwell hproper).mp heq).fromIndex with hnan | ⟨n, -, hn⟩
  · cases hnan
  · have hcast : ((-1 : ℤ) : ℚ) = ((n : ℤ) : ℚ) := JsNumber.finite.inj hn
    have hint := Int.cast_injective hcast
    omega

theorem roundTrip_iff_carried_payloadFrom :
    decodeXrplMemos (encodeAsXrplMemos (fun _ _ => 0) (payloadFrom 5)) = (payloadFrom 5).complete ∧
      encodeAsXrplMemos (fun _ _ => 0) (payloadFrom 4) ≠
        encodeAsXrplMemos (fun _ _ => 0) (payloadFrom 5) := by
  have hroundTrip := @roundTrip_iff_carried (fun _ _ => 0) _
    (validate_payloadFrom 5) (proper_payloadFrom (by norm_num))
  have hzero : IsBelow (.finite 0) := ⟨0, by norm_num, by rw [Int.cast_zero]⟩
  refine ⟨hroundTrip.1.mpr ⟨.inr ⟨5, by norm_num, rfl⟩, .inr ⟨0, by norm_num, rfl⟩, hzero, hzero⟩, ?_⟩
  intro heq
  have hsame := hroundTrip.2 _ (validate_payloadFrom 4) (proper_payloadFrom (by norm_num)) heq
  have hfrom := congrArg (fun p : AttestationPayload => p.transitionRange.fromIndex) hsame
  have hcast : ((4 : ℤ) : ℚ) = ((5 : ℤ) : ℚ) := JsNumber.finite.inj hfrom
  have hint := Int.cast_injective hcast
  omega

end Attestia.Registrum
