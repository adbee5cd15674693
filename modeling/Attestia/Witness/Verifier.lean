import Attestia.Lib.HexText
import Attestia.Witness.SigningPayload
import Attestia.Witness.Submitter

/-!
# Verification of a witness

`verifier.ts`: the payload in the first memo of the program is read from the transaction of a
record. Its hash is compared with that of the payload in the record, and with that of its own
content. What the record itself holds besides the hash is not looked at.
-/

namespace Attestia.Witness

open Lib JsString

/-! ## Memos -/

def MEMO_TYPE : JsString := js "attestia/witness/v1"

def MEMO_FORMAT : JsString := js "application/json"

def MAX_MEMO_BYTES : ℕ := 256 * 1024

/-- A memo as the ledger returns it, in which every field may be missing. -/
structure XrplMemo where
  MemoType : Option JsString
  MemoData : Option JsString
  MemoFormat : Option JsString

/-- What decoding and verifying throw. -/
inductive VerifyFault where
  | memoTooLarge (hexLength : ℕ)
  | noText
  | memoType (actual : JsString)
  | notJson
  | nullPayload
  | noString
  | request (message : JsString)

def VerifyFault.message : VerifyFault → JsString
  | memoTooLarge hexLength => js "Memo payload too large: " ++
      JsNumber.text (.finite (hexLength / 2 : ℚ)) ++ js " bytes (max " ++
      JsNumber.text (.finite MAX_MEMO_BYTES) ++ js " bytes)"
  | noText => js ("The first argument must be of type string or an instance of Buffer, " ++
      "ArrayBuffer, or Array or an Array-like Object. Received undefined")
  | memoType actual => js "Unexpected memo type: expected \"" ++ MEMO_TYPE ++ js "\", got \"" ++
      actual ++ js "\""
  | notJson => js "Failed to parse attestation payload from memo data"
  | nullPayload => js "Cannot read properties of null (reading 'hash')"
  | noString => js "Cannot convert object to primitive value"
  | request message => message

def encodeMemo (payload : JsonValue) : Except VerifyFault XrplMemo := do
  let hexData := toHex (units payload.text)
  throwIf (MAX_MEMO_BYTES * 2 < hexData.length) (.memoTooLarge hexData.length)
  return ⟨some (toHex MEMO_TYPE), some hexData, some (toHex MEMO_FORMAT)⟩

/-- The text of a field, which must be there. -/
def fieldText : Option JsString → Except VerifyFault JsString
  | none => .error .noText
  | some hex => .ok (fromHex hex)

def decodeMemo (memo : XrplMemo) : Except VerifyFault JsonValue := do
  let memoType ← fieldText memo.MemoType
  throwIf (memoType ≠ MEMO_TYPE) (.memoType memoType)
  let payloadJson ← fieldText memo.MemoData
  match JsonValue.parse (toWellFormed payloadJson) with
  | none => .error .notJson
  | some payload => .ok payload

def isAttestiaMemo (memo : XrplMemo) : Bool :=
  match memo.MemoType with
  | none => false
  | some hex => fromHex hex = MEMO_TYPE

/-- A memo of the program that holds a payload. -/
def memoOf (payload : JsonValue) : XrplMemo :=
  ⟨some (toHex MEMO_TYPE), some (toHex (units payload.text)), some (toHex MEMO_FORMAT)⟩

theorem fromHex_toHex_memoType : fromHex (toHex MEMO_TYPE) = MEMO_TYPE :=
  fromHex_toHex (isWellFormed_js _)

theorem isAttestiaMemo_memoOf (payload : JsonValue) : isAttestiaMemo (memoOf payload) = true :=
  decide_eq_true fromHex_toHex_memoType

theorem decodeMemo_memoOf (payload : JsonValue) : decodeMemo (memoOf payload) = .ok payload := by
  have hdata : fromHex (toHex (units payload.text)) = units payload.text := fromHex_toHex ⟨_, rfl⟩
  refine bind_eq_ok.mpr ⟨MEMO_TYPE, congrArg Except.ok fromHex_toHex_memoType, ?_⟩
  refine bind_unit_eq_ok.mpr ⟨throwIf_eq_ok.mpr (not_not.mpr rfl), ?_⟩
  refine bind_eq_ok.mpr ⟨units payload.text, congrArg Except.ok hdata, ?_⟩
  rw [toWellFormed_units, JsonValue.parse_text]

/-- A payload that fits into a memo is read back. -/
theorem decodeMemo_encodeMemo {payload : JsonValue} {memo : XrplMemo}
    (h : encodeMemo payload = .ok memo) :
    isAttestiaMemo memo = true ∧ decodeMemo memo = .ok payload := by
  obtain ⟨-, h⟩ := bind_unit_eq_ok.mp h
  rw [← Except.ok.inj h]
  exact ⟨isAttestiaMemo_memoOf payload, decodeMemo_memoOf payload⟩

/-! ## The verification -/

structure VerificationResult where
  verified : Bool
  witnessRecord : WitnessRecord
  onChainHash : Option JsonValue
  discrepancies : List JsString

/-- What the ledger answers: the memos of a transaction, which may have none, or an error. -/
abbrev TxAnswer := Except JsString (Option (List XrplMemo))

/-- What the hash of a payload is taken of, in a payload of any form. -/
def contentOf (payload : JsonValue) : JsonValue :=
  .object [(js "source", payload.get? (js "source")), (js "summary", payload.get? (js "summary")),
    (js "timestamp", payload.get? (js "timestamp"))]

def hasHash (payload : JsonValue) (hash : JsString) : Bool :=
  (payload.get? (js "hash")).any fun v => v.strictEq (.str hash)

/-- The hash in a message. -/
def hashText (payload : JsonValue) : Except VerifyFault JsString :=
  match payload.get? (js "hash") with
  | none => .ok (js "undefined")
  | some v =>
    match JsonValue.toJsString v.val with
    | none => .error .noString
    | some text => .ok text

section

variable (canonicalize : JsonValue → String)

/-- `verifyPayloadHash` of a payload of any form. -/
def payloadHashVerifies (payload : JsonValue) : Bool :=
  hasHash payload (Verify.sha256Hex (canonicalize (contentOf payload)))

def unverified (record : WitnessRecord) (message : JsString) : VerificationResult :=
  ⟨false, record, none, [message]⟩

/-- The comparison of the hash with that of the record. -/
def hashMismatch (record : WitnessRecord) (onChainPayload : JsonValue) :
    Except VerifyFault (List JsString) :=
  if hasHash onChainPayload record.payload.hash then .ok []
  else (hashText onChainPayload).map fun text =>
    [js "Hash mismatch: on-chain=" ++ text ++ js " expected=" ++ record.payload.hash]

def checkPayload (record : WitnessRecord) (onChainPayload : JsonValue) :
    Except VerifyFault VerificationResult := do
  throwIf (JsonValue.isNull onChainPayload.val) .nullPayload
  let mismatch ← hashMismatch record onChainPayload
  let discrepancies := mismatch ++
    if payloadHashVerifies canonicalize onChainPayload then []
    else [js "On-chain payload hash does not match its content"]
  return ⟨discrepancies = [], record, onChainPayload.get? (js "hash"), discrepancies⟩

def checkMemos (record : WitnessRecord) (memos : List XrplMemo) :
    Except VerifyFault VerificationResult :=
  if memos = [] then .ok (unverified record (js "Transaction has no memos"))
  else
    match memos.find? isAttestiaMemo with
    | none => .ok (unverified record (js "No Attestia witness memo found in transaction"))
    | some memo => do
      let onChainPayload ← decodeMemo memo
      checkPayload canonicalize record onChainPayload

/-- What is thrown is caught. -/
def caught (record : WitnessRecord) : Except VerifyFault VerificationResult → VerificationResult
  | .ok result => result
  | .error fault => unverified record (js "Failed to fetch transaction: " ++ fault.message)

def verify (record : WitnessRecord) (answer : TxAnswer) : VerificationResult :=
  caught record do
    let memos ← answer.mapError VerifyFault.request
    checkMemos canonicalize record (memos.getD [])

end

/-! ## Soundness -/

/-- The attestation payload of a transaction. -/
def attestationPayload (answer : TxAnswer) : Option JsonValue := do
  let memos ← answer.toOption
  let memo ← (memos.getD []).find? isAttestiaMemo
  (decodeMemo memo).toOption

/-- The source, the summary and the timestamp are the same, up to the order of members. -/
def SamePayload (payload : AttestationPayload) (onChain : JsonValue) : Prop :=
  ∃ content, payload.content.json = some content ∧ content.Same (contentOf onChain)

section

variable (canonicalize : JsonValue → String) (record : WitnessRecord) (answer : TxAnswer)

/-- A record that is verified holds the content of the payload in the transaction. -/
def VerifiesSoundly : Prop :=
  (verify canonicalize record answer).verified = true →
    ∃ onChain, attestationPayload answer = some onChain ∧ SamePayload record.payload onChain

/-- The hash in the record is that of the content in the record. -/
def SelfConsistent : Prop :=
  ∃ content, record.payload.content.json = some content ∧
    Verify.sha256Hex (canonicalize content) = record.payload.hash

/-- The payload in the transaction has the hash of the record, and that is the hash of its own
content. -/
def Attested : Prop :=
  ∃ onChain, attestationPayload answer = some onChain ∧
    hasHash onChain record.payload.hash = true ∧ payloadHashVerifies canonicalize onChain = true

/-- The contents that are hashed for a record and a transaction. -/
def verifierMessages : Set Bytes :=
  {m | ∃ content, m = Verify.message canonicalize content ∧
    (record.payload.content.json = some content ∨
      ∃ onChain, attestationPayload answer = some onChain ∧ content = contentOf onChain)}

end

variable {canonicalize : JsonValue → String} {record : WitnessRecord} {answer : TxAnswer}
  {payload : JsonValue}

theorem hasHash_eq_true {hash : JsString} :
    hasHash payload hash = true ↔ payload.get? (js "hash") = some (.str hash) := by
  rw [hasHash, Option.any_eq_true]
  simp only [JsonValue.strictEq_str]
  constructor
  · intro ⟨v, hv, heq⟩
    exact heq ▸ hv
  · intro h
    exact ⟨_, h, rfl⟩

theorem isNull_of_hasHash {hash : JsString} (h : hasHash payload hash = true) :
    JsonValue.isNull payload.val = false := by
  obtain ⟨v, hv⟩ := payload
  cases v with
  | null => cases h
  | _ => rfl

theorem hashMismatch_eq_nil : hashMismatch record payload = .ok [] ↔
    hasHash payload record.payload.hash = true := by
  rw [hashMismatch]
  split
  · rename_i h
    exact iff_of_true rfl h
  · rename_i h
    refine iff_of_false (fun hmap => ?_) h
    obtain ⟨text, -, heq⟩ := map_eq_ok.mp hmap
    cases heq

theorem checkPayload_verified : (∃ result, checkPayload canonicalize record payload = .ok result ∧
    result.verified = true) ↔ hasHash payload record.payload.hash = true ∧
      payloadHashVerifies canonicalize payload = true := by
  rw [checkPayload]
  constructor
  · intro ⟨result, hresult, hverified⟩
    obtain ⟨-, hresult⟩ := bind_unit_eq_ok.mp hresult
    obtain ⟨mismatch, hmismatch, hresult⟩ := bind_eq_ok.mp hresult
    rw [← Except.ok.inj hresult, decide_eq_true_eq, List.append_eq_nil_iff] at hverified
    rw [hverified.1] at hmismatch
    refine ⟨hashMismatch_eq_nil.mp hmismatch, ?_⟩
    by_contra hno
    have hnil := hverified.2
    rw [if_neg hno] at hnil
    cases hnil
  · intro ⟨hhash, hself⟩
    have hnull : ¬ JsonValue.isNull payload.val = true := by
      rw [isNull_of_hasHash hhash]
      decide
    refine ⟨_, bind_unit_eq_ok.mpr ⟨throwIf_eq_ok.mpr hnull,
      bind_eq_ok.mpr ⟨[], hashMismatch_eq_nil.mpr hhash, rfl⟩⟩, ?_⟩
    rw [if_pos hself]
    rfl

theorem checkMemos_verified {memos : List XrplMemo} :
    (∃ result, checkMemos canonicalize record memos = .ok result ∧ result.verified = true) ↔
      ∃ memo payload, memos.find? isAttestiaMemo = some memo ∧ decodeMemo memo = .ok payload ∧
        hasHash payload record.payload.hash = true ∧
          payloadHashVerifies canonicalize payload = true := by
  rw [checkMemos]
  cases hfind : memos.find? isAttestiaMemo with
  | none =>
    refine iff_of_false (fun ⟨result, hresult, hverified⟩ => ?_) fun ⟨_, _, h, _⟩ => ?_
    · split at hresult <;> cases hresult <;> cases hverified
    · cases h
  | some memo =>
    rw [if_neg (List.ne_nil_of_mem (List.mem_of_find?_eq_some hfind))]
    dsimp only
    constructor
    · intro ⟨result, hresult, hverified⟩
      obtain ⟨payload, hpayload, hresult⟩ := bind_eq_ok.mp hresult
      exact ⟨memo, payload, rfl, hpayload, checkPayload_verified.mp ⟨result, hresult, hverified⟩⟩
    · intro ⟨_, payload, hmemo, hpayload, hattested⟩
      cases hmemo
      obtain ⟨result, hresult, hverified⟩ := checkPayload_verified.mpr hattested
      exact ⟨result, bind_eq_ok.mpr ⟨payload, hpayload, hresult⟩, hverified⟩

theorem verified_caught {x : Except VerifyFault VerificationResult} :
    (caught record x).verified = true ↔ ∃ result, x = .ok result ∧ result.verified = true := by
  cases x with
  | ok result => simp [caught]
  | error fault => simp [caught, unverified]

theorem toOption_eq_some {ε α : Type} {x : Except ε α} {a : α} :
    x.toOption = some a ↔ x = .ok a := by
  cases x <;> simp [Except.toOption]

theorem attestationPayload_eq_some : attestationPayload answer = some payload ↔
    ∃ memos memo, answer = .ok memos ∧ (memos.getD []).find? isAttestiaMemo = some memo ∧
      decodeMemo memo = .ok payload := by
  cases answer with
  | error message => exact iff_of_false (fun h => (by cases h)) fun ⟨_, _, h, _⟩ => (by cases h)
  | ok memos =>
    show ((memos.getD []).find? isAttestiaMemo).bind
      (fun memo => (decodeMemo memo).toOption) = _ ↔ _
    rw [Option.bind_eq_some_iff]
    constructor
    · intro ⟨memo, hmemo, hpayload⟩
      exact ⟨memos, memo, rfl, hmemo, toOption_eq_some.mp hpayload⟩
    · intro ⟨_, memo, hmemos, hmemo, hpayload⟩
      cases hmemos
      exact ⟨memo, hmemo, toOption_eq_some.mpr hpayload⟩

/-- What is verified is attested. -/
theorem verified_iff_attested :
    (verify canonicalize record answer).verified = true ↔ Attested canonicalize record answer := by
  rw [verify, verified_caught, Attested]
  constructor
  · intro ⟨result, hresult, hverified⟩
    obtain ⟨memos, hmemos, hresult⟩ := bind_eq_ok.mp hresult
    obtain ⟨memo, payload, hmemo, hpayload, hattested⟩ :=
      checkMemos_verified.mp ⟨result, hresult, hverified⟩
    refine ⟨payload, attestationPayload_eq_some.mpr ⟨memos, memo, ?_, hmemo, hpayload⟩, hattested⟩
    exact mapError_eq_ok.mp hmemos
  · intro ⟨payload, hpayload, hattested⟩
    obtain ⟨memos, memo, rfl, hmemo, hpayload⟩ := attestationPayload_eq_some.mp hpayload
    obtain ⟨result, hresult, hverified⟩ :=
      checkMemos_verified.mpr ⟨memo, payload, hmemo, hpayload, hattested⟩
    exact ⟨result, bind_eq_ok.mpr ⟨memos, rfl, hresult⟩, hverified⟩

/-- The record of an attested payload holds its content where its own hash is consistent. -/
theorem samePayload_iff_selfConsistent {onChain : JsonValue}
    (hcanon : ∀ v w, canonicalize v = canonicalize w ↔ v.Same w)
    (hcf : CollisionFree (verifierMessages canonicalize record answer))
    (honChain : attestationPayload answer = some onChain)
    (hhash : hasHash onChain record.payload.hash = true)
    (hself : payloadHashVerifies canonicalize onChain = true) :
    SamePayload record.payload onChain ↔ SelfConsistent canonicalize record := by
  have hcontent : Verify.sha256Hex (canonicalize (contentOf onChain)) = record.payload.hash := by
    have heq := (hasHash_eq_true.mp hself).symm.trans (hasHash_eq_true.mp hhash)
    exact JsonValue.str_injective (Option.some.inj heq)
  constructor
  · intro ⟨content, hjson, hsame⟩
    refine ⟨content, hjson, ?_⟩
    rw [(hcanon _ _).mpr hsame, hcontent]
  · intro ⟨content, hjson, hsha⟩
    refine ⟨content, hjson, ?_⟩
    exact Verify.same_of_sha256Hex_eq (fun v w => (hcanon v w).mp) hcf ⟨content, rfl, .inl hjson⟩
      ⟨_, rfl, .inr ⟨onChain, honChain, rfl⟩⟩ (hsha.trans hcontent.symm)

/-- A verification is sound where the record is consistent with its own hash, or where the
transaction does not attest that hash. -/
theorem verifiesSoundly_iff_selfConsistent
    (hcanon : ∀ v w, canonicalize v = canonicalize w ↔ v.Same w)
    (hcf : CollisionFree (verifierMessages canonicalize record answer)) :
    VerifiesSoundly canonicalize record answer ↔
      SelfConsistent canonicalize record ∨ ¬ Attested canonicalize record answer := by
  rw [VerifiesSoundly, verified_iff_attested, or_iff_not_imp_right, not_not]
  constructor
  · intro hsound hattested
    obtain ⟨onChain, honChain, hhash, hself⟩ := hattested
    obtain ⟨other, hother, hsame⟩ := hsound ⟨onChain, honChain, hhash, hself⟩
    cases honChain.symm.trans hother
    exact (samePayload_iff_selfConsistent hcanon hcf honChain hhash hself).mp hsame
  · intro hconsistent ⟨onChain, honChain, hhash, hself⟩
    have hrecord := hconsistent ⟨onChain, honChain, hhash, hself⟩
    exact ⟨onChain, honChain,
      (samePayload_iff_selfConsistent hcanon hcf honChain hhash hself).mpr hrecord⟩

/-! ### An altered record -/

/-- The payload of an attestation as JSON, under the hash of its content. -/
def attestedPayload (content : PayloadContent) : Option JsonValue := do
  let source ← content.source.json
  let summary ← content.summary.json
  let members := [(js "timestamp", some (JsonValue.str content.timestamp)),
    (js "source", some source), (js "summary", some summary)]
  let hash := Verify.sha256Hex (contentOf (.object members)).canonicalText
  return .object ((js "hash", some (.str hash)) :: members)

theorem attested_attestedPayload {content : PayloadContent} {onChain : JsonValue}
    (h : attestedPayload content = some onChain) :
    content.json = some (contentOf onChain) ∧
      payloadHashVerifies JsonValue.canonicalText onChain = true := by
  obtain ⟨source, hsource, h⟩ := Option.bind_eq_some_iff.mp h
  obtain ⟨summary, hsummary, h⟩ := Option.bind_eq_some_iff.mp h
  rw [← Option.some.inj h]
  constructor
  · rw [PayloadContent.json, hsource, hsummary]
    simp [contentOf]
  · rw [payloadHashVerifies, hasHash_eq_true]
    simp [contentOf]

def recordOf (payload : AttestationPayload) : WitnessRecord :=
  ⟨js "w", payload, js "xrpl:testnet", js "tx", .finite 1, js "t", js "r"⟩

def answerOf (onChain : JsonValue) : TxAnswer := .ok (some [memoOf onChain])

theorem attestationPayload_answerOf (onChain : JsonValue) :
    attestationPayload (answerOf onChain) = some onChain := by
  refine attestationPayload_eq_some.mpr ⟨_, memoOf onChain, rfl, ?_, decodeMemo_memoOf onChain⟩
  exact List.find?_cons_of_pos (isAttestiaMemo_memoOf onChain)

/-- A transaction attests the records of the hash of its payload. -/
theorem attested_answerOf {content : PayloadContent} {onChain : JsonValue}
    {payload : AttestationPayload} (h : attestedPayload content = some onChain)
    (hhash : payload.hash = Verify.sha256Hex (contentOf onChain).canonicalText) :
    Attested JsonValue.canonicalText (recordOf payload) (answerOf onChain) := by
  have hself := (attested_attestedPayload h).2
  refine ⟨onChain, attestationPayload_answerOf onChain, ?_, hself⟩
  show hasHash onChain payload.hash = true
  rw [hhash]
  exact hself

theorem exists_attestedPayload :
    ∃ onChain, attestedPayload (attestationOf []).content = some onChain :=
  Option.isSome_iff_exists.mp (by decide +kernel)

/-- A payload with another verdict than the one that is attested. -/
def altered (hash : JsString) : AttestationPayload :=
  { attestationOf hash with summary := { (attestationOf hash).summary with clean := false } }

theorem not_verifiesSoundly_altered : ∃ onChain hash,
    attestedPayload (attestationOf []).content = some onChain ∧
      (verify JsonValue.canonicalText (recordOf (altered hash)) (answerOf onChain)).verified =
        true ∧
      ¬ VerifiesSoundly JsonValue.canonicalText (recordOf (altered hash)) (answerOf onChain) := by
  obtain ⟨onChain, honChain⟩ := exists_attestedPayload
  obtain ⟨hash, hhash⟩ : ∃ hash, hash = Verify.sha256Hex (contentOf onChain).canonicalText :=
    ⟨_, rfl⟩
  have hattested : Attested JsonValue.canonicalText (recordOf (altered hash)) (answerOf onChain) :=
    attested_answerOf honChain hhash
  have hverified := verified_iff_attested.mpr hattested
  refine ⟨onChain, hash, honChain, hverified, fun hsound => ?_⟩
  obtain ⟨other, hother, content, hjson, hsame⟩ := hsound hverified
  cases (attestationPayload_answerOf onChain).symm.trans hother
  have heq := faithful_content _ _ _ _ hjson (attested_attestedPayload honChain).1 hsame
  have hclean := congrArg (fun c : PayloadContent => c.summary.clean) heq
  cases hclean

/-- One content is hashed for a record that holds the content of the transaction. -/
theorem collisionFree_verifierMessages {payload : AttestationPayload} {onChain : JsonValue}
    (hjson : payload.content.json = some (contentOf onChain)) :
    CollisionFree (verifierMessages canonicalize (recordOf payload) (answerOf onChain)) := by
  have hone : ∀ m ∈ verifierMessages canonicalize (recordOf payload) (answerOf onChain),
      m = Verify.message canonicalize (contentOf onChain) := by
    rintro m ⟨content, rfl, hcontent | ⟨other, hother, rfl⟩⟩
    · cases hjson.symm.trans hcontent
      rfl
    · cases (attestationPayload_answerOf onChain).symm.trans hother
      rfl
  intro m hm n hn _
  rw [hone m hm, hone n hn]

theorem verifiesSoundly_iff_selfConsistent_attestationOf : ∃ onChain hash,
    (verify JsonValue.canonicalText (recordOf (attestationOf hash)) (answerOf onChain)).verified =
      true ∧
    VerifiesSoundly JsonValue.canonicalText (recordOf (attestationOf hash)) (answerOf onChain) := by
  obtain ⟨onChain, honChain⟩ := exists_attestedPayload
  obtain ⟨hash, hhash⟩ : ∃ hash, hash = Verify.sha256Hex (contentOf onChain).canonicalText :=
    ⟨_, rfl⟩
  have hattested : Attested JsonValue.canonicalText (recordOf (attestationOf hash))
      (answerOf onChain) := attested_answerOf honChain hhash
  have hjson : (attestationOf hash).content.json = some (contentOf onChain) :=
    (attested_attestedPayload honChain).1
  have hconsistent : SelfConsistent JsonValue.canonicalText (recordOf (attestationOf hash)) :=
    ⟨contentOf onChain, hjson, hhash.symm⟩
  refine ⟨onChain, hash, verified_iff_attested.mpr hattested, ?_⟩
  apply (verifiesSoundly_iff_selfConsistent ?_ ?_).mpr (.inl hconsistent)
  · intro v w
    exact ⟨JsonValue.same_of_canonicalText_eq, fun hsame =>
      congrArg (fun v : Json => String.ofList v.text) hsame⟩
  · exact collisionFree_verifierMessages hjson

end Attestia.Witness
