import Attestia.Lib.Jcs
import Attestia.Registrum.Predicate.Evaluator
import Attestia.Verify.ReplayCommitment
import Attestia.Witness.Signing

/-!
# Canonical JSON of policies

The objects of the signing payload as JSON, and the platform whose canonical JSON is RFC 8785.
-/

namespace Attestia.Witness

open Lib

def SignerShape.json (s : SignerShape) : Option JsonValue := do
  let weight ← s.weight.json
  return .object [(js "address", some (.str s.address)), (js "weight", some weight),
    (js "publicKey", some (s.publicKey.elim .null .str))]

def PolicyShape.json (shape : PolicyShape) : Option JsonValue := do
  let quorum ← shape.quorum.json
  let signers ← shape.signers.mapM SignerShape.json
  return .object [(js "version", some (.num (.ofNat shape.version))), (js "quorum", some quorum),
    (js "signers", some (.array signers))]

def textOf (json : Option JsonValue) : Except EventStore.JsError String :=
  match json with
  | none => .error .typeError
  | some v => .ok v.canonicalText

theorem PolicyShape.InJson.json {shape : PolicyShape} (h : shape.InJson) :
    ∃ v, shape.json = some v := by
  obtain ⟨⟨quorum, hquorum⟩, hweights⟩ := h
  have hsigners : ∃ vs, shape.signers.mapM SignerShape.json = some vs := by
    generalize shape.signers = signers at hweights
    induction signers with
    | nil => exact ⟨[], rfl⟩
    | cons s signers ih =>
      obtain ⟨vs, hvs⟩ := ih fun a ha => hweights a (.tail _ ha)
      obtain ⟨n, hn⟩ := hweights s (.head _)
      rw [List.mapM_cons, SignerShape.json, hn, JsNumber.json_finite, hvs]
      exact ⟨_, rfl⟩
  obtain ⟨vs, hvs⟩ := hsigners
  rw [PolicyShape.json, hquorum, JsNumber.json_finite, hvs]
  exact ⟨_, rfl⟩

/-- No key derives to an address here. -/
def jcsPlatform : Platform where
  deriveAddress _ := .error (js "invalid_key")
  localeCompare := Verify.compareTexts
  canonicalize shape := textOf shape.json
  numberText := Registrum.numberText
  canonicalize_eq_ok _ h := by
    obtain ⟨v, hv⟩ := h.json
    rw [hv]
    exact ⟨_, rfl⟩

/-! ## Signing payloads -/

theorem wf_bool (b : Bool) : (Json.bool b).WF := ⟨trivial, trivial⟩

def boolJson (b : Bool) : JsonValue := ⟨.bool b, wf_bool b⟩

def AttestationSource.json : AttestationSource → Option JsonValue
  | reconciliation reportId reportHash => some (.object [(js "kind", some (.str (js "reconciliation"))),
      (js "reportId", some (.str reportId)), (js "reportHash", some (.str reportHash))])
  | registrum stateId orderIndex => do
    let orderIndex ← orderIndex.json
    return .object [(js "kind", some (.str (js "registrum"))), (js "stateId", some (.str stateId)),
      (js "orderIndex", some orderIndex)]

def PayloadSummary.json (summary : PayloadSummary) : Option JsonValue := do
  let matched ← summary.matchedCount.json
  let mismatch ← summary.mismatchCount.json
  let missing ← summary.missingCount.json
  return .object [(js "clean", some (boolJson summary.clean)), (js "matchedCount", some matched),
    (js "mismatchCount", some mismatch), (js "missingCount", some missing),
    (js "attestedBy", some (.str summary.attestedBy))]

def PayloadContent.json (content : PayloadContent) : Option JsonValue := do
  let source ← content.source.json
  let summary ← content.summary.json
  return .object [(js "source", some source), (js "summary", some summary),
    (js "timestamp", some (.str content.timestamp))]

def SigningPayload.json (payload : SigningPayload) : Option JsonValue := do
  let policy ← payload.policy.json
  return .object [(js "attestationHash", some (.str payload.attestationHash)),
    (js "attestationTimestamp", some (.str payload.attestationTimestamp)),
    (js "policyId", some (.str payload.policyId)), (js "policy", some policy)]

def jcsPayloadPlatform : PayloadPlatform where
  toPlatform := jcsPlatform
  canonicalizeContent content := textOf content.json
  canonicalizeSigning payload := textOf payload.json

/-! ## Values of one text -/

/-- Values whose JSON is the same are the same. -/
def Faithful {α : Type} (json : α → Option JsonValue) : Prop :=
  ∀ a b v w, json a = some v → json b = some w → v.Same w → a = b

theorem textOf_eq_ok {json : Option JsonValue} {text : String} :
    textOf json = .ok text ↔ ∃ v, json = some v ∧ v.canonicalText = text := by
  cases json with
  | none => simp [textOf]
  | some v => simp [textOf]

theorem faithful_number : Faithful JsNumber.json := by
  intro a b v w ha hb hsame
  obtain ⟨m, rfl, rfl⟩ := JsNumber.json_eq_some.mp ha
  obtain ⟨n, rfl, rfl⟩ := JsNumber.json_eq_some.mp hb
  rw [JsonValue.same_num hsame]

end Attestia.Witness
