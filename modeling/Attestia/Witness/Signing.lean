import Attestia.Witness.GovernanceStore

/-!
# Signatures of a policy

`signing.ts`: the payload that the signers of a policy sign, and the aggregation of their
signatures. A signature counts where the verifier accepts it; the verifier can throw a text.
-/

namespace Attestia.Witness

open Lib

/-! ## The payload -/

inductive AttestationSource where
  | reconciliation (reportId reportHash : JsString)
  | registrum (stateId : JsString) (orderIndex : JsNumber)

structure PayloadSummary where
  clean : Bool
  matchedCount : JsNumber
  mismatchCount : JsNumber
  missingCount : JsNumber
  attestedBy : JsString

structure AttestationPayload where
  hash : JsString
  timestamp : JsString
  source : AttestationSource
  summary : PayloadSummary

/-- What the hash of a payload is taken of. -/
structure PayloadContent where
  source : AttestationSource
  summary : PayloadSummary
  timestamp : JsString

def AttestationPayload.content (payload : AttestationPayload) : PayloadContent :=
  ⟨payload.source, payload.summary, payload.timestamp⟩

structure SigningPayload where
  attestationHash : JsString
  attestationTimestamp : JsString
  policyId : JsString
  policy : PolicyShape

/-- Canonical JSON of the payloads. -/
structure PayloadPlatform extends Platform where
  canonicalizeContent : PayloadContent → Except EventStore.JsError String
  canonicalizeSigning : SigningPayload → Except EventStore.JsError String

section

variable (platform : PayloadPlatform)

def verifyPayloadHash (payload : AttestationPayload) : Except EventStore.JsError Bool := do
  let content ← platform.canonicalizeContent payload.content
  return decide (Verify.sha256Hex content = payload.hash)

def signingPayload (attestation : AttestationPayload) (policy : GovernancePolicy) :
    SigningPayload where
  attestationHash := attestation.hash
  attestationTimestamp := attestation.timestamp
  policyId := policy.id
  policy := canonicalPolicyShape platform.toPlatform policy.version policy.signers policy.quorum

def buildCanonicalSigningPayload (attestation : AttestationPayload) (policy : GovernancePolicy) :
    Except EventStore.JsError JsString := do
  let canonical ← platform.canonicalizeSigning (signingPayload platform attestation policy)
  return Verify.sha256Hex canonical

end

/-! ## Aggregation -/

structure SignerSignature where
  address : JsString
  signature : JsString
  signedAt : JsString
  deriving DecidableEq

abbrev SignatureVerifier := SignerSignature → JsString → SignerEntry → Except JsString Bool

structure QuorumResult where
  met : Bool
  totalWeight : JsNumber
  requiredWeight : JsNumber
  signerAddresses : List JsString
  missingAddresses : List JsString

structure AggregatedSignature where
  payloadHash : JsString
  signatures : List SignerSignature
  quorum : QuorumResult
  aggregatedAt : JsString

/-- The map from the addresses of a policy to its signers. -/
def signerByAddress (policy : GovernancePolicy) : JsMap JsString SignerEntry :=
  JsMap.empty.setAll (policy.signers.map fun s => (s.address, s))

/-- A signer has a key that is not empty. -/
def policyHasPublicKeys (policy : GovernancePolicy) : Bool :=
  policy.signers.any fun s => s.publicKey.any fun key => key ≠ []

/-- Signatures that have been counted: the sum of the weights, and a set of addresses. -/
structure Count where
  totalWeight : JsNumber
  countedAddresses : List JsString

def Count.add (count : Count) (signer : SignerEntry) (address : JsString) : Count :=
  ⟨count.totalWeight.add signer.weight, count.countedAddresses ++ [address]⟩

def Count.quorum (count : Count) (policy : GovernancePolicy) : QuorumResult where
  met := policy.quorum.le count.totalWeight
  totalWeight := count.totalWeight
  requiredWeight := policy.quorum
  signerAddresses := count.countedAddresses
  missingAddresses :=
    (policy.signers.map SignerEntry.address).filter fun addr => addr ∉ count.countedAddresses

variable (platform : Platform)

def orderSignatures (signatures : List SignerSignature) : List SignerSignature :=
  signatures.insertionSort fun a b => platform.localeCompare a.address b.address ≤ 0

/-- What `aggregateSignatures` throws, or its verifier. -/
inductive AggregateFault where
  | duplicates (addresses : List JsString)
  | notInPolicy (address : JsString)
  | noVerifier
  | verifier (message : JsString)
  | quorumNotMet (quorum : QuorumResult) (signers : ℕ)

def commaSeparated (texts : List JsString) : JsString := List.intercalate (js ", ") texts

def natText (n : ℕ) : JsString := JsonValue.numberString (.ofNat n)

def AggregateFault.message : AggregateFault → JsString
  | duplicates addresses => js "Duplicate signatures from: " ++ commaSeparated addresses.eraseDups
  | notInPolicy address => js "Signer " ++ address ++ js " is not in the governance policy"
  | noVerifier => js ("aggregateSignatures: governance policy registers signer public keys but " ++
      "no signature verifier was supplied. Refusing to count unverified signatures " ++
      "(pass options.verify, e.g. xrplSignatureVerifier).")
  | verifier message => message
  | quorumNotMet quorum signers => js "Quorum not met: " ++ platform.numberText quorum.totalWeight ++
      js " of " ++ platform.numberText quorum.requiredWeight ++ js " verified weight (" ++
      natText quorum.signerAddresses.length ++ js " of " ++ natText signers ++
      js " signers verified)"

/-- The addresses that stand before in the list. -/
def duplicateAddresses : List JsString → List JsString → List JsString
  | _, [] => []
  | seen, a :: as =>
    if a ∈ seen then a :: duplicateAddresses seen as else duplicateAddresses (seen ++ [a]) as

/-- One turn of the loop that verifies and counts. Every address has a signer here. -/
def countSignature (signers : JsMap JsString SignerEntry) (verify : Option SignatureVerifier)
    (payloadHash : JsString) (count : Count) (sig : SignerSignature) :
    Except AggregateFault Count :=
  match signers.get? sig.address with
  | none => .error (.notInPolicy sig.address)
  | some signer =>
    match verify with
    | none => .ok (count.add signer sig.address)
    | some verify => do
      let ok ← (verify sig payloadHash signer).mapError .verifier
      return if ok then count.add signer sig.address else count

def aggregateSignatures (signatures : List SignerSignature) (policy : GovernancePolicy)
    (payloadHash : JsString) (verify : Option SignatureVerifier) (now : JsString) :
    Except AggregateFault AggregatedSignature := do
  let addresses := signatures.map SignerSignature.address
  throwIf (¬ addresses.Nodup) (.duplicates (duplicateAddresses [] addresses))
  let signers := signerByAddress policy
  forM addresses fun addr => throwIf (!signers.has addr) (.notInPolicy addr)
  throwIf (policyHasPublicKeys policy && verify.isNone) .noVerifier
  let count ← signatures.foldlM (countSignature signers verify payloadHash)
    ⟨.finite 0, []⟩
  let quorum := count.quorum policy
  throwIf (!quorum.met) (.quorumNotMet quorum policy.signers.length)
  let counted := signatures.filter fun s => s.address ∈ count.countedAddresses
  return ⟨payloadHash, orderSignatures platform counted, quorum, now⟩

end Attestia.Witness
