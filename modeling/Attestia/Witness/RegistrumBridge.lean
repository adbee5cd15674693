import Attestia.Witness.Signing

/-!
# The bridge to a registrar

`registrum-bridge.ts`: the authority of a policy, the replay of a governance history up to a
version, and the quorum of signatures under the policy of that version.
-/

namespace Attestia.Witness

open Lib

structure RegistrumStateRef where
  stateId : JsString
  orderIndex : JsNumber
  policyId : JsString
  policyVersion : ℕ

structure AuthorityValidation where
  valid : Bool
  policy : GovernancePolicy
  stateRef : RegistrumStateRef
  rejections : List JsString

structure HistoricalQuorumValidation where
  valid : Bool
  policyAtTime : GovernancePolicy
  quorum : QuorumResult
  rejections : List JsString

variable (platform : Platform)

/-- A text where a condition holds. -/
def rejectIf (c : Prop) [Decidable c] (text : JsString) : List JsString := if c then [text] else []

def GovernancePolicy.totalWeight (policy : GovernancePolicy) : JsNumber :=
  JsNumber.sum (policy.signers.map SignerEntry.weight)

def authorityRejections (policy : GovernancePolicy) (stateRef : RegistrumStateRef) :
    List JsString :=
  rejectIf (policy.id ≠ stateRef.policyId)
    (js "Policy ID mismatch: expected " ++ stateRef.policyId ++ js ", got " ++ policy.id) ++
  rejectIf (policy.version ≠ stateRef.policyVersion)
    (js "Policy version mismatch: expected " ++ natText stateRef.policyVersion ++ js ", got " ++
      natText policy.version) ++
  rejectIf (policy.signers = []) (js "Policy has no signers") ++
  rejectIf (policy.totalWeight.lt policy.quorum)
    (js "Quorum (" ++ platform.numberText policy.quorum ++
      js ") exceeds total signer weight (" ++ platform.numberText policy.totalWeight ++ js ")")

def validateAuthority (policy : GovernancePolicy) (stateRef : RegistrumStateRef) :
    AuthorityValidation :=
  let rejections := authorityRejections platform policy stateRef
  ⟨rejections = [], policy, stateRef, rejections⟩

/-! ## Replays -/

/-- What a replay throws; canonical JSON has a text for its error. -/
inductive ReplayFault where
  | negative (targetVersion : ℤ)
  | exceeds (targetVersion : ℤ) (length : ℕ)
  | canonical (error : EventStore.JsError)

def integerText (n : ℤ) : JsString := JsonValue.numberString (.ofInt n)

/-- `errorText` is the message of an error of canonical JSON. -/
def ReplayFault.message (errorText : EventStore.JsError → JsString) : ReplayFault → JsString
  | negative target => js "Target version must be >= 0, got " ++ integerText target
  | exceeds target length => js "Target version " ++ integerText target ++
      js " exceeds event history length " ++ natText length
  | canonical error => errorText error

/-- `now` is the time at which the store of the replay is made. -/
def replayToVersion (now : JsString) (events : List GovernanceChangeEvent) (targetVersion : ℤ) :
    Except ReplayFault GovernancePolicy := do
  throwIf (targetVersion < 0) (.negative targetVersion)
  throwIf (events.length < targetVersion) (.exceeds targetVersion events.length)
  let store := (GovernanceStore.new now).replayFrom (events.take targetVersion.toNat)
  (store.getCurrentPolicy platform).mapError .canonical

/-! ## Historical quorums -/

/-- The rejections of the loop that verifies and counts, and what has been counted. -/
structure HistoricalCount extends Count where
  rejections : List JsString

/-- One turn of the loop; a signature of a stranger has been rejected before. -/
def countHistorical (signers : JsMap JsString SignerEntry)
    (canVerify : Option (SignatureVerifier × JsString)) (count : HistoricalCount)
    (sig : SignerSignature) : Except JsString HistoricalCount :=
  match signers.get? sig.address with
  | none => .ok count
  | some signer => do
    let ok ← match canVerify with
      | none => .ok true
      | some (verify, payloadHash) => verify sig payloadHash signer
    if !ok then
      return { count with rejections := count.rejections ++
        [js "Signature from " ++ sig.address ++ js " failed cryptographic verification"] }
    else if sig.address ∈ count.countedAddresses then return count
    else return { count with toCount := count.toCount.add signer sig.address }

/-- The rejections before the loop. -/
def structuralRejections (policy : GovernancePolicy) (policyVersion : ℤ)
    (signatures : List SignerSignature) (verify : Option SignatureVerifier)
    (payloadHash : Option JsString) : List JsString :=
  (signatures.filter fun s => !(signerByAddress policy).has s.address).map (fun s =>
    js "Signer " ++ s.address ++ js " was not in policy at version " ++
      integerText policyVersion) ++
  rejectIf (¬ (signatures.map SignerSignature.address).Nodup)
    (js "Duplicate signatures detected") ++
  rejectIf (policyHasPublicKeys policy && verify.isNone)
    (js ("Policy at version registers signer public keys but no signature verifier was supplied; " ++
      "refusing to count unverified signatures.")) ++
  rejectIf (verify.isSome && payloadHash.isNone)
    (js "A signature verifier was supplied without a payloadHash; cannot verify signatures.")

def quorumRejection (policy : GovernancePolicy) (count : Count) : List JsString :=
  rejectIf (¬ policy.quorum.le count.totalWeight)
    (js "Quorum not met: " ++ platform.numberText count.totalWeight ++ js " of " ++
      platform.numberText policy.quorum ++ js " required weight")

/-- A replay that throws makes the validation invalid; the verifier can throw. -/
def validateHistoricalQuorum (now : JsString) (errorText : EventStore.JsError → JsString)
    (signatures : List SignerSignature) (events : List GovernanceChangeEvent) (policyVersion : ℤ)
    (verify : Option SignatureVerifier) (payloadHash : Option JsString) :
    Except JsString HistoricalQuorumValidation :=
  match replayToVersion platform now events policyVersion with
  | .error fault => .ok ⟨false, ⟨[], 0, [], .finite 1, []⟩, ⟨false, .finite 0, .finite 0, [], []⟩,
      [js "Failed to replay to version " ++ integerText policyVersion ++ js ": " ++
        fault.message errorText]⟩
  | .ok policyAtTime => do
    let structural := structuralRejections policyAtTime policyVersion signatures verify payloadHash
    let canVerify := verify.bind fun v => payloadHash.map fun h => (v, h)
    let count ← signatures.foldlM (countHistorical (signerByAddress policyAtTime) canVerify)
      ⟨⟨.finite 0, []⟩, structural⟩
    let rejections := count.rejections ++ quorumRejection platform policyAtTime count.toCount
    return ⟨rejections = [], policyAtTime, count.toCount.quorum policyAtTime, rejections⟩

end Attestia.Witness
