import Attestia.Witness.HistoricalQuorum
import Attestia.Witness.Verifier

/-!
# Multi-signatures

`multisig-submitter.ts`: the wallets of the configured signers sign one prepared transaction, and
the canonical hash of the payload. Their signatures over the hash have to reach the quorum of the
policy before the blobs are combined. The library of the ledger is a parameter: what it derives from
a secret, signs, decodes and combines.
-/

namespace Attestia.Witness

open Lib JsString

structure Wallet where
  classicAddress : JsString
  privateKey : JsString

/-- A plain text, or a provider that is asked for the secret. -/
inductive Secret where
  | text (secret : JsString)
  | provider

structure SignerConfig where
  address : JsString
  secret : Secret

structure MultiSigConfig where
  chainId : JsString
  account : JsString
  signers : List SignerConfig
  feeDrops : Option JsString
  submitTimeoutMs : JsNumber
  maxAttempts : JsNumber

structure Payment where
  account : JsString
  destination : JsString
  amount : JsString
  memos : List XrplMemo
  fee : Option JsString

/-- A payment that the client has filled in. -/
structure PreparedTx extends Payment where
  sequence : JsNumber
  lastLedgerSequence : JsNumber

/-- What is used of the library: a wallet of a secret, the blob and the hash that a wallet signs,
the account of a blob, the blob that others are combined to, its hash, signatures over hexadecimal
messages, the text of a value that is thrown, and what the canonicalizer throws. -/
structure XrplLibrary where
  fromSeed : JsString → Except Thrown Wallet
  sign : Wallet → PreparedTx → Except Thrown Signed
  decode : JsString → Except Thrown (Option JsString)
  multisign : List JsString → Except Thrown JsString
  hashSignedTx : JsString → Except Thrown JsString
  rippleSign : JsString → JsString → Except Thrown JsString
  verifySignature : JsString → JsString → JsString → Except Thrown Bool
  errorText : Thrown → JsString
  canonicalizerError : EventStore.JsError → Thrown

structure MultiSignResult where
  signedBlobs : List JsString
  signerSignatures : List SignerSignature
  combinedBlob : JsString
  txHash : JsString

/-! ## The payload in the memo -/

/-- The text of a number, which is that of null where it is not finite. -/
def jsonNumber (x : JsNumber) : JsonValue := x.json.getD .null

def AttestationSource.toJson : AttestationSource → JsonValue
  | reconciliation reportId reportHash => .object [(js "kind", some (.str (js "reconciliation"))),
      (js "reportId", some (.str reportId)), (js "reportHash", some (.str reportHash))]
  | registrum stateId orderIndex => .object [(js "kind", some (.str (js "registrum"))),
      (js "stateId", some (.str stateId)), (js "orderIndex", some (jsonNumber orderIndex))]

def PayloadSummary.toJson (summary : PayloadSummary) : JsonValue :=
  .object [(js "clean", some (boolJson summary.clean)),
    (js "matchedCount", some (jsonNumber summary.matchedCount)),
    (js "mismatchCount", some (jsonNumber summary.mismatchCount)),
    (js "missingCount", some (jsonNumber summary.missingCount)),
    (js "attestedBy", some (.str summary.attestedBy))]

def AttestationPayload.toJson (payload : AttestationPayload) : JsonValue :=
  .object [(js "hash", some (.str payload.hash)), (js "timestamp", some (.str payload.timestamp)),
    (js "source", some payload.source.toJson), (js "summary", some payload.summary.toJson)]

/-- A payment of one drop to the account itself. -/
def MultiSigConfig.payment (config : MultiSigConfig) (memo : XrplMemo) : Payment where
  account := config.account
  destination := config.account
  amount := js "1"
  memos := [memo]
  fee := config.feeDrops.filter (· ≠ [])

/-! ## Signatures -/

def encodePayloadHashForSigning (payloadHash : JsString) : JsString := toHex payloadHash

def signPayloadHash (library : XrplLibrary) (payloadHash privateKey : JsString) :
    Except Thrown JsString :=
  library.rippleSign (encodePayloadHashForSigning payloadHash) privateKey

/-- The key of the signer derives to its address, and has signed. -/
def keyVerifies (library : XrplLibrary) (platform : Platform) (sig : SignerSignature)
    (payloadHash : JsString) (signer : SignerEntry) : Bool :=
  match signer.publicKey with
  | none => false
  | some publicKey =>
    if publicKey = [] then false
    else match platform.deriveAddress publicKey with
      | .error _ => false
      | .ok derived =>
        if derived ≠ signer.address then false
        else match library.verifySignature (encodePayloadHashForSigning payloadHash)
            sig.signature publicKey with
          | .error _ => false
          | .ok ok => ok

def xrplSignatureVerifier (library : XrplLibrary) (platform : Platform) : SignatureVerifier :=
  fun sig payloadHash signer => .ok (keyVerifies library platform sig payloadHash signer)

/-- What the loop over the wallets has collected. -/
structure Collected where
  expectedHash : Option JsString
  signedBlobs : List JsString
  signerSignatures : List SignerSignature

def hashMismatchError (address hash expected : JsString) : Thrown :=
  .error (js "Multi-sig hash mismatch: signer " ++ address ++ js " produced hash " ++ hash ++
    js ", expected " ++ expected ++
    js ". This indicates the signer modified the transaction content.")

def wrongAccountError (address : JsString) (account : Option JsString) (expected : JsString) :
    Thrown :=
  .error (js "Signer " ++ address ++ js " signed a transaction for account " ++
    account.getD (js "undefined") ++ js ", expected " ++ expected)

/-- An error that names a signer is thrown as it is. -/
def invalidBlobError (library : XrplLibrary) (address : JsString) (error : Thrown) : Thrown :=
  let wrapped := .error (js "Signer " ++ address ++ js " produced an invalid transaction blob: " ++
    library.errorText error)
  match error with
  | .error message => if js "Signer" <:+: message then error else wrapped
  | .value _ => wrapped

def checkBlob (library : XrplLibrary) (prepared : PreparedTx) (address txBlob : JsString) :
    Except Thrown Unit := do
  let account ← (library.decode txBlob).mapError (invalidBlobError library address)
  throwIf (account ≠ some prepared.account) (wrongAccountError address account prepared.account)

/-- The body of the loop for the wallet of an address. -/
def collect (library : XrplLibrary) (prepared : PreparedTx) (payloadHash now : JsString)
    (collected : Collected) (entry : JsString × Wallet) : Except Thrown Collected := do
  let signed ← library.sign entry.2 prepared
  let expected := collected.expectedHash.getD signed.hash
  throwIf (signed.hash ≠ expected) (hashMismatchError entry.1 signed.hash expected)
  checkBlob library prepared entry.1 signed.txBlob
  let signature ← signPayloadHash library payloadHash entry.2.privateKey
  return ⟨some expected, collected.signedBlobs ++ [signed.txBlob],
    collected.signerSignatures ++ [⟨entry.2.classicAddress, signature, now⟩]⟩

def buildMultiSign (library : XrplLibrary) (platform : PayloadPlatform)
    (payload : AttestationPayload) (policy : GovernancePolicy) (prepared : PreparedTx)
    (wallets : JsMap JsString Wallet) (now : JsString) : Except Thrown MultiSignResult := do
  let payloadHash ←
    (buildCanonicalSigningPayload platform payload policy).mapError library.canonicalizerError
  let collected ← wallets.entries.foldlM (collect library prepared payloadHash now) ⟨none, [], []⟩
  let _ ← (aggregateSignatures platform.toPlatform collected.signerSignatures policy payloadHash
    (some (xrplSignatureVerifier library platform.toPlatform)) now).mapError
      fun fault => Thrown.error (fault.message platform.toPlatform)
  let combinedBlob ← library.multisign collected.signedBlobs
  let txHash ← library.hashSignedTx combinedBlob
  return ⟨collected.signedBlobs, collected.signerSignatures, combinedBlob, txHash⟩

/-! ## What has been signed -/

section

variable {library : XrplLibrary} {platform : PayloadPlatform} {prepared : PreparedTx}
  {payloadHash hash now : JsString}

/-- The blob and the signature of a wallet, over a transaction and the hash of a payload. -/
structure SignedBy (library : XrplLibrary) (prepared : PreparedTx) (payloadHash hash now : JsString)
    (wallet : Wallet) (contribution : JsString × SignerSignature) : Prop where
  sign : library.sign wallet prepared = .ok ⟨contribution.1, hash⟩
  decode : library.decode contribution.1 = .ok (some prepared.account)
  signature : signPayloadHash library payloadHash wallet.privateKey = .ok contribution.2.signature
  address : contribution.2.address = wallet.classicAddress
  signedAt : contribution.2.signedAt = now

theorem checkBlob_eq_ok {address txBlob : JsString} :
    checkBlob library prepared address txBlob = .ok () ↔
      library.decode txBlob = .ok (some prepared.account) := by
  rw [checkBlob, bind_eq_ok]
  constructor
  · rintro ⟨account, haccount, h⟩
    rw [throwIf_eq_ok, not_not] at h
    rw [mapError_eq_ok.mp haccount, h]
  · intro h
    refine ⟨_, mapError_eq_ok.mpr h, ?_⟩
    rw [throwIf_eq_ok, not_not]

theorem collect_eq_ok {collected collected' : Collected} {entry : JsString × Wallet}
    (h : collect library prepared payloadHash now collected entry = .ok collected') :
    ∃ hash contribution, SignedBy library prepared payloadHash hash now entry.2 contribution ∧
      collected.expectedHash.getD hash = hash ∧
      collected' = ⟨some hash, collected.signedBlobs ++ [contribution.1],
        collected.signerSignatures ++ [contribution.2]⟩ := by
  obtain ⟨signed, hsign, h⟩ := bind_eq_ok.mp h
  obtain ⟨hhash, h⟩ := bind_unit_eq_ok.mp h
  obtain ⟨hblob, h⟩ := bind_unit_eq_ok.mp h
  obtain ⟨signature, hsignature, h⟩ := bind_eq_ok.mp h
  rw [throwIf_eq_ok, not_not] at hhash
  refine ⟨signed.hash, (signed.txBlob, ⟨entry.2.classicAddress, signature, now⟩),
    ⟨hsign, checkBlob_eq_ok.mp hblob, hsignature, rfl, rfl⟩, hhash.symm, ?_⟩
  rw [← Except.ok.inj h, ← hhash]

/-- All wallets sign one hash. -/
theorem foldlM_collect {entries : List (JsString × Wallet)} {collected collected' : Collected}
    (h : entries.foldlM (collect library prepared payloadHash now) collected = .ok collected') :
    ∃ hash contributions, collected.expectedHash.getD hash = hash ∧
      List.Forall₂ (SignedBy library prepared payloadHash hash now) (entries.map Prod.snd)
        contributions ∧
      collected'.signedBlobs = collected.signedBlobs ++ contributions.map Prod.fst ∧
      collected'.signerSignatures = collected.signerSignatures ++ contributions.map Prod.snd := by
  induction entries generalizing collected with
  | nil =>
    rw [List.foldlM_nil] at h
    obtain rfl := Except.ok.inj h
    refine ⟨collected.expectedHash.getD [], [], ?_, .nil, ?_, ?_⟩
    · cases collected.expectedHash <;> rfl
    · rw [List.map_nil, List.append_nil]
    · rw [List.map_nil, List.append_nil]
  | cons entry entries ih =>
    rw [List.foldlM_cons] at h
    obtain ⟨next, hnext, h⟩ := bind_eq_ok.mp h
    obtain ⟨hash, contribution, hsigned, hexpected, rfl⟩ := collect_eq_ok hnext
    obtain ⟨hash', contributions, hsame, hall, hblobs, hsignatures⟩ := ih h
    -- the hash of the first wallet is the one that is expected of the others
    obtain rfl : hash = hash' := hsame
    refine ⟨hash, contribution :: contributions, hexpected, .cons hsigned hall, ?_, ?_⟩
    · rw [hblobs, List.map_cons, List.append_assoc, List.singleton_append]
    · rw [hsignatures, List.map_cons, List.append_assoc, List.singleton_append]

/-- The key that the policy has registered for the signer verifies the signature. -/
def SignedByKey (library : XrplLibrary) (platform : PayloadPlatform) (payloadHash : JsString)
    (policy : GovernancePolicy) (sig : SignerSignature) : Prop :=
  ∃ signer publicKey, (signerByAddress policy).get? sig.address = some signer ∧
    signer.publicKey = some publicKey ∧ publicKey ≠ [] ∧
    platform.deriveAddress publicKey = .ok signer.address ∧
    library.verifySignature (encodePayloadHashForSigning payloadHash) sig.signature publicKey =
      .ok true

theorem signedByKey_of_accepts {policy : GovernancePolicy} {sig : SignerSignature}
    (h : accepts (xrplSignatureVerifier library platform.toPlatform) payloadHash policy sig =
      true) :
    SignedByKey library platform payloadHash policy sig := by
  obtain ⟨signer, hget, hverifies⟩ := accepts_eq_true.mp h
  rw [xrplSignatureVerifier, Except.ok.injEq] at hverifies
  unfold keyVerifies at hverifies
  split at hverifies
  · cases hverifies
  · rename_i publicKey hkey
    split_ifs at hverifies with hempty
    split at hverifies
    · cases hverifies
    · rename_i derived hderived
      split_ifs at hverifies with hne
      rw [not_not] at hne
      split at hverifies
      · cases hverifies
      · rename_i ok hok
        exact ⟨signer, publicKey, hget, hkey, hempty, hne ▸ hderived, hverifies ▸ hok⟩

/-- The wallets have signed one transaction and the canonical hash of the payload, and those of
their signatures that the registered keys verify reach the quorum of the policy. -/
structure MultiSigned (library : XrplLibrary) (platform : PayloadPlatform)
    (payload : AttestationPayload) (policy : GovernancePolicy) (prepared : PreparedTx)
    (wallets : List Wallet) (now : JsString) (r : MultiSignResult) : Prop where
  signatures : ∃ payloadHash hash contributions,
    buildCanonicalSigningPayload platform payload policy = .ok payloadHash ∧
    List.Forall₂ (SignedBy library prepared payloadHash hash now) wallets contributions ∧
    contributions.map Prod.fst = r.signedBlobs ∧ contributions.map Prod.snd = r.signerSignatures ∧
    Aggregates (xrplSignatureVerifier library platform.toPlatform) payloadHash policy
      r.signerSignatures ∧
    ∀ sig ∈ retained (xrplSignatureVerifier library platform.toPlatform) payloadHash policy
      r.signerSignatures, SignedByKey library platform payloadHash policy sig
  combined : library.multisign r.signedBlobs = .ok r.combinedBlob
  hash : library.hashSignedTx r.combinedBlob = .ok r.txHash

theorem multiSigned_of_buildMultiSign {payload : AttestationPayload} {policy : GovernancePolicy}
    {wallets : JsMap JsString Wallet} {r : MultiSignResult}
    (h : buildMultiSign library platform payload policy prepared wallets now = .ok r) :
    MultiSigned library platform payload policy prepared wallets.values now r := by
  obtain ⟨payloadHash, hpayload, h⟩ := bind_eq_ok.mp h
  obtain ⟨collected, hcollected, h⟩ := bind_eq_ok.mp h
  obtain ⟨aggregated, haggregated, h⟩ := bind_eq_ok.mp h
  obtain ⟨combinedBlob, hcombined, h⟩ := bind_eq_ok.mp h
  obtain ⟨txHash, htxHash, h⟩ := bind_eq_ok.mp h
  obtain rfl := Except.ok.inj h
  obtain ⟨hash, contributions, -, hall, hblobs, hsignatures⟩ := foldlM_collect hcollected
  have haggregates := (aggregateSignatures_eq_ok.mp (mapError_eq_ok.mp haggregated)).1
  exact ⟨⟨payloadHash, hash, contributions, mapError_eq_ok.mp hpayload, hall, hblobs.symm,
    hsignatures.symm, haggregates, fun sig hsig =>
      signedByKey_of_accepts (List.mem_filter.mp hsig).2⟩, hcombined, htxHash⟩

end

end Attestia.Witness
