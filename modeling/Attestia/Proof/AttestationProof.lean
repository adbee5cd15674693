import Attestia.Lib.Except
import Attestia.Lib.Jcs
import Attestia.Proof.MerkleBinding

/-!
# Attestation proof packages

`attestation-proof.ts`: an attestation is packaged with the inclusion proof of its hash, and
the verification recomputes the attestation hash, the inclusion proof and the hash of the
package. The type of attestations and the canonicalization library are parameters.
-/

namespace Attestia.Proof
open Lib Lib.HashTree Lib.JsonNumber

variable {α : Type}

/-- The fields of a package that its hash covers. -/
structure PackageData (α : Type) where
  attestation : α
  attestationHash : String
  merkleRoot : String
  inclusionProof : MerkleProof
  packagedAt : JsString

structure AttestationProofPackage (α : Type) extends PackageData α where
  packageHash : String

/-! ## JSON -/

def directionText : SiblingDirection → String
  | .left => "left"
  | .right => "right"

def jsonOfStep (step : MerkleProofStep) : JsonValue :=
  .object [(js "hash", some (.str (js step.hash))),
    (js "direction", some (.str (js (directionText step.direction))))]

def jsonOfProof (proof : MerkleProof) : JsonValue :=
  .object [(js "leafHash", some (.str (js proof.leafHash))),
    (js "leafIndex", some (.num proof.leafIndex)),
    (js "siblings", some (.array (proof.siblings.map jsonOfStep))),
    (js "root", some (.str (js proof.root)))]

/-- The object literal of `computePackageHash`, given the JSON of the attestation. -/
def jsonOfData (data : PackageData α) (attestation : Option JsonValue) : JsonValue :=
  .object [(js "version", some (.num (.ofNat 1))), (js "attestation", attestation),
    (js "attestationHash", some (.str (js data.attestationHash))),
    (js "merkleRoot", some (.str (js data.merkleRoot))),
    (js "inclusionProof", some (jsonOfProof data.inclusionProof)),
    (js "packagedAt", some (.str data.packagedAt))]

/-- The canonical JSON library on attestations and on the data of a package. `image` is the JSON
of an attestation, which is nothing where JSON leaves a property out; what the library prints for
the data is the canonical text of the JSON of the data. -/
structure Canonicalizer (α : Type) where
  image : α → Except Error (Option JsonValue)
  text : JsonValue → String
  canonicalize : α → Except Error String
  canonicalizeData : PackageData α → Except Error String
  eq_text_of_canonicalizeData : ∀ (data : PackageData α) (s : String),
    canonicalizeData data = .ok s → ∃ i, image data.attestation = .ok i ∧ s = text (jsonOfData data i)

/-- RFC 8785 on attestations that are JSON values. -/
def jcs : Canonicalizer JsonValue where
  image v := .ok (some v)
  text := JsonValue.canonicalText
  canonicalize v := .ok v.canonicalText
  canonicalizeData data := .ok (jsonOfData data (some data.attestation)).canonicalText
  eq_text_of_canonicalizeData _ _ h := ⟨_, rfl, (Except.ok.inj h).symm⟩

/-! ## Packaging -/

def sha256Hex (data : String) : String := hexEncode (sha256 (Utf8.encode data.toList))

variable (cz : Canonicalizer α)

def hashAttestation (attestation : α) : Except Error String :=
  (cz.canonicalize attestation).map sha256Hex

def computePackageHash (data : PackageData α) : Except Error String :=
  (cz.canonicalizeData data).map sha256Hex

inductive PackageFailureReason where
  | emptyTree
  | indexOutOfRange
  | indexNotInEventHashes
  deriving DecidableEq, Repr

inductive PackageAttestationResult (α : Type) where
  | ok (package : AttestationProofPackage α)
  | failed (reason : PackageFailureReason) (detail : String)

/-- A number in a message. -/
def intText (n : ℤ) : String := String.ofList (numberText n)

/-- `packagedAt` is the text of the clock. -/
def packageAttestationProofResult (packagedAt : JsString) (attestation : α)
    (eventHashes : List String) (tree : MerkleTree) (attestationIndex : ℤ) :
    Except Error (PackageAttestationResult α) :=
  match tree.getRoot with
  | none => .ok (.failed .emptyTree
      ("cannot package attestation at index " ++ intText attestationIndex ++
        ": the Merkle tree is empty (no root). Build the tree over a non-empty eventHashes set " ++
        "first (received " ++ intText eventHashes.length ++ " event hash(es))."))
  | some root =>
    match tree.getProof attestationIndex with
    | none => .ok (.failed .indexOutOfRange
        ("cannot package attestation: index " ++ intText attestationIndex ++
          " is out of range for the tree (" ++ intText eventHashes.length ++
          " event hash(es)). Pass an index in [0, " ++ intText (eventHashes.length - 1) ++ "]."))
    | some inclusionProof => do
      let attestationHash ← hashAttestation cz attestation
      match eventHashes[attestationIndex.toNat]? with
      | none =>
        return .failed .indexNotInEventHashes
          ("cannot package attestation: index " ++ intText attestationIndex ++
            " is provable in the tree but absent from eventHashes (length " ++
            intText eventHashes.length ++ "). The tree and eventHashes are out of sync — " ++
            "rebuild the tree from the same eventHashes you pass here.")
      | some expectedHash =>
        if expectedHash ≠ attestationHash then
          throw ⟨"packageAttestationProof: eventHashes[" ++ intText attestationIndex ++
            "] does not match the attestation's hash — " ++
            "the proven leaf must be the attestation's own hash"⟩
        else if inclusionProof.leafHash ≠ attestationHash then
          throw ⟨"packageAttestationProof: inclusion proof leafHash does not match " ++
            "the attestation hash"⟩
        else
          let data := ⟨attestation, attestationHash, root, inclusionProof, packagedAt⟩
          let packageHash ← computePackageHash cz data
          return .ok ⟨data, packageHash⟩

def packageAttestationProof (packagedAt : JsString) (attestation : α) (eventHashes : List String)
    (tree : MerkleTree) (attestationIndex : ℤ) :
    Except Error (Option (AttestationProofPackage α)) :=
  (packageAttestationProofResult cz packagedAt attestation eventHashes tree attestationIndex).map
    fun
    | .ok package => some package
    | .failed _ _ => none

/-! ## Verification -/

structure AttestationCheck where
  name : String
  passed : Bool
  detail : String
  deriving DecidableEq, Repr

structure AttestationVerificationResult where
  valid : Bool
  checks : List AttestationCheck
  deriving DecidableEq, Repr

/-- One of the checks, with its text for either outcome. -/
def check (name : String) (passed : Bool) (success failure : String) : AttestationCheck :=
  ⟨name, passed, if passed then success else failure⟩

/-- The check of the inclusion proof, which catches what `verifyProof` throws. -/
def merkleCheck (inclusionProof : MerkleProof) : AttestationCheck :=
  match MerkleTree.verifyProof inclusionProof with
  | .ok merkleValid => check "merkle-inclusion" merkleValid
      "Merkle inclusion proof folds to its stated root"
      "Merkle inclusion proof does not fold to its stated root"
  | .error err =>
    ⟨"merkle-inclusion", false, "Merkle inclusion proof is malformed: " ++ err.message⟩

/-- All five checks are always evaluated. -/
def verifyAttestationProofDetailed (pkg : AttestationProofPackage α) :
    Except Error AttestationVerificationResult := do
  let recomputedAttestationHash ← hashAttestation cz pkg.attestation
  let recomputedPackageHash ← computePackageHash cz pkg.toPackageData
  let checks := [
    check "attestation-hash-recompute" (recomputedAttestationHash == pkg.attestationHash)
      "attestationHash matches the recomputed canonical hash of the attestation"
      ("attestationHash mismatch: package claims " ++ pkg.attestationHash ++ ", recomputed " ++
        recomputedAttestationHash),
    check "leaf-binding" (pkg.attestationHash == pkg.inclusionProof.leafHash)
      "the proven Merkle leaf is this attestation's hash"
      ("proven leaf is NOT this attestation: attestationHash " ++ pkg.attestationHash ++
        " != inclusionProof.leafHash " ++ pkg.inclusionProof.leafHash ++ " (forgery indicator)"),
    merkleCheck pkg.inclusionProof,
    check "root-consistency" (pkg.merkleRoot == pkg.inclusionProof.root)
      "package merkleRoot matches the inclusion proof's root"
      ("merkleRoot mismatch: package " ++ pkg.merkleRoot ++ " != inclusionProof.root " ++
        pkg.inclusionProof.root),
    check "package-hash-recompute" (recomputedPackageHash == pkg.packageHash)
      "packageHash matches the recomputed tamper-evidence hash"
      ("packageHash mismatch: package claims " ++ pkg.packageHash ++ ", recomputed " ++
        recomputedPackageHash)]
  return ⟨checks.all AttestationCheck.passed, checks⟩

def verifyAttestationProof (pkg : AttestationProofPackage α) : Except Error Bool :=
  (verifyAttestationProofDetailed cz pkg).map AttestationVerificationResult.valid

/-- The verification returns, and every check has passed. -/
def Passes (pkg : AttestationProofPackage α) : Prop :=
  ∃ r, verifyAttestationProofDetailed cz pkg = .ok r ∧ r.valid = true

end Attestia.Proof
