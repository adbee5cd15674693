import Attestia.Proof.AttestationProof
import Attestia.Lib.Sha256Words

/-!
# Soundness of attestation proof packages

What the packager builds passes the verification; a package that passes proves a leaf of
every tree with its root; and the hash of a package fixes all of its other fields.
-/

namespace Attestia.Proof
open Lib Lib.HashTree Lib.JsonNumber

variable {α : Type} {cz : Canonicalizer α}

/-! ## The five checks -/

theorem merkleCheck_passed (proof : MerkleProof) :
    (merkleCheck proof).passed = true ↔ MerkleTree.verifyProof proof = .ok true := by
  unfold merkleCheck
  cases h : MerkleTree.verifyProof proof with
  | error err => simp
  | ok valid => simp [check]

/-- What the five checks say together. -/
structure PackageChecks (cz : Canonicalizer α) (pkg : AttestationProofPackage α) : Prop where
  attestationHash : hashAttestation cz pkg.attestation = .ok pkg.attestationHash
  leafBinding : pkg.attestationHash = pkg.inclusionProof.leafHash
  merkleInclusion : MerkleTree.verifyProof pkg.inclusionProof = .ok true
  rootConsistency : pkg.merkleRoot = pkg.inclusionProof.root
  packageHash : computePackageHash cz pkg.toPackageData = .ok pkg.packageHash

theorem passes_iff {pkg : AttestationProofPackage α} : Passes cz pkg ↔ PackageChecks cz pkg := by
  constructor
  · rintro ⟨r, h, hr⟩
    obtain ⟨a, ha, h⟩ := bind_eq_ok.mp h
    obtain ⟨p, hp, h⟩ := bind_eq_ok.mp h
    cases h
    simp only [List.all_cons, List.all_nil, Bool.and_true, Bool.and_eq_true, merkleCheck_passed,
      check, beq_iff_eq] at hr
    obtain ⟨rfl, hleaf, hmerkle, hroot, rfl⟩ := hr
    exact ⟨ha, hleaf, hmerkle, hroot, hp⟩
  · rintro ⟨ha, hleaf, hmerkle, hroot, hp⟩
    refine ⟨_, bind_eq_ok.mpr ⟨_, ha, bind_eq_ok.mpr ⟨_, hp, rfl⟩⟩, ?_⟩
    simp only [List.all_cons, List.all_nil, Bool.and_true, Bool.and_eq_true, merkleCheck_passed,
      check, beq_iff_eq]
    exact ⟨trivial, hleaf, hmerkle, hroot, trivial⟩

theorem verifyAttestationProof_eq_ok_true {pkg : AttestationProofPackage α} :
    verifyAttestationProof cz pkg = .ok true ↔ Passes cz pkg := map_eq_ok

/-! ## The packager -/

theorem eq_ok_of_packageAttestationProofResult {packagedAt : JsString} {attestation : α}
    {eventHashes : List String} {tree : MerkleTree} {index : ℤ} {pkg : AttestationProofPackage α}
    (h : packageAttestationProofResult cz packagedAt attestation eventHashes tree index =
      .ok (.ok pkg)) :
    tree.getRoot = some pkg.merkleRoot ∧ tree.getProof index = some pkg.inclusionProof ∧
      hashAttestation cz pkg.attestation = .ok pkg.attestationHash ∧
      pkg.inclusionProof.leafHash = pkg.attestationHash ∧
      computePackageHash cz pkg.toPackageData = .ok pkg.packageHash := by
  unfold packageAttestationProofResult at h
  split at h
  · cases h
  · rename_i root hroot
    split at h
    · cases h
    · rename_i proof hproof
      obtain ⟨hash, hhash, h⟩ := bind_eq_ok.mp h
      split at h
      · cases h
      · split at h
        · cases h
        · split at h
          · cases h
          · rename_i hleaf
            obtain ⟨packageHash, hpackage, h⟩ := bind_eq_ok.mp h
            cases h
            exact ⟨hroot, hproof, hhash, not_ne_iff.mp hleaf, hpackage⟩

theorem passes_of_packageAttestationProofResult {leaves : List String} {packagedAt : JsString}
    {attestation : α} {eventHashes : List String} {tree : MerkleTree} {index : ℤ}
    {pkg : AttestationProofPackage α} (hbuild : MerkleTree.build leaves = .ok tree)
    (h : packageAttestationProofResult cz packagedAt attestation eventHashes tree index =
      .ok (.ok pkg)) : Passes cz pkg := by
  obtain ⟨hroot, hproof, hhash, hleaf, hpackage⟩ := eq_ok_of_packageAttestationProofResult h
  have hproves := provesIndex_of_getProof hbuild hproof
  have hroots := Option.some.inj (hroot.symm.trans hproves.root)
  exact passes_iff.mpr ⟨hhash, hleaf.symm, hproves.verifies, hroots, hpackage⟩

theorem passes_of_packageAttestationProof {leaves : List String} {packagedAt : JsString}
    {attestation : α} {eventHashes : List String} {tree : MerkleTree} {index : ℤ}
    {pkg : AttestationProofPackage α} (hbuild : MerkleTree.build leaves = .ok tree)
    (h : packageAttestationProof cz packagedAt attestation eventHashes tree index =
      .ok (some pkg)) : Passes cz pkg := by
  obtain ⟨result, hresult, h⟩ := map_eq_ok.mp h
  cases result with
  | failed reason detail => cases h
  | ok package =>
    cases h
    exact passes_of_packageAttestationProofResult hbuild hresult

/-! ## The leaf -/

theorem mem_leaves_of_passes {pkg : AttestationProofPackage α} {leaves : List String}
    {tree : MerkleTree} (hpass : Passes cz pkg) (hbuild : MerkleTree.build leaves = .ok tree)
    (hroot : tree.getRoot = some pkg.merkleRoot)
    (hcf : CollisionFree (buildMessages leaves ∪ proofMessages pkg.inclusionProof)) :
    ∃ hash, hashAttestation cz pkg.attestation = .ok hash ∧ hash ∈ leaves := by
  have hc := passes_iff.mp hpass
  obtain ⟨hleaves, rfl⟩ := MerkleTree.build_eq_ok.mp hbuild
  obtain ⟨t, ht, htroot⟩ := exists_top_of_getRoot hroot
  obtain ⟨j, hj, -⟩ := exists_index_of_verifyProof hleaves ht (htroot.trans hc.rootConsistency) hcf
    hc.merkleInclusion
  refine ⟨_, hc.attestationHash, ?_⟩
  rw [hc.leafBinding]
  exact List.mem_of_getElem? hj

/-! ## The package hash -/

theorem js_eq_of_same {s t : String} (h : (JsonValue.str (js s)).Same (.str (js t))) : s = t :=
  js_injective (JsonValue.same_str h)

theorem eq_of_same_jsonOfStep (s t : MerkleProofStep) (h : (jsonOfStep s).Same (jsonOfStep t)) :
    s = t := by
  have hash := h.rel_get? (js "hash")
  have direction := h.rel_get? (js "direction")
  simp only [jsonOfStep, JsonValue.get?_object_cons, JsonValue.get?_object_nil] at hash direction
  obtain ⟨sh, sd⟩ := s
  obtain ⟨th, td⟩ := t
  simp at hash direction
  obtain rfl := js_eq_of_same hash
  have hdir := js_eq_of_same direction
  cases sd <;> cases td <;> simp [directionText] at hdir ⊢

theorem eq_of_same_jsonOfProof {p q : MerkleProof} (h : (jsonOfProof p).Same (jsonOfProof q)) :
    p = q := by
  have leafHash := h.rel_get? (js "leafHash")
  have leafIndex := h.rel_get? (js "leafIndex")
  have siblings := h.rel_get? (js "siblings")
  have root := h.rel_get? (js "root")
  simp [jsonOfProof] at leafHash leafIndex siblings root
  obtain ⟨lh, li, ls, lr⟩ := p
  obtain ⟨mh, mi, ms, mr⟩ := q
  obtain rfl := js_eq_of_same leafHash
  obtain rfl := JsonValue.same_num leafIndex
  obtain rfl := JsonValue.eq_of_same_array eq_of_same_jsonOfStep siblings
  obtain rfl := js_eq_of_same root
  rfl

/-- The same data, where the members of JSON objects in the attestation have no order. -/
structure SameData (cz : Canonicalizer α) (p q : PackageData α) : Prop where
  attestation : ∃ i j, cz.image p.attestation = .ok i ∧ cz.image q.attestation = .ok j ∧
    Option.Rel JsonValue.Same i j
  attestationHash : p.attestationHash = q.attestationHash
  merkleRoot : p.merkleRoot = q.merkleRoot
  inclusionProof : p.inclusionProof = q.inclusionProof
  packagedAt : p.packagedAt = q.packagedAt

theorem sameData_of_same {p q : PackageData α} {i j : Option JsonValue}
    (hi : cz.image p.attestation = .ok i) (hj : cz.image q.attestation = .ok j)
    (h : (jsonOfData p i).Same (jsonOfData q j)) : SameData cz p q := by
  have attestation := h.rel_get? (js "attestation")
  have attestationHash := h.rel_get? (js "attestationHash")
  have merkleRoot := h.rel_get? (js "merkleRoot")
  have inclusionProof := h.rel_get? (js "inclusionProof")
  have packagedAt := h.rel_get? (js "packagedAt")
  simp [jsonOfData] at attestation attestationHash merkleRoot inclusionProof packagedAt
  exact ⟨⟨i, j, hi, hj, attestation⟩, js_eq_of_same attestationHash, js_eq_of_same merkleRoot,
    eq_of_same_jsonOfProof inclusionProof, JsonValue.same_str packagedAt⟩

/-- The message hashed for a package. -/
def packageMessages (cz : Canonicalizer α) (data : PackageData α) : Set Bytes :=
  {m | ∃ s, cz.canonicalizeData data = .ok s ∧ m = Utf8.encode s.toList}

theorem sameData_of_packageHash_eq (hcanon : ∀ v w, cz.text v = cz.text w → v.Same w)
    {p q : PackageData α} {hash : String}
    (hcf : CollisionFree (packageMessages cz p ∪ packageMessages cz q))
    (hp : computePackageHash cz p = .ok hash) (hq : computePackageHash cz q = .ok hash) :
    SameData cz p q := by
  obtain ⟨s, hs, hps⟩ := map_eq_ok.mp hp
  obtain ⟨t, ht, hqt⟩ := map_eq_ok.mp hq
  have hmsg := hcf (.inl ⟨s, hs, rfl⟩) (.inr ⟨t, ht, rfl⟩)
    (hexEncode_injective (hps.trans hqt.symm))
  have hst := congrArg Utf8.decode hmsg
  rw [Utf8.decode_encode, Utf8.decode_encode] at hst
  obtain ⟨i, hi, hsi⟩ := cz.eq_text_of_canonicalizeData p s hs
  obtain ⟨j, hj, htj⟩ := cz.eq_text_of_canonicalizeData q t ht
  have htext := hsi.symm.trans ((String.toList_injective hst).trans htj)
  exact sameData_of_same hi hj (hcanon _ _ htext)

/-- Packages: what the packager accepts passes; what passes proves a leaf of every tree with
the root of the package; and no field of what passes is free under the package hash. -/
theorem attestation_packages (cz : Canonicalizer α)
    (hcanon : ∀ v w, cz.text v = cz.text w → v.Same w) :
    (∀ leaves tree packagedAt attestation eventHashes index pkg,
      MerkleTree.build leaves = .ok tree →
      packageAttestationProofResult cz packagedAt attestation eventHashes tree index =
        .ok (.ok pkg) → Passes cz pkg) ∧
    (∀ pkg leaves tree, Passes cz pkg → MerkleTree.build leaves = .ok tree →
      tree.getRoot = some pkg.merkleRoot →
      CollisionFree (buildMessages leaves ∪ proofMessages pkg.inclusionProof) →
      ∃ hash, hashAttestation cz pkg.attestation = .ok hash ∧ hash ∈ leaves) ∧
    ∀ p q, Passes cz p → Passes cz q → p.packageHash = q.packageHash →
      CollisionFree (packageMessages cz p.toPackageData ∪ packageMessages cz q.toPackageData) →
      SameData cz p.toPackageData q.toPackageData := by
  refine ⟨?_, ?_, ?_⟩
  · intro leaves tree packagedAt attestation eventHashes index pkg hbuild h
    exact passes_of_packageAttestationProofResult hbuild h
  · intro pkg leaves tree hpass hbuild hroot hcf
    exact mem_leaves_of_passes hpass hbuild hroot hcf
  · intro p q hp hq heq hcf
    have hq' := (passes_iff.mp hq).packageHash
    rw [← heq] at hq'
    exact sameData_of_packageHash_eq hcanon hcf (passes_iff.mp hp).packageHash hq'

/-! ## Two packages -/

/-- An attestation whose members stand in one of the two orders. -/
def cleanAttestation (reversed : Bool) : JsonValue :=
  let stateId := (js "stateId", some (.str (js "s2")))
  let verdict := (js "verdict", some (.str (js "clean")))
  .object (if reversed then [verdict, stateId] else [stateId, verdict])

def cleanHash : String := sha256Hex (cleanAttestation false).canonicalText

theorem same_cleanAttestation (reversed : Bool) :
    (cleanAttestation reversed).Same (cleanAttestation false) := by
  cases reversed with
  | false => exact .refl _
  | true => exact JsonValue.same_object_of_perm (.swap _ _ []) (by simp)

/-- The data of the package at the second of two leaves. -/
def cleanData (reversed : Bool) : PackageData JsonValue :=
  let root := hashPair (hashLeaf zeros) (hashLeaf cleanHash)
  ⟨cleanAttestation reversed, cleanHash, root,
    ⟨cleanHash, .ofInt 1, [⟨hashLeaf zeros, .left⟩], root⟩, js "t"⟩

def cleanPackage (reversed : Bool) : AttestationProofPackage JsonValue :=
  ⟨cleanData reversed,
    sha256Hex (jsonOfData (cleanData reversed) (some (cleanAttestation reversed))).canonicalText⟩

theorem canonicalText_cleanData (reversed : Bool) :
    (jsonOfData (cleanData reversed) (some (cleanAttestation reversed))).canonicalText =
      (jsonOfData (cleanData false) (some (cleanAttestation false))).canonicalText := by
  apply JsonValue.canonicalText_eq_of_same
  apply JsonValue.same_object
  refine .cons ⟨rfl, .some rfl⟩ (.cons ⟨rfl, .some (same_cleanAttestation reversed)⟩ ?_)
  exact List.forall₂_same.mpr fun e _ => ⟨rfl, by cases e.2 <;> constructor; rfl⟩

theorem collisionFree_zeros_cleanHash : CollisionFree (buildMessages [zeros, cleanHash]) := by
  rw [buildMessages_pair]
  apply collisionFree_of_head
  simp only [hashInput, hashLeaf, cleanHash, sha256Hex, hexDecode_hexEncode, JsonValue.canonicalText,
    String.toList_ofList, sha256_eq_words]
  decide +kernel

/-- The packages of an attestation in both orders of its members, at the second of two leaves. -/
theorem attestation_packages_cleanPackage :
    let tree : MerkleTree := ⟨buildTree [zeros, cleanHash], [zeros, cleanHash]⟩
    (∀ reversed, packageAttestationProofResult jcs (js "t") (cleanAttestation reversed)
      [zeros, cleanHash] tree 1 = .ok (.ok (cleanPackage reversed))) ∧
    (∀ reversed, Passes jcs (cleanPackage reversed)) ∧
    (∃ h, hashAttestation jcs (cleanPackage true).attestation = .ok h ∧ h ∈ [zeros, cleanHash]) ∧
    SameData jcs (cleanPackage false).toPackageData (cleanPackage true).toPackageData := by
  intro tree
  have hvalid : isSha256Hex cleanHash = true := isSha256Hex_hexEncode_sha256 _
  have hbuild : MerkleTree.build [zeros, cleanHash] = .ok tree :=
    MerkleTree.build_eq_ok.mpr ⟨by simp [isSha256Hex_zeros, hvalid], rfl⟩
  have hroot : tree.getRoot = some (hashPair (hashLeaf zeros) (hashLeaf cleanHash)) :=
    getRoot_pair zeros cleanHash
  have hproof : tree.getProof 1 = some (cleanData false).inclusionProof := by
    simp [tree, MerkleTree.getProof, MerkleTree.collectSiblings, buildTree, top, pairUp,
      MerkleNode.parent, MerkleNode.hash, cleanData]
  have hpackage : ∀ reversed, packageAttestationProofResult jcs (js "t")
      (cleanAttestation reversed) [zeros, cleanHash] tree 1 =
        .ok (.ok (cleanPackage reversed)) := by
    intro reversed
    have hhash : hashAttestation jcs (cleanAttestation reversed) = .ok cleanHash :=
      congrArg (fun s => Except.ok (sha256Hex s))
        (JsonValue.canonicalText_eq_of_same (same_cleanAttestation reversed))
    simp only [packageAttestationProofResult, hroot, hproof, hhash, bind, Except.bind]
    simp [computePackageHash, jcs, cleanPackage, cleanData, pure, Except.pure, Except.map]
  obtain ⟨hpasses, hleaf, hsame⟩ :=
    attestation_packages jcs fun v w h => JsonValue.same_of_canonicalText_eq h
  have hpass : ∀ reversed, Passes jcs (cleanPackage reversed) := fun reversed =>
    hpasses [zeros, cleanHash] tree (js "t") _ [zeros, cleanHash] 1 _ hbuild (hpackage reversed)
  refine ⟨hpackage, hpass, hleaf _ _ tree (hpass true) hbuild hroot ?_,
    hsame _ _ (hpass false) (hpass true) ?_ ?_⟩
  · exact collisionFree_zeros_cleanHash.mono
      (Set.union_subset subset_rfl (proofMessages_pair _ _ _ _).2)
  · exact congrArg sha256Hex (canonicalText_cleanData true).symm
  · -- both packages hash one message
    have hmessage : ∀ reversed, ∀ m ∈ packageMessages jcs (cleanPackage reversed).toPackageData,
        m = Utf8.encode
          (jsonOfData (cleanData false) (some (cleanAttestation false))).canonicalText.toList := by
      rintro reversed m ⟨s, hs, rfl⟩
      rw [← canonicalText_cleanData reversed, ← Except.ok.inj hs]
      rfl
    rintro m hm n hn -
    exact (hm.elim (hmessage _ m) (hmessage _ m)).trans (hn.elim (hmessage _ n) (hmessage _ n)).symm

end Attestia.Proof
