import Attestia.Proof.MerkleSoundness
import Attestia.Lib.Sha256Words

/-!
# Completeness of inclusion proofs and binding of the root

The proof built for an index verifies, whatever the length of the tree, and a root fixes the
list of leaves it was built from, its length and its order included. The siblings of a verified
proof fix the position of its leaf.
-/

namespace Attestia.Proof
open Lib Lib.HashTree Lib.JsonNumber

/-! ## Completeness -/

namespace MerkleTree

theorem getProof_of_not_inRange {leaves : List String} {root : Option MerkleNode} {i : ℤ}
    (h : ¬ (0 ≤ i ∧ i < leaves.length)) : getProof ⟨root, leaves⟩ i = none := by
  cases root with
  | none => rfl
  | some root =>
    by_cases hi : i < 0
    · simp [getProof, hi]
    · have hlen : leaves.length ≤ i.toNat := by omega
      simp [getProof, hi, List.getElem?_eq_none hlen]

/-- The fold of a proof that `getProof` builds ends in the root. -/
theorem verifyProof_siblingPath {leaves : List String} {t : LeafTree String}
    (hleaves : ∀ a ∈ leaves, isSha256Hex a = true)
    (ht : top LeafTree.node (leaves.map LeafTree.leaf) = some t) {j : ℕ} {a : String}
    (hj : leaves[j]? = some a) (leafIndex : Number) :
    verifyProof ⟨a, leafIndex, siblingPath hashPair (leaves.map hashLeaf) j, t.root treeHash⟩ =
      .ok true := by
  have hsib : ∀ s ∈ siblingPath hashPair (leaves.map hashLeaf) j, isSha256Hex s.hash = true := by
    apply forall_mem_siblingPath (P := fun hash => isSha256Hex hash = true)
    · exact fun _ _ => isSha256Hex_hexEncode_sha256 _
    · intro x hx
      obtain ⟨b, -, rfl⟩ := List.mem_map.mp hx
      exact isSha256Hex_hexEncode_sha256 _
  exact verifyProof_eq_ok_true.mpr ⟨hleaves a (List.mem_of_getElem? hj), isSha256Hex_root t, hsib,
    fold_siblingPath treeHash ht hj⟩

end MerkleTree

/-- What `getProof` returns in range: a proof of the leaf with the root, which verifies. -/
structure ProvesIndex (leaves : List String) (tree : MerkleTree) (i : ℤ) (proof : MerkleProof) :
    Prop where
  leafIndex : proof.leafIndex = .ofInt i
  leafHash : leaves[i.toNat]? = some proof.leafHash
  root : tree.getRoot = some proof.root
  verifies : MerkleTree.verifyProof proof = .ok true

theorem exists_getProof {leaves : List String} {tree : MerkleTree}
    (hbuild : MerkleTree.build leaves = .ok tree) {i : ℤ} (hi : 0 ≤ i ∧ i < leaves.length) :
    ∃ proof, tree.getProof i = some proof ∧ ProvesIndex leaves tree i proof := by
  obtain ⟨hleaves, rfl⟩ := MerkleTree.build_eq_ok.mp hbuild
  obtain ⟨hpos, hlt⟩ := hi
  obtain ⟨j, rfl⟩ := Int.eq_ofNat_of_zero_le hpos
  have hj : leaves[j]? = some leaves[j] := List.getElem?_eq_getElem (by exact_mod_cast hlt)
  obtain ⟨t, ht⟩ := exists_top (List.ne_nil_of_mem (List.mem_of_getElem? hj))
  have hproof := MerkleTree.getProof_eq (r := nodeOf t) hj
  have hverify := MerkleTree.verifyProof_siblingPath hleaves ht hj (.ofInt j)
  rw [hash_nodeOf] at hproof
  refine ⟨⟨leaves[j], .ofInt j, _, _⟩, ?_, rfl, hj, getRoot_of_top ht, hverify⟩
  rw [buildTree_eq, ht]
  exact hproof

theorem provesIndex_of_getProof {leaves : List String} {tree : MerkleTree} {i : ℤ}
    {proof : MerkleProof} (hbuild : MerkleTree.build leaves = .ok tree)
    (hproof : tree.getProof i = some proof) : ProvesIndex leaves tree i proof := by
  have hi : 0 ≤ i ∧ i < leaves.length := by
    by_contra h
    rw [(MerkleTree.build_eq_ok.mp hbuild).2, MerkleTree.getProof_of_not_inRange h] at hproof
    cases hproof
  obtain ⟨p, hp, hproves⟩ := exists_getProof hbuild hi
  cases hp.symm.trans hproof
  exact hproves

/-- In range, the proof carries the index, its leaf and the root, and verifies; out of range
there is none. -/
theorem getProof_complete (leaves : List String) (tree : MerkleTree) (i : ℤ)
    (hbuild : MerkleTree.build leaves = .ok tree) :
    (0 ≤ i ∧ i < leaves.length → ∃ proof, tree.getProof i = some proof ∧
      proof.leafIndex = .ofInt i ∧ leaves[i.toNat]? = some proof.leafHash ∧
      tree.getRoot = some proof.root ∧ MerkleTree.verifyProof proof = .ok true) ∧
    (¬ (0 ≤ i ∧ i < leaves.length) → tree.getProof i = none) := by
  constructor
  · intro hi
    obtain ⟨proof, hproof, h⟩ := exists_getProof hbuild hi
    exact ⟨proof, hproof, h.leafIndex, h.leafHash, h.root, h.verifies⟩
  · intro hi
    rw [(MerkleTree.build_eq_ok.mp hbuild).2]
    exact MerkleTree.getProof_of_not_inRange hi

/-- The last of three leaves is promoted: its proof has one step. -/
theorem getProof_complete_three_leaves :
    let a := hashLeaf ""
    let tree : MerkleTree := ⟨buildTree [a, a, a], [a, a, a]⟩
    (0 ≤ (2 : ℤ) ∧ (2 : ℤ) < [a, a, a].length → ∃ proof, tree.getProof 2 = some proof ∧
      proof.leafIndex = .ofInt 2 ∧ [a, a, a][(2 : ℤ).toNat]? = some proof.leafHash ∧
      tree.getRoot = some proof.root ∧ MerkleTree.verifyProof proof = .ok true) ∧
    (¬ (0 ≤ (2 : ℤ) ∧ (2 : ℤ) < [a, a, a].length) → tree.getProof 2 = none) := by
  intro a tree
  have ha : isSha256Hex a = true := isSha256Hex_hexEncode_sha256 _
  exact getProof_complete [a, a, a] tree 2 (MerkleTree.build_eq_ok.mpr ⟨by simp [ha], rfl⟩)

/-! ## Binding -/

/-- Two trees with the same root, which is not null, have the same leaves. -/
theorem leaves_eq_of_getRoot_eq (leaves leaves' : List String) (tree tree' : MerkleTree)
    (root : String) (hbuild : MerkleTree.build leaves = .ok tree)
    (hbuild' : MerkleTree.build leaves' = .ok tree')
    (hcf : CollisionFree (buildMessages leaves ∪ buildMessages leaves'))
    (hroot : tree.getRoot = some root) (hroot' : tree'.getRoot = some root) :
    leaves = leaves' := by
  obtain ⟨hleaves, rfl⟩ := MerkleTree.build_eq_ok.mp hbuild
  obtain ⟨hleaves', rfl⟩ := MerkleTree.build_eq_ok.mp hbuild'
  obtain ⟨s, hs, hsroot⟩ := exists_top_of_getRoot hroot
  obtain ⟨t, ht, htroot⟩ := exists_top_of_getRoot hroot'
  have hvalid : ∀ i ∈ s.inputs treeHash ∪ t.inputs treeHash, ValidInput i := by
    rintro i (hi | hi)
    · exact validInput_of_mem_inputs hleaves hs i hi
    · exact validInput_of_mem_inputs hleaves' ht i hi
  have hinj := treeHash_injOn hvalid (by
    rw [Set.image_union]
    apply hcf.mono
    exact Set.union_subset_union (fun m hm => ⟨s, hs, hm⟩) fun m hm => ⟨t, ht, hm⟩)
  exact eq_of_top_root_eq treeHash hs ht hinj (hsroot.trans htroot.symm)

theorem buildMessages_triple (a b c : String) : buildMessages [a, b, c] ⊆
    {m | m ∈ [hashInput (.leaf a), hashInput (.leaf b), hashInput (.leaf c),
      hashInput (.node (hashLeaf a) (hashLeaf b)),
      hashInput (.node (hashPair (hashLeaf a) (hashLeaf b)) (hashLeaf c))]} := by
  rintro m ⟨t, ht, i, hi, rfl⟩
  simp only [List.map_cons, List.map_nil, top, pairUp, Option.some.injEq] at ht
  subst ht
  rcases hi with rfl | (rfl | rfl | rfl) | rfl
  · exact .tail _ (.tail _ (.tail _ (.tail _ (.head _))))
  · exact .tail _ (.tail _ (.tail _ (.head _)))
  · exact .head _
  · exact .tail _ (.head _)
  · exact .tail _ (.tail _ (.head _))

/-- Three different leaves: the last one is promoted to the level of the root's children. -/
theorem leaves_eq_of_getRoot_eq_three_leaves :
    [zeros, ones, hashLeaf zeros] = [zeros, ones, hashLeaf zeros] := by
  let c := hashLeaf zeros
  have hc : isSha256Hex c = true := isSha256Hex_hexEncode_sha256 _
  have hbuild := MerkleTree.build_eq_ok.mpr
    ⟨show ∀ a ∈ [zeros, ones, c], isSha256Hex a = true by
      simp [isSha256Hex_zeros, isSha256Hex_ones, hc], rfl⟩
  have hheads : ([hashInput (.leaf zeros), hashInput (.leaf ones), hashInput (.leaf c),
      hashInput (.node (hashLeaf zeros) (hashLeaf ones)),
      hashInput (.node (hashPair (hashLeaf zeros) (hashLeaf ones)) (hashLeaf c))].map
        fun m => (sha256 m).head?).Nodup := by
    simp only [c, hashInput, hashLeaf, hashPair, hexDecode_hexEncode, sha256_eq_words]
    decide +kernel
  refine leaves_eq_of_getRoot_eq _ _ _ _
    (hashPair (hashPair (hashLeaf zeros) (hashLeaf ones)) (hashLeaf c)) hbuild hbuild ?_ ?_ ?_
  · rw [Set.union_self]
    exact (collisionFree_of_head hheads).mono (buildMessages_triple _ _ _)
  all_goals
    simp [MerkleTree.getRoot, buildTree, top, pairUp, MerkleNode.parent, MerkleNode.hash, c]

/-! ## The position of a verified proof -/

theorem getProof_siblings {leaves : List String} {tree : MerkleTree} {i : ℕ} {proof : MerkleProof}
    (hbuild : MerkleTree.build leaves = .ok tree) (hproof : tree.getProof i = some proof) :
    i < leaves.length ∧ proof.siblings = siblingPath hashPair (leaves.map hashLeaf) i := by
  have hleaf : leaves[i]? = some proof.leafHash := (provesIndex_of_getProof hbuild hproof).leafHash
  obtain ⟨-, rfl⟩ := MerkleTree.build_eq_ok.mp hbuild
  obtain ⟨hlt, -⟩ := List.getElem?_eq_some_iff.mp hleaf
  obtain ⟨t, ht⟩ := exists_top (List.ne_nil_of_mem (List.mem_of_getElem? hleaf))
  rw [buildTree_eq, ht, Option.map_some, MerkleTree.getProof_eq hleaf] at hproof
  refine ⟨hlt, ?_⟩
  rw [← Option.some.inj hproof]

/-- A proof that verifies against the root of a tree is, but for `leafIndex`, the proof of exactly
one index, and that index holds its leaf. `leafIndex` is not read: it is the position of the leaf
exactly where the proof is the one built for it. -/
theorem verifyProof_position (leaves : List String) (tree : MerkleTree) (proof : MerkleProof)
    (hbuild : MerkleTree.build leaves = .ok tree) (hroot : tree.getRoot = some proof.root)
    (hcf : CollisionFree (buildMessages leaves ∪ proofMessages proof))
    (hverify : MerkleTree.verifyProof proof = .ok true) :
    ∃ i : ℕ, leaves[i]? = some proof.leafHash ∧
      (∀ j : ℤ, tree.getProof j = some { proof with leafIndex := .ofInt j } ↔ j = i) ∧
      (proof.leafIndex = .ofInt i ↔ tree.getProof i = some proof) ∧
      ∀ leafIndex, MerkleTree.verifyProof { proof with leafIndex } = .ok true := by
  obtain ⟨hleaves, htree⟩ := MerkleTree.build_eq_ok.mp hbuild
  obtain ⟨t, ht, htroot⟩ := exists_top_of_getRoot (htree ▸ hroot)
  obtain ⟨i, hi, hsib⟩ := exists_index_of_verifyProof hleaves ht htroot hcf hverify
  have hown : tree.getProof i = some { proof with leafIndex := .ofInt i } := by
    rw [htree, buildTree_eq, ht, Option.map_some, MerkleTree.getProof_eq hi, hash_nodeOf, htroot,
      ← hsib]
  refine ⟨i, hi, ?_, ?_, ?_⟩
  · intro j
    constructor
    · intro hj
      obtain ⟨k, rfl⟩ : ∃ k : ℕ, j = k := by
        apply Int.eq_ofNat_of_zero_le
        by_contra hneg
        rw [htree, MerkleTree.getProof_of_not_inRange (fun h => hneg h.1)] at hj
        cases hj
      obtain ⟨hk, hksib⟩ := getProof_siblings hbuild hj
      obtain ⟨hlt, -⟩ := List.getElem?_eq_some_iff.mp hi
      -- the siblings tell the index
      rw [siblingPath_inj treeHash hk hlt (hksib.symm.trans hsib)]
    · rintro rfl
      exact hown
  · constructor
    · intro hindex
      rw [hown, ← hindex]
    · intro hproof
      exact (congrArg MerkleProof.leafIndex (Option.some.inj (hown.symm.trans hproof))).symm
  · intro leafIndex
    rw [MerkleTree.verifyProof_eq_ok_true] at hverify ⊢
    exact hverify

/-- The first of two leaves, whose sibling is to the right. -/
theorem verifyProof_position_two_leaves :
    let tree : MerkleTree := ⟨buildTree [zeros, ones], [zeros, ones]⟩
    let proof : MerkleProof := ⟨zeros, .ofInt 0, [⟨hashLeaf ones, .right⟩],
      hashPair (hashLeaf zeros) (hashLeaf ones)⟩
    ∃ i : ℕ, [zeros, ones][i]? = some proof.leafHash ∧
      (∀ j : ℤ, tree.getProof j = some { proof with leafIndex := .ofInt j } ↔ j = i) ∧
      (proof.leafIndex = .ofInt i ↔ tree.getProof i = some proof) ∧
      ∀ leafIndex, MerkleTree.verifyProof { proof with leafIndex } = .ok true := by
  intro tree proof
  refine verifyProof_position [zeros, ones] tree proof build_zeros_ones (getRoot_pair _ _) ?_
    (verifyProof_zeros _)
  exact collisionFree_zeros_ones.mono
    (Set.union_subset subset_rfl (proofMessages_pair _ _ _ _).1)

/-- The first of two different leaves with its path and the index of the second one. -/
theorem verifyProof_forged_position :
    let a := String.ofList (List.replicate 64 '0')
    let b := String.ofList (List.replicate 64 '1')
    let tree : MerkleTree := ⟨buildTree [a, b], [a, b]⟩
    let proof : MerkleProof :=
      ⟨a, .ofInt 1, [⟨hashLeaf b, .right⟩], hashPair (hashLeaf a) (hashLeaf b)⟩
    MerkleTree.build [a, b] = .ok tree ∧ tree.getRoot = some proof.root ∧
      MerkleTree.verifyProof proof = .ok true ∧
      proof.leafIndex = .ofInt 1 ∧ [a, b][1]? ≠ some proof.leafHash := by
  intro a b tree proof
  refine ⟨build_zeros_ones, getRoot_pair a b, verifyProof_zeros _, rfl, ?_⟩
  show some b ≠ some a
  intro hab
  have hchars := congrArg String.toList (Option.some.inj hab)
  simp only [a, b, String.toList_ofList] at hchars
  revert hchars
  decide

end Attestia.Proof
