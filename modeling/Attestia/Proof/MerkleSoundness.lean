import Attestia.Proof.MerkleTree
import Mathlib.Data.List.Nodup
import Attestia.Lib.Sha256Words

/-!
# Soundness of Merkle inclusion proofs

A proof that verifies against the root of a built tree is, step for step, the proof that
`getProof` builds for one of the tree's indices. SHA-256 is assumed collision-free on the
messages hashed by building the tree and by verifying the proof.
-/

namespace Attestia.Proof
open Lib Lib.HashTree Lib.JsonNumber

/-- The messages hashed by `build`. -/
def buildMessages (leaves : List String) : Set Bytes :=
  {m | ∃ t, top LeafTree.node (leaves.map LeafTree.leaf) = some t ∧
    m ∈ hashInput '' t.inputs treeHash}

/-- The messages hashed by `verifyProof`. -/
def proofMessages (proof : MerkleProof) : Set Bytes :=
  hashInput '' pathInputs treeHash proof.leafHash proof.siblings

/-- Both strings of an input are 32-byte digests. -/
def ValidInput : Input String String → Prop
  | .leaf a => isSha256Hex a = true
  | .node l r => isSha256Hex l = true ∧ isSha256Hex r = true

/-- The tags and the fixed digest length separate leaves, nodes and the two children. -/
theorem hashInput_injOn : Set.InjOn hashInput {i | ValidInput i} := by
  rintro (a | ⟨l, r⟩) hi (b | ⟨l', r'⟩) hj heq
  · obtain ⟨-, heq⟩ := List.cons.inj heq
    rw [eq_of_hexDecode_eq hi hj heq]
  · exact absurd (List.cons.inj heq).1 (by decide)
  · exact absurd (List.cons.inj heq).1 (by decide)
  · obtain ⟨-, heq⟩ := List.cons.inj heq
    have hlen : (hexDecode l).length = (hexDecode l').length := by
      rw [hexDecode_length hi.1, hexDecode_length hj.1]
    obtain ⟨hl, hr⟩ := List.append_inj heq hlen
    rw [eq_of_hexDecode_eq hi.1 hj.1 hl, eq_of_hexDecode_eq hi.2 hj.2 hr]

theorem treeHash_injOn {S : Set (Input String String)} (hv : ∀ i ∈ S, ValidInput i)
    (hcf : CollisionFree (hashInput '' S)) : Set.InjOn treeHash S := by
  intro i hi j hj heq
  have hmsg := hcf (Set.mem_image_of_mem _ hi) (Set.mem_image_of_mem _ hj) (hexEncode_injective heq)
  exact hashInput_injOn (hv i hi) (hv j hj) hmsg

@[simp] theorem isSha256Hex_treeHash (i : Input String String) : isSha256Hex (treeHash i) = true :=
  isSha256Hex_hexEncode_sha256 _

theorem isSha256Hex_root (t : LeafTree String) : isSha256Hex (t.root treeHash) = true := by
  cases t <;> exact isSha256Hex_treeHash _

theorem validInput_of_top {l : List (LeafTree String)} {t : LeafTree String}
    (ht : top LeafTree.node l = some t) (hl : ∀ s ∈ l, ∀ i ∈ s.inputs treeHash, ValidInput i) :
    ∀ i ∈ t.inputs treeHash, ValidInput i := by
  fun_induction top LeafTree.node l with
  | case1 => cases ht
  | case2 s =>
    obtain rfl := Option.some.inj ht
    exact hl s (by simp)
  | case3 x y l ih =>
    apply ih ht
    clear ih ht
    generalize x :: y :: l = l at hl
    fun_induction pairUp LeafTree.node l with
    | case1 x y l ih =>
      simp only [List.mem_cons, forall_eq_or_imp] at hl ⊢
      obtain ⟨hx, hy, hl⟩ := hl
      refine ⟨?_, ih hl⟩
      rintro i (rfl | hi | hi)
      · exact ⟨isSha256Hex_root x, isSha256Hex_root y⟩
      · exact hx i hi
      · exact hy i hi
    | case2 l _ => exact hl

theorem validInput_of_mem_inputs {leaves : List String} {t : LeafTree String}
    (hl : ∀ a ∈ leaves, isSha256Hex a = true)
    (ht : top LeafTree.node (leaves.map LeafTree.leaf) = some t) :
    ∀ i ∈ t.inputs treeHash, ValidInput i := by
  apply validInput_of_top ht
  intro s hs i hi
  obtain ⟨a, ha, rfl⟩ := List.mem_map.mp hs
  obtain rfl : i = .leaf a := hi
  exact hl a ha

theorem isSha256Hex_fold {cur : String} {steps : List MerkleProofStep}
    (hcur : isSha256Hex cur = true) : isSha256Hex (fold treeHash cur steps) = true := by
  rcases List.eq_nil_or_concat steps with rfl | ⟨init, s, rfl⟩
  · exact hcur
  · rw [List.concat_eq_append, fold_append_singleton]
    exact isSha256Hex_treeHash _

theorem validInput_of_mem_pathInputs {a : String} {steps : List MerkleProofStep}
    (ha : isSha256Hex a = true) (hs : ∀ s ∈ steps, isSha256Hex s.hash = true) :
    ∀ i ∈ pathInputs treeHash a steps, ValidInput i := by
  rintro i (rfl | ⟨pre, s, post, rfl, rfl⟩)
  · exact ha
  · have hcur : isSha256Hex (fold treeHash (treeHash (.leaf a)) pre) = true :=
      isSha256Hex_fold (isSha256Hex_treeHash _)
    have hsib := hs s (by simp)
    obtain ⟨sh, _ | _⟩ := s
    · exact ⟨hsib, hcur⟩
    · exact ⟨hcur, hsib⟩

theorem exists_top {leaves : List String} (h : leaves ≠ []) :
    ∃ t, top LeafTree.node (leaves.map LeafTree.leaf) = some t :=
  top_isSome _ fun hnil => h (List.map_eq_nil_iff.mp hnil)

theorem getRoot_of_top {leaves : List String} {t : LeafTree String}
    (ht : top LeafTree.node (leaves.map LeafTree.leaf) = some t) :
    MerkleTree.getRoot ⟨buildTree leaves, leaves⟩ = some (t.root treeHash) := by
  simp [MerkleTree.getRoot, buildTree_eq, ht]

/-- A root that is not null is the root of a tree over the leaves. -/
theorem exists_top_of_getRoot {leaves : List String} {root : String}
    (hroot : MerkleTree.getRoot ⟨buildTree leaves, leaves⟩ = some root) :
    ∃ t, top LeafTree.node (leaves.map LeafTree.leaf) = some t ∧ t.root treeHash = root := by
  obtain ⟨t, ht⟩ : ∃ t, top LeafTree.node (leaves.map LeafTree.leaf) = some t := by
    apply exists_top
    rintro rfl
    simp [MerkleTree.getRoot, buildTree, top] at hroot
  exact ⟨t, ht, Option.some.inj ((getRoot_of_top ht).symm.trans hroot)⟩

/-- A proof that verifies against the root of a tree follows the siblings of an index. -/
theorem exists_index_of_verifyProof {leaves : List String} {proof : MerkleProof}
    {t : LeafTree String} (hleaves : ∀ a ∈ leaves, isSha256Hex a = true)
    (ht : top LeafTree.node (leaves.map LeafTree.leaf) = some t)
    (hroot : t.root treeHash = proof.root)
    (hcf : CollisionFree (buildMessages leaves ∪ proofMessages proof))
    (hverify : MerkleTree.verifyProof proof = .ok true) :
    ∃ j, leaves[j]? = some proof.leafHash ∧
      proof.siblings = siblingPath hashPair (leaves.map hashLeaf) j := by
  obtain ⟨hleaf, -, hsib, hfold⟩ := MerkleTree.verifyProof_eq_ok_true.mp hverify
  have hvalid : ∀ i ∈ t.inputs treeHash ∪ pathInputs treeHash proof.leafHash proof.siblings,
      ValidInput i := by
    rintro i (hi | hi)
    · exact validInput_of_mem_inputs hleaves ht i hi
    · exact validInput_of_mem_pathInputs hleaf hsib i hi
  have hinj := treeHash_injOn hvalid (by
    rw [Set.image_union]
    apply hcf.mono
    exact Set.union_subset_union (fun m hm => ⟨t, ht, hm⟩) le_rfl)
  exact exists_index_of_fold_eq_root treeHash ht hinj (hfold.trans hroot.symm)

/-- A proof with the tree's root that verifies proves a leaf of the tree, and its siblings and
directions are those of the proof built for an index of that leaf. -/
theorem verifyProof_sound (leaves : List String) (tree : MerkleTree) (proof : MerkleProof)
    (hbuild : MerkleTree.build leaves = .ok tree) (hroot : tree.getRoot = some proof.root)
    (hcf : CollisionFree (buildMessages leaves ∪ proofMessages proof))
    (hverify : MerkleTree.verifyProof proof = .ok true) :
    proof.leafHash ∈ leaves ∧
      ∃ (j : ℕ) (q : MerkleProof), leaves[j]? = some proof.leafHash ∧ tree.getProof j = some q ∧
        q.siblings = proof.siblings := by
  obtain ⟨hleaves, rfl⟩ := MerkleTree.build_eq_ok.mp hbuild
  obtain ⟨t, ht, hroot⟩ := exists_top_of_getRoot hroot
  obtain ⟨j, hj, hpath⟩ := exists_index_of_verifyProof hleaves ht hroot hcf hverify
  have hproof := MerkleTree.getProof_eq (r := nodeOf t) hj
  rw [buildTree_eq, ht]
  exact ⟨List.mem_of_getElem? hj, j, _, hj, hproof, hpath.symm⟩

/-! ## Trees of a few leaves -/

theorem buildMessages_pair (a b : String) : buildMessages [a, b] =
    {m | m ∈ [hashInput (.leaf a), hashInput (.leaf b),
      hashInput (.node (hashLeaf a) (hashLeaf b))]} := by
  ext m
  constructor
  · rintro ⟨t, ht, i, hi, rfl⟩
    simp only [List.map_cons, List.map_nil, top, pairUp, Option.some.injEq] at ht
    subst ht
    rcases hi with rfl | rfl | rfl
    · exact .tail _ (.tail _ (.head _))
    · exact .head _
    · exact .tail _ (.head _)
  · intro hm
    refine ⟨.node (.leaf a) (.leaf b), by simp [top, pairUp], ?_⟩
    rcases hm with _ | ⟨_, _ | ⟨_, _ | ⟨_, hm⟩⟩⟩
    · exact ⟨_, .inr (.inl rfl), rfl⟩
    · exact ⟨_, .inr (.inr rfl), rfl⟩
    · exact ⟨_, .inl rfl, rfl⟩
    · cases hm

/-- A proof of one step hashes the leaf and the pair. -/
theorem proofMessages_singleton (a : String) (leafIndex : Number) (s : MerkleProofStep)
    (root : String) : proofMessages ⟨a, leafIndex, [s], root⟩ =
      {hashInput (.leaf a), hashInput (stepInput (hashLeaf a) s)} := by
  ext m
  constructor
  · rintro ⟨i, rfl | ⟨pre, t, post, hs, rfl⟩, rfl⟩
    · exact .inl rfl
    · obtain ⟨rfl, rfl⟩ : pre = [] ∧ t = s := by cases pre <;> simp_all
      exact .inr rfl
  · rintro (rfl | rfl)
    · exact ⟨_, .inl rfl, rfl⟩
    · exact ⟨_, .inr ⟨[], s, [], rfl, rfl⟩, rfl⟩

/-- A proof with the other leaf as its sibling hashes nothing that the tree did not. -/
theorem proofMessages_pair (a b : String) (leafIndex : Number) (root : String) :
    proofMessages ⟨a, leafIndex, [⟨hashLeaf b, .right⟩], root⟩ ⊆ buildMessages [a, b] ∧
      proofMessages ⟨b, leafIndex, [⟨hashLeaf a, .left⟩], root⟩ ⊆ buildMessages [a, b] := by
  rw [buildMessages_pair, proofMessages_singleton, proofMessages_singleton]
  constructor
  · rintro m (rfl | rfl)
    · exact .head _
    · exact .tail _ (.tail _ (.head _))
  · rintro m (rfl | rfl)
    · exact .tail _ (.head _)
    · exact .tail _ (.tail _ (.head _))

def zeros : String := String.ofList (List.replicate 64 '0')

def ones : String := String.ofList (List.replicate 64 '1')

theorem isSha256Hex_zeros : isSha256Hex zeros = true := by
  decide +kernel

theorem isSha256Hex_ones : isSha256Hex ones = true := by
  decide +kernel

theorem build_zeros_ones :
    MerkleTree.build [zeros, ones] = .ok ⟨buildTree [zeros, ones], [zeros, ones]⟩ :=
  MerkleTree.build_eq_ok.mpr ⟨by simp [isSha256Hex_zeros, isSha256Hex_ones], rfl⟩

theorem getRoot_pair (a b : String) : MerkleTree.getRoot ⟨buildTree [a, b], [a, b]⟩ =
    some (hashPair (hashLeaf a) (hashLeaf b)) := by
  simp [MerkleTree.getRoot, buildTree, top, pairUp, MerkleNode.parent, MerkleNode.hash]

theorem collisionFree_zeros_ones : CollisionFree (buildMessages [zeros, ones]) := by
  rw [buildMessages_pair]
  apply collisionFree_of_head
  simp only [hashInput, hashLeaf, hexDecode_hexEncode, sha256_eq_words]
  decide +kernel

theorem verifyProof_zeros (leafIndex : Number) :
    MerkleTree.verifyProof ⟨zeros, leafIndex, [⟨hashLeaf ones, .right⟩],
      hashPair (hashLeaf zeros) (hashLeaf ones)⟩ = .ok true := by
  refine MerkleTree.verifyProof_eq_ok_true.mpr
    ⟨isSha256Hex_zeros, isSha256Hex_hexEncode_sha256 _, fun s hs => ?_, rfl⟩
  rw [List.mem_singleton.mp hs]
  exact isSha256Hex_hexEncode_sha256 _

/-- Two distinct leaves, and the proof of the first one. -/
theorem verifyProof_sound_two_leaves :
    let a := String.ofList (List.replicate 64 '0')
    let b := String.ofList (List.replicate 64 '1')
    let tree : MerkleTree := ⟨buildTree [a, b], [a, b]⟩
    a ∈ [a, b] ∧ ∃ (j : ℕ) (q : MerkleProof), [a, b][j]? = some a ∧
      tree.getProof j = some q ∧ q.siblings = [⟨hashLeaf b, .right⟩] := by
  change zeros ∈ [zeros, ones] ∧ ∃ (j : ℕ) (q : MerkleProof), [zeros, ones][j]? = some zeros ∧
    MerkleTree.getProof ⟨buildTree [zeros, ones], [zeros, ones]⟩ j = some q ∧
      q.siblings = [⟨hashLeaf ones, .right⟩]
  let proof : MerkleProof :=
    ⟨zeros, .ofInt 0, [⟨hashLeaf ones, .right⟩], hashPair (hashLeaf zeros) (hashLeaf ones)⟩
  have hcf : CollisionFree (buildMessages [zeros, ones] ∪ proofMessages proof) :=
    collisionFree_zeros_ones.mono (Set.union_subset subset_rfl (proofMessages_pair _ _ _ _).1)
  exact verifyProof_sound [zeros, ones] _ proof build_zeros_ones (getRoot_pair zeros ones) hcf
    (verifyProof_zeros _)

end Attestia.Proof
