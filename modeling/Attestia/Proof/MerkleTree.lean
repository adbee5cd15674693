import Attestia.Lib.Except
import Attestia.Lib.HashTree
import Attestia.Lib.JsonNumber
import Attestia.Lib.Sha256

/-!
# Merkle trees of the proof package

`merkle-tree.ts`: leaves and inner nodes are hashed with distinct one-byte tags, an
unpaired last node is promoted, and an inclusion proof carries the sibling digests from
the leaf up. Hashes are hexadecimal strings, as in the source.
-/

namespace Attestia.Proof
open Lib Lib.HashTree Lib.JsonNumber

/-- `LEAF_TAG`. -/
def leafTag : UInt8 := 0x00

/-- `NODE_TAG`. -/
def nodeTag : UInt8 := 0x01

/-- `SHA256_HEX_RE`: 64 lower-case hexadecimal characters. -/
def isSha256Hex (hash : String) : Bool := hash.toList.length == 64 && hash.toList.all isLowerHex

structure Error where
  message : String
  deriving DecidableEq, Repr

def assertValidSha256Hex (hash context : String) : Except Error Unit :=
  if isSha256Hex hash then .ok ()
  else
    let shown := if hash.length > 80 then String.ofList (hash.toList.take 80) ++ "…" else hash
    .error ⟨"Invalid SHA-256 hex hash (" ++ context ++
      "): expected 64 lowercase hex chars, got \"" ++ shown ++ "\""⟩

def hashLeaf (leaf : String) : String := hexEncode (sha256 (leafTag :: hexDecode leaf))

def hashPair (left right : String) : String :=
  hexEncode (sha256 (nodeTag :: (hexDecode left ++ hexDecode right)))

abbrev SiblingDirection := Side

abbrev MerkleProofStep := Step String

structure MerkleProof where
  leafHash : String
  leafIndex : Number
  siblings : List MerkleProofStep
  root : String
  deriving DecidableEq

/-- Leaf nodes have no children, internal nodes have exactly two. -/
inductive MerkleNode where
  | leaf (hash : String)
  | node (hash : String) (left right : MerkleNode)
  deriving DecidableEq, Repr

def MerkleNode.hash : MerkleNode → String
  | leaf hash => hash
  | node hash _ _ => hash

def MerkleNode.parent (left right : MerkleNode) : MerkleNode :=
  .node (hashPair left.hash right.hash) left right

/-- `buildTree`: the loop over levels is `top`, its body `pairUp`, which promotes the last
node of an odd level. -/
def buildTree (leaves : List String) : Option MerkleNode :=
  top MerkleNode.parent (leaves.map fun hash => .leaf (hashLeaf hash))

structure MerkleTree where
  root : Option MerkleNode
  leaves : List String
  deriving DecidableEq, Repr

namespace MerkleTree

def build (leaves : List String) : Except Error MerkleTree := do
  forM leaves.zipIdx fun p => assertValidSha256Hex p.1 s!"leaf[{p.2}]"
  return ⟨buildTree leaves, leaves⟩

def getRoot (tree : MerkleTree) : Option String := tree.root.map MerkleNode.hash

/-- The loop of `getProof` over the levels of digests. -/
def collectSiblings : List String → ℕ → List MerkleProofStep → List MerkleProofStep
  | x :: y :: rest, currentIndex, siblings =>
    let currentLevel := x :: y :: rest
    let isLeft := currentIndex % 2 == 0
    let siblingIndex := if isLeft then currentIndex + 1 else currentIndex - 1
    -- a node at the end of an odd level has no sibling: no step for this level
    let siblings := match currentLevel[siblingIndex]? with
      | some hash => siblings ++ [⟨hash, if isLeft then .right else .left⟩]
      | none => siblings
    collectSiblings (pairUp hashPair currentLevel) (currentIndex / 2) siblings
  | _, _, siblings => siblings
  termination_by currentLevel => currentLevel.length
  decreasing_by exact pairUp_length_lt hashPair x y rest

def getProof (tree : MerkleTree) (leafIndex : ℤ) : Option MerkleProof :=
  match tree.root with
  | none => none
  | some root =>
    if leafIndex < 0 then none
    else match tree.leaves[leafIndex.toNat]? with
      | none => none
      | some leafHash =>
        if tree.leaves.length = 1 then some ⟨leafHash, .ofInt leafIndex, [], root.hash⟩
        else
          let siblings := collectSiblings (tree.leaves.map hashLeaf) leafIndex.toNat []
          some ⟨leafHash, .ofInt leafIndex, siblings, root.hash⟩

def verifyProof (proof : MerkleProof) : Except Error Bool := do
  assertValidSha256Hex proof.leafHash "proof.leafHash"
  assertValidSha256Hex proof.root "proof.root"
  forM proof.siblings.zipIdx fun p => assertValidSha256Hex p.1.hash s!"proof.siblings[{p.2}]"
  let currentHash := proof.siblings.foldl (fun currentHash step =>
    match step.direction with
    | .left => hashPair step.hash currentHash
    | .right => hashPair currentHash step.hash) (hashLeaf proof.leafHash)
  return currentHash == proof.root

end MerkleTree

/-! ## Digests -/

@[simp] theorem isSha256Hex_hexEncode_sha256 (m : Bytes) :
    isSha256Hex (hexEncode (sha256 m)) = true := by
  simp only [isSha256Hex, hexEncode_length, sha256_length, Bool.and_eq_true, List.all_eq_true]
  exact ⟨rfl, fun c hc => isLowerHex_of_mem_hexEncode hc⟩

theorem hexDecode_length {s : String} (hs : isSha256Hex s = true) : (hexDecode s).length = 32 := by
  simp only [isSha256Hex, Bool.and_eq_true, beq_iff_eq, List.all_eq_true] at hs
  exact hexDecodeChars_length hs.2 hs.1

theorem eq_of_hexDecode_eq {s t : String} (hs : isSha256Hex s = true) (ht : isSha256Hex t = true)
    (h : hexDecode s = hexDecode t) : s = t := by
  simp only [isSha256Hex, Bool.and_eq_true, beq_iff_eq, List.all_eq_true] at hs ht
  apply String.toList_injective
  have h1 := hexByte_hexDecodeChars (n := 32) hs.2 hs.1
  have h2 := hexByte_hexDecodeChars (n := 32) ht.2 ht.1
  rw [← h1, ← h2]
  exact congrArg (List.flatMap hexByte) h

theorem assertValidSha256Hex_eq_ok (hash context : String) :
    assertValidSha256Hex hash context = .ok () ↔ isSha256Hex hash = true := by
  unfold assertValidSha256Hex
  split <;> simp_all

/-- A loop of checks passes exactly when every check does. -/
theorem forM_assert_eq_ok {β : Type} (l : List β) (hash context : β → String) :
    (forM l fun b => assertValidSha256Hex (hash b) (context b)) = .ok () ↔
      ∀ b ∈ l, isSha256Hex (hash b) = true := by
  rw [forM_eq_ok]
  exact forall₂_congr fun b _ => assertValidSha256Hex_eq_ok _ (context b)

theorem forall_mem_zipIdx {β : Type*} {l : List β} {P : β → Prop} :
    (∀ p ∈ l.zipIdx, P p.1) ↔ ∀ b ∈ l, P b := by
  constructor
  · intro h b hb
    obtain ⟨i, hi, rfl⟩ := List.getElem_of_mem hb
    exact h (l[i], i) (List.mem_zipIdx_iff_getElem?.mpr (by simp))
  · rintro h ⟨b, i⟩ hp
    exact h b (List.mem_of_getElem? (List.mem_zipIdx_iff_getElem?.mp hp))

/-! ## The tree the source builds -/

/-- The bytes hashed for a leaf or for a pair of children. -/
def hashInput : Input String String → Bytes
  | .leaf a => leafTag :: hexDecode a
  | .node l r => nodeTag :: (hexDecode l ++ hexDecode r)

def treeHash (i : Input String String) : String := hexEncode (sha256 (hashInput i))

/-- The tree of leaf strings behind a node. -/
def nodeOf : LeafTree String → MerkleNode
  | .leaf a => .leaf (hashLeaf a)
  | .node l r => (nodeOf l).parent (nodeOf r)

@[simp] theorem hash_nodeOf (t : LeafTree String) : (nodeOf t).hash = t.root treeHash := by
  induction t with
  | leaf a => rfl
  | node l r ihl ihr =>
    rw [nodeOf, MerkleNode.parent, ihl, ihr]
    rfl

theorem buildTree_eq (leaves : List String) :
    buildTree leaves = (top LeafTree.node (leaves.map LeafTree.leaf)).map nodeOf := by
  rw [buildTree, ← top_map LeafTree.node MerkleNode.parent (fun _ _ => rfl), List.map_map]
  rfl

namespace MerkleTree

theorem build_eq_ok {leaves : List String} {tree : MerkleTree} :
    build leaves = .ok tree ↔
      (∀ a ∈ leaves, isSha256Hex a = true) ∧ tree = ⟨buildTree leaves, leaves⟩ := by
  rw [← forall_mem_zipIdx (P := fun a => isSha256Hex a = true),
    ← forM_assert_eq_ok _ Prod.fst (fun p => s!"leaf[{p.2}]")]
  unfold build
  cases forM leaves.zipIdx fun p => assertValidSha256Hex p.1 s!"leaf[{p.2}]" <;>
    simp [bind, Except.bind, pure, Except.pure, eq_comm]

theorem collectSiblings_eq (level : List String) (i : ℕ) (acc : List MerkleProofStep) :
    collectSiblings level i acc = acc ++ siblingPath hashPair level i := by
  fun_induction collectSiblings level i acc with
  | case1 x y rest i acc level isLeft sib acc' ih =>
    rw [ih, siblingPath, ← List.append_assoc]
    congr 1
    by_cases hi : i % 2 = 0
    · cases hs : (x :: y :: rest)[i + 1]? <;>
        simp [acc', sib, level, isLeft, siblingStep, hi, hs]
    · cases hs : (x :: y :: rest)[i - 1]? <;>
        simp [acc', sib, level, isLeft, siblingStep, hi, hs]
  | case2 level i acc hl =>
    obtain _ | ⟨x, _ | ⟨y, rest⟩⟩ := level
    · simp [siblingPath]
    · simp [siblingPath]
    · exact absurd rfl (hl x y rest)

/-- The proof built for index `j` of a non-empty tree. -/
theorem getProof_eq {leaves : List String} {r : MerkleNode} {a : String} {j : ℕ}
    (hj : leaves[j]? = some a) :
    getProof ⟨some r, leaves⟩ j =
      some ⟨a, .ofInt j, siblingPath hashPair (leaves.map hashLeaf) j, r.hash⟩ := by
  have hneg : ¬ (j : ℤ) < 0 := by omega
  simp only [getProof, hneg, if_false, Int.toNat_natCast, hj, collectSiblings_eq, List.nil_append]
  split
  · next hlen =>
    obtain ⟨b, rfl⟩ := List.length_eq_one_iff.mp hlen
    simp [siblingPath]
  · rfl

theorem verifyProof_eq_ok_true {proof : MerkleProof} :
    verifyProof proof = .ok true ↔
      isSha256Hex proof.leafHash = true ∧ isSha256Hex proof.root = true ∧
      (∀ s ∈ proof.siblings, isSha256Hex s.hash = true) ∧
      fold treeHash (hashLeaf proof.leafHash) proof.siblings = proof.root := by
  have hfold : ∀ cur : String, proof.siblings.foldl (fun currentHash step =>
      match step.direction with
      | .left => hashPair step.hash currentHash
      | .right => hashPair currentHash step.hash) cur = fold treeHash cur proof.siblings := by
    intro cur
    unfold fold
    congr 1
    funext c s
    cases hs : s.direction <;> simp [stepInput, hs, treeHash, hashInput, hashPair]
  rw [← assertValidSha256Hex_eq_ok _ "proof.leafHash",
    ← assertValidSha256Hex_eq_ok _ "proof.root",
    ← forall_mem_zipIdx (P := fun s : MerkleProofStep => isSha256Hex s.hash = true),
    ← forM_assert_eq_ok _ (fun p : MerkleProofStep × ℕ => p.1.hash)
      (fun p => s!"proof.siblings[{p.2}]"), ← hfold]
  unfold verifyProof
  cases assertValidSha256Hex proof.leafHash "proof.leafHash" <;>
    cases assertValidSha256Hex proof.root "proof.root" <;>
    cases forM proof.siblings.zipIdx fun p =>
      assertValidSha256Hex p.1.hash s!"proof.siblings[{p.2}]" <;>
    simp [bind, Except.bind, pure, Except.pure]

end MerkleTree

end Attestia.Proof
