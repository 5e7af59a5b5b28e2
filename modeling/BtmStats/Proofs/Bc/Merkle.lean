import BtmStats.Lib.HashTree
import BtmStats.Proofs.Bc.Hash
import BtmStats.Spec.Bc.Merkle

/-!
# `BtmStats.Proofs.Bc.Merkle`: the Merkle root binds the list

`merkleRoot` is a hash tree of `Lib.HashTree`: `merkleTree` names its encodings,
`merkleRoot_eq_root` connects the two. The leaf prefix `0x00` and the interior
prefix `0x01` keep the three kinds of inputs apart, so `HashTree.root_injective`
applies, and lists of any two lengths with the same root are equal.

The hash is a parameter. The binding theorem asks that it has no collision among
the byte strings that the two computations hash (`hashedBy`).
-/

set_option autoImplicit false

namespace BtmStats.Proofs.Bc

open Lib Spec.Bc

variable (sha3 : List UInt8 → FixedBytes 32)

/-- The split position of the Merkle tree. -/
def merkleSplit : SplitRule where
  split := prevPowerOfTwo
  split_pos _ h := (prevPowerOfTwo_bounds h).1
  split_lt _ h := (prevPowerOfTwo_bounds h).2

/-- Two interior inputs are equal only when both digests are: each digest is 32
bytes long. -/
theorem interior_inj {l r l' r' : Hash}
    (h : interiorPrefix ++ l.bytes ++ r.bytes = interiorPrefix ++ l'.bytes ++ r'.bytes) :
    l = l' ∧ r = r' := by
  rw [List.append_assoc, List.append_assoc] at h
  obtain ⟨hl, hr⟩ := List.append_inj (List.append_cancel_left h) (by simp)
  exact ⟨bytes_inj hl, bytes_inj hr⟩

/-- The encodings of the Merkle tree. -/
def merkleTree : HashTree MerkleNode (List UInt8) Hash where
  hash b := newHash (sha3 b)
  empty := []
  leaf node := leafPrefix ++ node.writeTo
  node l r := interiorPrefix ++ l.bytes ++ r.bytes
  leaf_inj a b h := by
    cases a
    cases b
    exact congrArg MerkleNode.mk (List.append_cancel_left h)
  node_inj _ _ _ _ h := interior_inj h
  leaf_ne_empty a := by simp [leafPrefix]
  node_ne_empty l r := by simp [interiorPrefix]
  leaf_ne_node a l r := by simp [leafPrefix, interiorPrefix]

/-- The code's recursion is the hash tree's recursion. Induction along it: both split at the
same place. -/
theorem merkleRoot_eq_root (nodes : List MerkleNode) :
    merkleRoot sha3 nodes = (merkleTree sha3).root merkleSplit nodes := by
  induction nodes using merkleRoot.induct sha3 with
  | case1 =>
    rw [merkleRoot, HashTree.root]
    rfl
  | case2 node =>
    rw [merkleRoot, HashTree.root]
    rfl
  | case3 a b rest nodes k ihl ihr =>
    rw [merkleRoot, HashTree.root, ihl, ihr]
    rfl

/-- The byte strings that `merkleRoot` hashes. -/
def hashedBy (nodes : List MerkleNode) : List (List UInt8) :=
  (merkleTree sha3).preimages merkleSplit nodes

/-- `sha3` has no collision among the byte strings that the roots of `xs` and `ys`
hash. -/
def NoCollision (xs ys : List MerkleNode) : Prop :=
  Set.InjOn sha3 {b | b ∈ hashedBy sha3 xs ∨ b ∈ hashedBy sha3 ys}

/-- Lists of nodes with the same root are equal. -/
theorem merkleRoot_inj {xs ys : List MerkleNode} (hinj : NoCollision sha3 xs ys)
    (h : merkleRoot sha3 xs = merkleRoot sha3 ys) : xs = ys := by
  rw [merkleRoot_eq_root sha3 xs, merkleRoot_eq_root sha3 ys] at h
  -- `NewHash` loses nothing, so the collisions of the tree's hash are those of `sha3`.
  refine HashTree.root_injective (merkleTree sha3) merkleSplit xs ys ?_ h
  intro b hb c hc hbc
  exact hinj hb hc (newHash_inj hbc)

/-- The two JSON texts of a `TxVerifyResult` differ. -/
theorem marshalJSON_inj {a b : TxVerifyResult} (h : a.marshalJSON = b.marshalJSON) : a = b := by
  cases a with
  | mk x =>
    cases b with
    | mk y =>
      cases x <;> cases y
      · rfl
      · exact absurd h (by decide)
      · exact absurd h (by decide)
      · rfl

/-- The nodes that `TxMerkleRoot` builds. -/
def txNodes (txs : List Tx) : List MerkleNode := txs.map fun tx => ⟨tx.id.bytes⟩

/-- The nodes that `TxStatusMerkleRoot` builds. -/
def txStatusNodes (tvrs : List TxVerifyResult) : List MerkleNode :=
  tvrs.map fun tvr => ⟨tvr.writeTo⟩

/-- The nodes have the IDs as their bytes, so they determine the IDs. -/
private theorem txNodes_inj {xs ys : List Tx} (h : txNodes xs = txNodes ys) :
    xs.map Tx.id = ys.map Tx.id := by
  have hmap : (xs.map Tx.id).map (fun i : Hash => (⟨i.bytes⟩ : MerkleNode))
      = (ys.map Tx.id).map (fun i : Hash => (⟨i.bytes⟩ : MerkleNode)) := by
    simpa [txNodes, List.map_map, Function.comp_def] using h
  refine List.map_injective_iff.mpr ?_ hmap
  intro a b hab
  exact bytes_inj (MerkleNode.mk.inj hab)

/-- The Merkle root binds the whole list: two lists of transactions of any lengths
with the same root have the same IDs, and two lists of verify results with the
same root are equal. -/
theorem merkleRoots_bind :
    (∀ xs ys : List Tx, NoCollision sha3 (txNodes xs) (txNodes ys) →
      txMerkleRoot sha3 xs = txMerkleRoot sha3 ys → xs.map Tx.id = ys.map Tx.id) ∧
    (∀ xs ys : List TxVerifyResult, NoCollision sha3 (txStatusNodes xs) (txStatusNodes ys) →
      txStatusMerkleRoot sha3 xs = txStatusMerkleRoot sha3 ys → xs = ys) := by
  constructor
  · intro xs ys hinj h
    exact txNodes_inj (merkleRoot_inj sha3 hinj h)
  · intro xs ys hinj h
    have hnodes : txStatusNodes xs = txStatusNodes ys := merkleRoot_inj sha3 hinj h
    refine List.map_injective_iff.mpr ?_ hnodes
    intro a b hab
    exact marshalJSON_inj (MerkleNode.mk.inj hab)

/-- The byte strings hashed for two nodes: the interior input and the two leaves. -/
theorem hashedBy_pair (a b : MerkleNode) :
    hashedBy sha3 [a, b]
      = [interiorPrefix ++ (merkleRoot sha3 [a]).bytes ++ (merkleRoot sha3 [b]).bytes,
          leafPrefix ++ a.writeTo, leafPrefix ++ b.writeTo] := by
  have hone : ∀ node : MerkleNode, (merkleTree sha3).root merkleSplit [node]
      = merkleRoot sha3 [node] := fun node =>
    (merkleRoot_eq_root sha3 [node]).symm
  have hsplit : merkleSplit.split [a, b].length = 1 := by
    simp [merkleSplit, prevPowerOfTwo]
  rw [hashedBy, HashTree.preimages, hsplit]
  show _ :: (HashTree.preimages _ _ [a] ++ HashTree.preimages _ _ [b]) = _
  rw [HashTree.preimages, HashTree.preimages, ← hone a, ← hone b]
  rfl

/-- A stand-in for the hash at the inputs below: the length and the last byte. They
tell the byte strings that are hashed there apart. -/
def lengthAndLast (b : List UInt8) : FixedBytes 32 :=
  ⟨List.replicate 30 0 ++ [UInt8.ofNat b.length, b.getLastD 0], by simp⟩

/-- Two nodes have no collision under `lengthAndLast` when their leaves differ in
length or last byte and neither has the length of an interior input. -/
theorem noCollision_pair (a b : MerkleNode)
    (hab : lengthAndLast (leafPrefix ++ a.writeTo) ≠ lengthAndLast (leafPrefix ++ b.writeTo))
    (ha : UInt8.ofNat (leafPrefix ++ a.writeTo).length ≠ 65)
    (hb : UInt8.ofNat (leafPrefix ++ b.writeTo).length ≠ 65) :
    NoCollision lengthAndLast [a, b] [a, b] := by
  have hint : ∀ (l r : Hash) (leaf : List UInt8), UInt8.ofNat leaf.length ≠ 65 →
      lengthAndLast (interiorPrefix ++ l.bytes ++ r.bytes) ≠ lengthAndLast leaf := by
    intro l r leaf hne heq
    -- Byte 30 is the length, and an interior input is 1 + 32 + 32 bytes long.
    have hbyte := congrArg (fun b : FixedBytes 32 => b.1[30]?) heq
    simp [lengthAndLast, interiorPrefix] at hbyte
    exact hne hbyte.symm
  intro p hp q hq hpq
  simp only [hashedBy_pair, or_self, Set.mem_ofPred_eq, List.mem_cons, List.not_mem_nil,
    or_false] at hp hq
  rcases hp with rfl | rfl | rfl <;> rcases hq with rfl | rfl | rfl
  · rfl
  · exact absurd hpq (hint _ _ _ ha)
  · exact absurd hpq (hint _ _ _ hb)
  · exact absurd hpq.symm (hint _ _ _ ha)
  · rfl
  · exact absurd hpq hab
  · exact absurd hpq.symm (hint _ _ _ hb)
  · exact absurd hpq.symm hab
  · rfl

/-- Two transactions with the IDs `5` and `7` and headers of the given version. -/
def twoTxs (version : UInt64) : List Tx :=
  [⟨⟨version, 0, 0, []⟩, ⟨0, 0, 0, 5⟩, .empty, [], [], []⟩,
    ⟨⟨version, 0, 0, []⟩, ⟨0, 0, 0, 7⟩, .empty, [], [], []⟩]

/-- Two verify results. -/
def twoResults : List TxVerifyResult := [⟨true⟩, ⟨false⟩]

/-- `merkleRoots_bind` at two transactions and at two verify results. -/
theorem merkleRoots_bind_pair :
    (twoTxs 1).map Tx.id = (twoTxs 2).map Tx.id ∧ twoResults = twoResults :=
  ⟨(merkleRoots_bind lengthAndLast).1 (twoTxs 1) (twoTxs 2)
      (noCollision_pair _ _ (by decide) (by decide) (by decide)) rfl,
    (merkleRoots_bind lengthAndLast).2 twoResults twoResults
      (noCollision_pair _ _ (by decide) (by decide) (by decide)) rfl⟩

end BtmStats.Proofs.Bc
