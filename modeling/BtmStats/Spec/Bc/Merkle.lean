import Mathlib.Data.Nat.Bitwise
import BtmStats.Lib.CallTree
import BtmStats.Spec.Bc.Entry
import BtmStats.Spec.Runtime

/-!
# `BtmStats.Spec.Bc.Merkle`: Merkle roots

The model of `protocol/bc/merkle.go` and of `TxVerifyResult.WriteTo`. The hash is
a parameter `sha3`, which stands for reading 32 bytes from the pooled SHA3-256
state after the writes.

`merkleRoot` returns its error result from the recursive calls only, and both base
cases return nil, so the model returns the root alone. `math.Log2` of a length is
the exact integer part of the logarithm: the lengths of Go slices are far below
`2 ^ 48`, where the rounding of `float64` could be seen.
-/

set_option autoImplicit false

namespace BtmStats.Spec.Bc

open Lib

/-- The greatest power of two that is smaller than the number. -/
def prevPowerOfTwo (n : Nat) : Nat :=
  if n &&& (n - 1) = 0 then n / 2 else 1 <<< Nat.log2 n

/-- `prevPowerOfTwo n` splits a list of `n ≥ 2` elements into two non-empty
parts. The second case has no power of two, so the power below `n` is strictly
below. -/
theorem prevPowerOfTwo_bounds {n : Nat} (h : 2 ≤ n) :
    0 < prevPowerOfTwo n ∧ prevPowerOfTwo n < n := by
  unfold prevPowerOfTwo
  split
  · omega
  · rename_i hne
    rw [Nat.one_shiftLeft]
    refine ⟨Nat.two_pow_pos _, ?_⟩
    have hle : 2 ^ Nat.log2 n ≤ n := Nat.log2_self_le (by omega)
    refine Nat.lt_of_le_of_ne hle fun heq => hne ?_
    rw [← heq, Nat.and_two_pow_sub_one_eq_mod, Nat.mod_self]

/-- `merkleNode`: an interface value is its `WriteTo` method, that is, the bytes
that this method writes. -/
structure MerkleNode where
  writeTo : List UInt8
  deriving DecidableEq, Repr

/-- The bytes in front of what is hashed for a leaf and for an interior node. -/
def leafPrefix : List UInt8 := [0x00]

def interiorPrefix : List UInt8 := [0x01]

section
variable (sha3 : List UInt8 → FixedBytes 32)

/-- `EmptyStringHash`, the root of the empty list. -/
def emptyStringHash : Hash := newHash (sha3 [])

/-- `merkleRoot`: the left part has the greatest power of two of nodes below all. -/
def merkleRoot : List MerkleNode → Hash
  | [] => emptyStringHash sha3
  | [node] => newHash (sha3 (leafPrefix ++ node.writeTo))
  | a :: b :: rest =>
    let nodes := a :: b :: rest
    let k := prevPowerOfTwo nodes.length
    let left := merkleRoot (nodes.take k)
    let right := merkleRoot (nodes.drop k)
    newHash (sha3 (interiorPrefix ++ left.bytes ++ right.bytes))
termination_by nodes => nodes.length
decreasing_by
  all_goals
    have hk := prevPowerOfTwo_bounds (n := (a :: b :: rest).length) (by simp)
    simp only [List.length_take, List.length_drop, List.length_cons] at hk ⊢
    omega

/-- The result of the verification of a transaction. -/
structure TxVerifyResult where
  statusFail : Bool
  deriving DecidableEq, Repr

/-- `json.Marshal` of a `TxVerifyResult`. The field has the `omitempty` option, so
a false value is left out. -/
def TxVerifyResult.marshalJSON (tvr : TxVerifyResult) : List UInt8 :=
  (if tvr.statusFail then "\x7b\"status_fail\":true\x7d" else "\x7b\x7d").toUTF8.data.toList

def TxVerifyResult.writeTo (tvr : TxVerifyResult) : List UInt8 := tvr.marshalJSON

/-- `TxStatusMerkleRoot` -/
def txStatusMerkleRoot (tvrs : List TxVerifyResult) : Hash :=
  merkleRoot sha3 (tvrs.map fun tvr => ⟨tvr.writeTo⟩)

/-- `TxMerkleRoot`: the root over the IDs of the transactions. -/
def txMerkleRoot (transactions : List Tx) : Hash :=
  merkleRoot sha3 (transactions.map fun tx => ⟨tx.id.bytes⟩)

end

/-! ### The results of transactions

The model of `NewTransactionStatus` and `SetStatus` in `protocol/bc/tx_status.go`. What is in
`VerifyStatus` was put there by `SetStatus` or by `proto.Unmarshal`, so it is not nil.
-/

open Spec

/-- The results of the transactions of a block. -/
structure TransactionStatus where
  version : UInt64
  verifyStatus : List TxVerifyResult
  deriving DecidableEq, Repr

def transactionStatusVersion : UInt64 := 1

def newTransactionStatus : TransactionStatus := ⟨transactionStatusVersion, []⟩

/-- `SetStatus`: the status after the call, and the error. -/
def TransactionStatus.setStatus (ts : TransactionStatus) (i : Int) (gasOnly : Bool) :
    Except Panic (TransactionStatus × Option Err) :=
  if i > ts.verifyStatus.length then
    .ok (ts, some (RootErr.errorf "setStatus should be set one by one").err)
  else if i = ts.verifyStatus.length then
    .ok ({ ts with verifyStatus := ts.verifyStatus ++ [⟨gasOnly⟩] }, none)
  else if i < 0 then .error .indexOutOfRange
  else .ok ({ ts with verifyStatus := ts.verifyStatus.set i.toNat ⟨gasOnly⟩ }, none)

end BtmStats.Spec.Bc

/-! ### The calls of the recursion

`prevPowerOfTwo` of `protocol/bc/merkle.go` on `int`, and `merkleRoot` with the calls that it
makes. Nothing here says that the recursion ends: a call needs a frame of the stack, and
`merkleRoot` is given the number of frames. It also slices as the code does, so a split
position outside the list is a panic. (A slice with spare capacity could be extended by
`nodes[:k]` instead. The split position is never behind the end.)

The exponent comes from a logarithm of `float64`. `log2` is the parameter for
`uint(math.Log2(float64(n)))`, and `Log2Exact` says that it is the integer part of the
logarithm for the numbers below `2 ^ 48`.

The functions above are the same ones on natural numbers, with the exact logarithm. As there, a call
returns the root alone, because no call makes an error of its own.
-/

namespace BtmStats.Spec.Bc.MerkleCalls

open Lib Spec

/-- `x << s` on `int`. A count of 64 or more gives 0. -/
def shiftLeft (x : Int64) (s : UInt64) : Int64 := if s < 64 then x <<< s.toInt64 else 0

/-- `nodes[:k]` -/
def sliceTo {α : Type} (nodes : List α) (k : Int64) : Except Panic (List α) :=
  if 0 ≤ k.toInt ∧ k.toInt ≤ nodes.length then .ok (nodes.take k.toInt.toNat)
  else .error .sliceBounds

/-- `nodes[k:]` -/
def sliceFrom {α : Type} (nodes : List α) (k : Int64) : Except Panic (List α) :=
  if 0 ≤ k.toInt ∧ k.toInt ≤ nodes.length then .ok (nodes.drop k.toInt.toNat)
  else .error .sliceBounds

variable (log2 : Int64 → UInt64)

/-- The logarithm is exact below `2 ^ 48`. -/
def Log2Exact : Prop :=
  ∀ n : Int64, 0 < n.toInt → n.toInt < 2 ^ 48 → (log2 n).toNat = Nat.log2 n.toInt.toNat

def prevPowerOfTwo (n : Int64) : Int64 :=
  if n &&& (n - 1) = 0 then n / 2
  else
    let exponent := log2 n
    shiftLeft 1 exponent

/-- `merkleRoot` with a stack of so many frames: the root, and the calls. -/
def merkleRoot (sha3 : List UInt8 → FixedBytes 32) :
    Nat → List MerkleNode → Except Panic (Hash × CallTree MerkleNode)
  | 0, _ => .error .stackOverflow
  | _ + 1, [] => .ok (emptyStringHash sha3, .leaf [])
  | _ + 1, [node] => .ok (newHash (sha3 (leafPrefix ++ node.writeTo)), .leaf [node])
  | frames + 1, nodes => do
      let k := prevPowerOfTwo log2 (Int64.ofNat nodes.length)
      let leftNodes ← sliceTo nodes k
      let (left, leftCalls) ← merkleRoot sha3 frames leftNodes
      let rightNodes ← sliceFrom nodes k
      let (right, rightCalls) ← merkleRoot sha3 frames rightNodes
      .ok (newHash (sha3 (interiorPrefix ++ left.bytes ++ right.bytes)),
        .node nodes leftCalls rightCalls)

end BtmStats.Spec.Bc.MerkleCalls
