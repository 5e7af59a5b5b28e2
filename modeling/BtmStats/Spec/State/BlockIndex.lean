import Mathlib.Algebra.Group.Nat.Defs
import BtmStats.Lib.Slice
import BtmStats.Spec.Runtime

/-!
# `BtmStats.Spec.State.BlockIndex`: the main chain of the block index

The model of `protocol/state/blockindex.go`. Nodes are pointers, so the model
keeps a type `ν` of node identities and a function from identities to the node's
fields. `SetMainChain` compares pointers, never contents, and reads `Height` and
`Parent` only.

`BlockIndex.mainChain` is a slice of node pointers with a backing array: a nil
slot is `none`, and the cells past `len` stay in the array when the slice
shrinks. `Lib.Slice` keeps them.

The heights are `uint64`, so `node.Height + 1` is the wrapping sum.
-/

set_option autoImplicit false

namespace BtmStats.Spec.State

open Lib (Slice)

def approxNodesPerDay : UInt64 := 24 * 24

/-- The fields of a `BlockNode` that the index walks over. -/
structure BlockNode (ν : Type) where
  parent : Option ν
  height : UInt64

/-- A tree of block nodes. The root has height 0 and no parent. Every other node
is one higher than its parent. -/
structure BlockTree (ν : Type) where
  node : ν → BlockNode ν
  height_of_root : ∀ n, (node n).parent = none → (node n).height = 0
  height_of_child : ∀ n p, (node n).parent = some p →
    (node n).height.toNat = (node p).height.toNat + 1
  height_lt : ∀ n, (node n).height.toNat < 2 ^ 63

namespace BlockTree

variable {ν : Type}

def height (t : BlockTree ν) (n : ν) : UInt64 := (t.node n).height

def parent (t : BlockTree ν) (n : ν) : Option ν := (t.node n).parent

/-- The node `k` parents up. -/
def up (t : BlockTree ν) : Nat → ν → Option ν
  | 0, n => some n
  | k + 1, n => (t.parent n).bind (t.up k)

/-- The ancestor of `n` at height `i`: a node is its own ancestor at its own
height. -/
def ancestorAt (t : BlockTree ν) (n : ν) (i : Nat) : Option ν :=
  t.up ((t.height n).toNat - i) n

end BlockTree

/-- The part of `BlockIndex` that `SetMainChain` reads and writes. -/
structure BlockIndex (ν : Type) where
  mainChain : Slice (Option ν)

namespace BlockIndex

variable {ν : Type}

/-- The index before the first call. -/
def empty : BlockIndex ν := ⟨Slice.empty⟩

/-- `for ; i < needed; i++ { bi.mainChain[i] = nil }`, with the number of rounds
left. -/
def clearFrom (s : Slice (Option ν)) (i : Nat) : Nat → Except Panic (Slice (Option ν))
  | 0 => .ok s
  | k + 1 => do
      let s ← orPanic .indexOutOfRange (s.set? i none)
      clearFrom s (i + 1) k

/-- The first half of `SetMainChain`: make the slice `needed` long. A slice
without the capacity is reallocated and copied. A slice with it is re-sliced, and
the cells between the old length and the new one are cleared. -/
def resize (s : Slice (Option ν)) (needed : UInt64) : Except Panic (Slice (Option ν)) :=
  if s.cap < needed.toNat then do
    let nodes ← orPanic .sliceBounds
      (Slice.make? none needed.toNat (needed + approxNodesPerDay).toNat)
    return nodes.copy s
  else do
    let i := s.len
    let s ← orPanic .sliceBounds (s.reslice? needed.toNat)
    clearFrom s i (needed.toNat - i)

variable [DecidableEq ν]

/-- The second half of `SetMainChain`: write the node into its slot and go to the
parent, until the slot already holds the node or there is no parent. -/
def walk (t : BlockTree ν) (s : Slice (Option ν)) (n : ν) : Except Panic (Slice (Option ν)) := do
  let slot ← orPanic .indexOutOfRange (s.get? (t.height n).toNat)
  if slot = some n then
    return s
  else
    let s ← orPanic .indexOutOfRange (s.set? (t.height n).toNat (some n))
    match _h : t.parent n with
    | none => return s
    | some p => walk t s p
termination_by (t.height n).toNat
decreasing_by
  have := t.height_of_child n p _h
  simp only [BlockTree.height]
  omega

/-- `SetMainChain`: resize the slice, and walk up from the node. -/
def setMainChain (t : BlockTree ν) (bi : BlockIndex ν) (n : ν) :
    Except Panic (BlockIndex ν) := do
  let s ← resize bi.mainChain (t.height n + 1)
  let s ← walk t s n
  return ⟨s⟩

/-- A finite sequence of `SetMainChain` calls. -/
def setMainChains (t : BlockTree ν) (bi : BlockIndex ν) (ns : List ν) :
    Except Panic (BlockIndex ν) :=
  ns.foldlM (setMainChain t) bi

end BlockIndex

end BtmStats.Spec.State
