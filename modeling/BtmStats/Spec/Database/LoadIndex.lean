import BtmStats.Spec.Protocol.Chain

/-!
# `BtmStats.Spec.Database.LoadIndex`: the block index from the database

The model of `LoadBlockIndex` in `database/leveldb/store.go` and of `BlockIndex.GetNode` in
`protocol/state/blockindex.go`. The iterator gives the values under the header prefix in the
order of their keys. Nodes are places in a heap, and the index maps hashes to places, as in
`Spec.Protocol.Chain`.

`BlockHeader.UnmarshalText`, `NewBlockIndex`, `NewBlockNode` and `AddNode` are not in the
repository. They are the parameters `IndexApi`, and `IndexApi.Documented` says what is
relied on.
-/

set_option autoImplicit false

namespace BtmStats.Spec.Database

open Lib Spec
open Spec.Bc (Hash)
open Spec.Protocol (BlockNode NodeRef)
open Spec.Types (BlockHeader)

/-- The map of a `BlockIndex`. -/
abbrev NodeMap := AList fun _ : Hash => NodeRef

/-- The code that `LoadBlockIndex` calls and that is not in the repository. -/
structure IndexApi where
  /-- `BlockHeader.UnmarshalText` into a fresh header -/
  unmarshalText : Str → Except Err BlockHeader
  newBlockIndex : NodeMap
  /-- `NewBlockNode`, given the parent as a pointer and what it points to -/
  newBlockNode : BlockHeader → Option (NodeRef × BlockNode) → Except Err BlockNode
  addNode : NodeMap → BlockNode → NodeRef → NodeMap

/-- The variables of the loop. -/
structure LoadState where
  blockIndex : Arena BlockNode Hash
  lastNode : Option (NodeRef × BlockNode)

/-- `BlockIndex.GetNode` -/
def getNode (blockIndex : Arena BlockNode Hash) (hash : Hash) : Option (NodeRef × BlockNode) := do
  let ref ← blockIndex.index.lookup hash
  let node ← blockIndex.heap[ref]?
  some (ref, node)

/-- The parent that one iteration takes: the last node if there is none yet or if it is the
parent, and the node from the index otherwise. -/
def LoadState.parentOf (st : LoadState) (bh : BlockHeader) : Option (NodeRef × BlockNode) :=
  match st.lastNode with
  | none => none
  | some lastNode =>
    if lastNode.2.hash = bh.previousBlockHash then some lastNode
    else getNode st.blockIndex bh.previousBlockHash

namespace IndexApi

variable (api : IndexApi)

/-- One iteration of `LoadBlockIndex`. -/
def loadNext (st : LoadState) (value : Str) : Except Err LoadState := do
  let bh ← api.unmarshalText value
  let node ← api.newBlockNode bh (st.parentOf bh)
  let ref := st.blockIndex.next
  .ok ⟨⟨st.blockIndex.heap ++ [node], api.addNode st.blockIndex.index node ref⟩, some (ref, node)⟩

/-- `LoadBlockIndex` over the values of the header keys, in order. -/
def loadBlockIndex (values : List Str) : Except Err (Arena BlockNode Hash) := do
  let st ← values.foldlM api.loadNext ⟨⟨[], api.newBlockIndex⟩, none⟩
  .ok st.blockIndex

/-- What `LoadBlockIndex` relies on. `hash` is `BlockHeader.Hash`. -/
structure Documented (hash : BlockHeader → Hash) (genesis : BlockHeader) : Prop where
  newBlockIndex_eq : api.newBlockIndex = ∅
  /-- A node can be made for a header with a parent, and for the genesis header. It stores
  the parent. -/
  newBlockNode_ok : ∀ bh parent, bh = genesis ∨ parent.isSome →
    ∃ node, api.newBlockNode bh parent = .ok node ∧ node.parent = parent.map Prod.fst ∧
      node.hash = hash bh
  addNode_eq : ∀ index node ref, api.addNode index node ref = index.insert node.hash ref

end IndexApi

end BtmStats.Spec.Database
