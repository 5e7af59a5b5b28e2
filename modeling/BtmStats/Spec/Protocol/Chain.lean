import BtmStats.Spec.Types.Block

/-!
# `BtmStats.Spec.Protocol.Chain`: how a block enters the chain

The model of `Chain.processBlock` in `protocol/block.go`, over the fields of `Chain`,
`OrphanManage`, `BlockIndex` and `BlockNode` that it reads.

Block nodes are pointers, and `processBlock` compares the parent of a node with the best
node as pointers. So a node is a place in a heap, and the index maps hashes to places
(`Lib.Arena`).

What `processBlock` calls is not in the repository: `BlockExist`, `saveBlock`,
`saveSubBlock`, `connectBlock`, `reorganizeChain`, the methods of `OrphanManage`, and the
`EntryID` behind `Block.Hash`. They are the parameters `ChainApi`, and
`ChainApi.Documented` says what is relied on.
-/

set_option autoImplicit false

namespace BtmStats.Spec.Protocol

open Lib Spec
open Spec.Bc (Hash)
open Spec.Types (Block BlockHeader)

deriving instance DecidableEq for Arena, Bc.Tx, Types.Tx, Block

/-- A `*BlockNode` that is not nil: a place in the heap of nodes. -/
abbrev NodeRef := Nat

/-- The fields of a `BlockNode` that `processBlock` and the index read. -/
structure BlockNode where
  parent : Option NodeRef
  hash : Hash
  workSum : Nat
  height : UInt64
  deriving DecidableEq, Repr

/-- The blocks that wait for a parent. The second map of `OrphanManage`, from a parent to
the orphans that wait for it, is read by code outside the repository only. -/
structure OrphanManage where
  orphan : AList (fun _ : Hash => Block)

/-- The index, the orphans and the best node. -/
structure Chain where
  index : Arena BlockNode Hash
  orphanManage : OrphanManage
  bestNode : Option NodeRef

namespace Chain

/-- `BlockIndex.GetNode` -/
def getNode (c : Chain) (hash : Hash) : Option NodeRef := c.index.index.lookup hash

/-- The node that a pointer points to. -/
def node? (c : Chain) (ref : NodeRef) : Option BlockNode := c.index.heap[ref]?

/-- Read a field of a node: a nil pointer panics. -/
def deref (c : Chain) (ref : Option NodeRef) : Except Panic BlockNode :=
  orPanic .nilDereference (ref >>= c.node?)

end Chain

/-- The code that `processBlock` calls and that is not in the repository. -/
structure ChainApi where
  /-- `BlockHeader.Hash`, which is `EntryID` of the mapped header. -/
  hash : BlockHeader → Hash
  blockExist : Chain → Hash → Bool
  /-- `OrphanManage.BlockExist` -/
  orphanExist : OrphanManage → Hash → Bool
  /-- `OrphanManage.Add` -/
  orphanAdd : OrphanManage → Block → OrphanManage
  saveBlock : Chain → Block → Chain × Option Err
  saveSubBlock : Chain → Block → Chain × Block
  connectBlock : Chain → Block → Chain × Option Err
  reorganizeChain : Chain → Option NodeRef → Chain × Option Err

namespace ChainApi

variable (api : ChainApi)

/-- The second half of `processBlock`: compare the highest block of the batch that was
saved with the best node. -/
def updateBest (c : Chain) (bestBlock : Block) : Except Panic (Chain × Bool × Option Err) := do
  let bestRef := c.getNode (api.hash bestBlock.blockHeader)
  let bestNode ← c.deref bestRef
  -- Pointers are compared here: the case that extends the tip.
  if bestNode.parent = c.bestNode then
    let (c, err) := api.connectBlock c bestBlock
    return (c, false, err)
  else
    let current ← c.deref c.bestNode
    if current.height < bestNode.height ∧ current.workSum ≤ bestNode.workSum then
      let (c, err) := api.reorganizeChain c bestRef
      return (c, false, err)
    else
      return (c, false, none)

/-- `processBlock`: whether the block is an orphan, and the error. -/
def processBlock (c : Chain) (block : Block) : Except Panic (Chain × Bool × Option Err) :=
  let blockHash := api.hash block.blockHeader
  if api.blockExist c blockHash then
    return (c, api.orphanExist c.orphanManage blockHash, none)
  else if c.getNode block.blockHeader.previousBlockHash = none then
    return ({ c with orphanManage := api.orphanAdd c.orphanManage block }, true, none)
  else
    match api.saveBlock c block with
    | (c, some err) => return (c, false, some err)
    | (c, none) =>
      let (c, bestBlock) := api.saveSubBlock c block
      updateBest api c bestBlock

/-- `processBlock` on block after block. The callers go on after an error. -/
def processBlocks (c : Chain) (blocks : List Block) : Except Panic Chain :=
  blocks.foldlM (fun c block => Prod.fst <$> api.processBlock c block) c

/-- The chain of a fresh store: the genesis block alone. -/
def genesisChain (genesis : Block) (workSum : Nat) : Chain where
  index := Arena.empty.add BlockNode.hash
    ⟨none, api.hash genesis.blockHeader, workSum, genesis.blockHeader.height⟩
  orphanManage := ⟨∅⟩
  bestNode := some 0

end ChainApi

/-! ### What the missing code does -/

namespace Chain

variable (hash : BlockHeader → Hash) (work : Block → Nat)

/-- The chain after a block was saved: it has a node under the node of its parent, with
its own work on top, and the block is no orphan any more. -/
def withBlock (c : Chain) (b : Block) (ref : NodeRef) (parent : BlockNode) : Chain :=
  { c with
    index := c.index.add BlockNode.hash
      ⟨some ref, hash b.blockHeader, parent.workSum + work b, b.blockHeader.height⟩
    orphanManage := ⟨c.orphanManage.orphan.erase (hash b.blockHeader)⟩ }

/-- The block was saved: its parent has a node, and its own node was added. -/
def Saved (c : Chain) (b : Block) (c' : Chain) : Prop :=
  ∃ ref parent, c.getNode b.blockHeader.previousBlockHash = some ref ∧
    c.node? ref = some parent ∧ c' = c.withBlock hash work b ref parent

/-- Orphans were saved one after the other, each at a time when its parent had a node. -/
inductive SavedAll : Chain → List Block → Chain → Prop
  | nil {c : Chain} : SavedAll c [] c
  | cons {c c₁ c' : Chain} {o : Block} {os : List Block}
      (horphan : c.orphanManage.orphan.lookup (hash o.blockHeader) = some o)
      (hsaved : c.Saved hash work o c₁) (hrest : SavedAll c₁ os c') : SavedAll c (o :: os) c'

end Chain

namespace ChainApi

variable (api : ChainApi) (work : Block → Nat)

/-- What `processBlock` relies on. `valid` are the blocks that pass the validation, and
`work` is the work of one block. -/
structure Documented (valid : Block → Prop) : Prop where
  work_pos : ∀ b, valid b → 0 < work b
  blockExist_iff : ∀ c h, api.blockExist c h = true ↔
    (c.getNode h).isSome ∨ h ∈ c.orphanManage.orphan
  orphanExist_iff : ∀ o h, api.orphanExist o h = true ↔ h ∈ o.orphan
  orphanAdd_eq : ∀ o b, api.orphanAdd o b = ⟨o.orphan.insert (api.hash b.blockHeader) b⟩
  /-- `saveBlock` accepts a valid block with a known parent. -/
  saveBlock_ok : ∀ c b ref parent, valid b →
    c.getNode b.blockHeader.previousBlockHash = some ref → c.node? ref = some parent →
    api.saveBlock c b = (c.withBlock api.hash work b ref parent, none)
  /-- `saveSubBlock` saves every orphan that descends from the block, and returns the
  highest block of the batch. -/
  saveSubBlock_spec : ∀ c b, (∃ ref ∈ c.getNode (api.hash b.blockHeader), (c.node? ref).isSome) →
    (∀ h o, c.orphanManage.orphan.lookup h = some o → api.hash o.blockHeader = h ∧ valid o) →
    ∃ c' best orphans, api.saveSubBlock c b = (c', best) ∧
      Chain.SavedAll api.hash work c orphans c' ∧ best ∈ b :: orphans ∧
      (∀ o ∈ b :: orphans, o.blockHeader.height ≤ best.blockHeader.height) ∧
      ∀ h o, c'.orphanManage.orphan.lookup h = some o →
        ∀ q ∈ b :: orphans, o.blockHeader.previousBlockHash ≠ api.hash q.blockHeader
  connectBlock_ok : ∀ c b, api.connectBlock c b =
    ({ c with bestNode := c.getNode (api.hash b.blockHeader) }, none)
  reorganizeChain_ok : ∀ c ref, api.reorganizeChain c ref = ({ c with bestNode := ref }, none)

end ChainApi

end BtmStats.Spec.Protocol
