import BtmStats.Spec.Config.Genesis
import BtmStats.Spec.Database.SaveBlock
import BtmStats.Spec.State.BlockIndex

/-!
# `BtmStats.Spec.Protocol.NewChain`: the chain from a database

The model of `NewChain` and `initChainStatus` in `protocol/protocol.go`, of `NewOrphanManage`, and
of `SetMainChain` over the nodes that `LoadBlockIndex` has made.

`NewUtxoViewpoint` and `ApplyBlock` are not in the repository. They are a parameter of `ChainEnv`,
together with those of the store, of the index and of `NewTx`.

A process can stop at any time. What it leaves behind is the database, with every batch written as
a whole or not at all. An `Event` is what can happen to the database between two such points.
-/

set_option autoImplicit false

namespace BtmStats.Spec.Protocol

open Lib Spec Spec.Database Spec.Types
open Spec.Bc (Hash TransactionStatus newTransactionStatus)
open Spec.Config (genesisBlock)
open Spec.State (BlockIndex)

/-- What `NewChain` calls, and what is not in the repository. -/
structure ChainEnv extends StoreEnv where
  entryApi : EntryApi
  sha3 : List UInt8 → FixedBytes 32
  index : IndexApi
  /-- `ApplyBlock` of the mapped block on a new `UtxoViewpoint` -/
  applyBlock : Block → TransactionStatus → Except Err UtxoViewpoint

/-- The orders in which a start iterates over maps. -/
structure StartOrders where
  mapTx : MapTxOrders
  view : IterOrder (Sigma fun _ : Hash => UtxoEntry)

/-- The loop of `initChainStatus` over the transactions. The errors of `SetStatus` are dropped. -/
def genesisStatus (transactions : Nat) : Except Panic TransactionStatus :=
  (List.range transactions).foldlM (fun ts i => Prod.fst <$> ts.setStatus i false)
    newTransactionStatus

/-! ### The main chain -/

/-- The loop of `SetMainChain`. It follows the parents, and does not end if they form a circle:
`fuel` is the number of nodes that it may visit. -/
def walkIn (heap : List BlockNode) :
    Nat → Slice (Option NodeRef) → Option NodeRef → Except Panic (Option (Slice (Option NodeRef)))
  | _, s, none => return some s
  | 0, _, some _ => return none
  | fuel + 1, s, some ref => do
      let node ← orPanic .nilDereference heap[ref]?
      let slot ← orPanic .indexOutOfRange (s.get? node.height.toNat)
      if slot = some ref then return some s
      else
        let s ← orPanic .indexOutOfRange (s.set? node.height.toNat (some ref))
        walkIn heap fuel s node.parent

/-- `SetMainChain` on a pointer that may be nil. -/
def setMainChainIn (heap : List BlockNode) (bi : BlockIndex NodeRef) (node : Option NodeRef) :
    Except Panic (Option (BlockIndex NodeRef)) := do
  let ref ← orPanic .nilDereference node
  let node ← orPanic .nilDereference heap[ref]?
  let s ← BlockIndex.resize bi.mainChain (node.height + 1)
  let s ← walkIn heap (heap.length + 1) s (some ref)
  return s.map .mk

/-! ### Starting -/

/-- What `NewChain` returns. -/
structure Started where
  chain : Chain
  mainChain : BlockIndex NodeRef

section
variable (env : ChainEnv)

/-- The second half of `initChainStatus`, after the genesis block was saved. -/
def saveGenesisStatus (disk : Disk) (genesis : Block) (txStatus : TransactionStatus)
    (orders : StartOrders) : Disk × Option Err :=
  match env.applyBlock genesis txStatus with
  | .error err => (disk, some err)
  | .ok utxoView =>
    match env.index.newBlockNode genesis.blockHeader none with
    | .error err => (disk, some err)
    | .ok node =>
      disk.saveChainStatus env.toStoreEnv node.height node.hash utxoView orders.view

/-- `initChainStatus`: the genesis block is one batch, its status another. -/
def initChainStatus (disk : Disk) (orders : StartOrders) : Except Panic (Disk × Option Err) := do
  let genesis ← genesisBlock env.entryApi env.sha3 orders.mapTx
  let txStatus ← genesisStatus genesis.transactions.length
  match disk.saveBlock env.toStoreEnv genesis txStatus with
  | (disk, some err) => return (disk, some err)
  | (disk, none) => return saveGenesisStatus env disk genesis txStatus orders

/-- `NewChain` after the status is in the store. There is no result if `SetMainChain` does not
end. -/
def startFrom (disk : Disk) : Except Panic (Except Err (Option Started)) :=
  match disk.loadBlockIndex env.index with
  | .error err => return .error err
  | .ok index => do
      let storeStatus ← orPanic .nilDereference (disk.getStoreStatus env.toStoreEnv)
      let hash ← orPanic .nilDereference storeStatus.hash
      let bestNode := (getNode index hash).map Prod.fst
      let mainChain ← setMainChainIn index.heap .empty bestNode
      return .ok (mainChain.map (⟨⟨index, ⟨∅⟩, bestNode⟩, ·⟩))

/-- `NewChain`: the database after the call, and what it returns. -/
def newChain (disk : Disk) (orders : StartOrders) :
    Except Panic (Disk × Except Err (Option Started)) :=
  match disk.getStoreStatus env.toStoreEnv with
  | some _ => do return (disk, ← startFrom env disk)
  | none => do
      match ← initChainStatus env disk orders with
      | (disk, some err) => return (disk, .error err)
      | (disk, none) => return (disk, ← startFrom env disk)

/-! ### Histories -/

/-- What happens to a database. -/
inductive Event where
  /-- `NewChain` is called and returns. -/
  | start (orders : StartOrders)
  /-- `NewChain` is called and has saved the genesis block, if it does, when the process stops. -/
  | cut (orders : StartOrders)
  /-- A running chain writes to its store. -/
  | write (op : StoreOp)

/-- The database after an event. -/
def Event.apply (disk : Disk) : Event → Except Panic Disk
  | .start orders => do return (← newChain env disk orders).1
  | .cut orders =>
    match disk.getStoreStatus env.toStoreEnv with
    | some _ => return disk
    | none => do
        let genesis ← genesisBlock env.entryApi env.sha3 orders.mapTx
        let txStatus ← genesisStatus genesis.transactions.length
        return (disk.saveBlock env.toStoreEnv genesis txStatus).1
  | .write op => return disk.step env.toStoreEnv op

/-- The database after a history that starts with an empty one. -/
def diskAfter (events : List Event) : Except Panic Disk :=
  events.foldlM (Event.apply env) .empty

end

end BtmStats.Spec.Protocol
