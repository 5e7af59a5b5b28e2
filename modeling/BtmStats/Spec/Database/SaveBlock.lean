import BtmStats.Spec.Bc.Merkle
import BtmStats.Spec.Database.LoadIndex
import BtmStats.Spec.Database.UtxoView

/-!
# `BtmStats.Spec.Database.SaveBlock`: the store over a database

The model of `SaveBlock`, `SaveChainStatus`, `GetTransactionStatus`, `GetStoreStatus` and
`LoadBlockIndex` of `database/leveldb/store.go`, over a database that lists its keys in order. A
batch is applied as a whole.

`BlockHeader.MarshalText`, `calcBlockHeaderKey`, `calcTxStatusKey` and `loadBlockStoreStateJSON` are
not in the repository. They are parameters of `StoreEnv`, beside `BlockHeader.Hash` and the
encoders of the libraries.
-/

set_option autoImplicit false

namespace BtmStats.Spec.Database

open Lib Spec Spec.Types
open Spec.Bc (Hash TransactionStatus)
open Spec.Protocol (BlockNode)
open Spec.Bc (Hash)

/-! ### Blocks

The model of `GetBlock` of `database/leveldb/store.go`, the function that fills the block
cache of the store.
-/

/-- `"B:"` -/
def blockPrefix : Str := [0x42, 0x3a]

/-- `calcBlockKey` -/
def calcBlockKey (hash : Hash) : Str := blockPrefix ++ hash.bytes

section
variable (commitmentReadFrom : Fill BlockCommitment) (api : EntryApi)
  (sha3 : List UInt8 → FixedBytes 32) (orders : Nat → MapTxOrders)

/-- `GetBlock`: nil without a value. The error of `UnmarshalText` is dropped. -/
def getBlock (db : DB) (hash : Hash) : Except Panic (Option Block) :=
  match db (calcBlockKey hash) with
  | none => .ok none
  | some bytez => do
      let (block, _) ← Block.unmarshalText commitmentReadFrom api sha3 orders .zero bytez
      return some block

end

/-- `dbm.DB` -/
abbrev Disk := SortedStore Str Str

/-- `"BH:"` -/
def blockHeaderPrefix : Str := [0x42, 0x48, 0x3a]

/-- `"BTS:"` -/
def txStatusPrefix : Str := [0x42, 0x54, 0x53, 0x3a]

/-- `protocol.BlockStoreState` -/
structure BlockStoreState where
  height : UInt64
  hash : Option Hash
  deriving DecidableEq

/-- What the store calls, and what is not in the repository. -/
structure StoreEnv extends Env where
  /-- `BlockHeader.Hash` -/
  hash : BlockHeader → Hash
  writers : BlockWriters
  /-- `BlockHeader.MarshalText` -/
  marshalHeader : BlockHeader → Except Err Str
  calcBlockHeaderKey : UInt64 → Hash → Str
  calcTxStatusKey : Hash → Str
  /-- `proto.Marshal` of a `TransactionStatus` -/
  marshalStatus : TransactionStatus → Except Err Str
  unmarshalStatus : Str → Except Err TransactionStatus
  loadBlockStoreStateJSON : DB → Option BlockStoreState

/-- `errors.Wrap` of the error of a call. -/
def wrapped {α : Type} (msg : String) : Except Err α → Except Err α
  | .ok a => .ok a
  | .error e => .error (e.wrap msg)

section
variable (env : StoreEnv)

/-! ### Writing -/

/-- The batch of `SaveBlock`, or the error before it is written. -/
def blockBatch (block : Block) (ts : TransactionStatus) : Except Err Batch := do
  let binaryBlock ← wrapped "Marshal block meta" (block.marshalText env.writers)
  let binaryBlockHeader ← wrapped "Marshal block header" (env.marshalHeader block.blockHeader)
  let binaryTxStatus ← wrapped "marshal block transaction status" (env.marshalStatus ts)
  let blockHash := env.hash block.blockHeader
  return [.set (calcBlockKey blockHash) binaryBlock,
    .set (env.calcBlockHeaderKey block.blockHeader.height blockHash) binaryBlockHeader,
    .set (env.calcTxStatusKey blockHash) binaryTxStatus]

/-- The batch of `SaveChainStatus`, or the error before it is written. -/
def chainStatusBatch (height : UInt64) (hash : Hash) (view : UtxoViewpoint)
    (order : IterOrder (Sigma fun _ : Hash => UtxoEntry)) : Except Err Batch :=
  match saveUtxoView env.toEnv (order.apply view.entries.entries) [] with
  | (_, some e) => .error e
  | (batch, none) => do
      let bytes ← env.marshalState height hash
      return batch ++ [.set blockStoreKey bytes]

/-- Write a batch, unless there was an error. -/
def Disk.commit (disk : Disk) : Except Err Batch → Disk × Option Err
  | .error e => (disk, some e)
  | .ok batch => (disk.write batch, none)

/-- `SaveBlock`: one batch, or an error and nothing written. -/
def Disk.saveBlock (disk : Disk) (block : Block) (ts : TransactionStatus) : Disk × Option Err :=
  disk.commit (blockBatch env block ts)

/-- `SaveChainStatus`: the view and the status in one batch. -/
def Disk.saveChainStatus (disk : Disk) (height : UInt64) (hash : Hash) (view : UtxoViewpoint)
    (order : IterOrder (Sigma fun _ : Hash => UtxoEntry)) : Disk × Option Err :=
  disk.commit (chainStatusBatch env height hash view order)

/-! ### Reading -/

/-- `GetTransactionStatus` -/
def getTransactionStatus (db : DB) (hash : Hash) : Except Err TransactionStatus :=
  match db (env.calcTxStatusKey hash) with
  | none =>
    .error (RootErr.errorf "can't find the transaction status by given hash").err
  | some data => wrapped "unmarshaling transaction status" (env.unmarshalStatus data)

/-- `GetStoreStatus`, nil on a new store. -/
def Disk.getStoreStatus (disk : Disk) : Option BlockStoreState :=
  env.loadBlockStoreStateJSON disk.answer

/-- `LoadBlockIndex`: the iterator gives the values under the prefix in the order of the keys. -/
def Disk.loadBlockIndex (api : IndexApi) (disk : Disk) : Except Err (Arena BlockNode Hash) :=
  api.loadBlockIndex ((disk.listing blockHeaderPrefix.isPrefixOf).map Prod.snd)

/-! ### Runs -/

/-- The calls that write. -/
inductive StoreOp where
  | saveBlock (block : Block) (ts : TransactionStatus)
  | saveChainStatus (height : UInt64) (hash : Hash) (view : UtxoViewpoint)
      (order : IterOrder (Sigma fun _ : Hash => UtxoEntry))

/-- One call that writes. -/
def Disk.step (disk : Disk) : StoreOp → Disk
  | .saveBlock block ts => (disk.saveBlock env block ts).1
  | .saveChainStatus height hash view order => (disk.saveChainStatus env height hash view order).1

/-- The callers may go on after an error. -/
def Disk.run (disk : Disk) (ops : List StoreOp) : Disk := ops.foldl (Disk.step env) disk

end

end BtmStats.Spec.Database
