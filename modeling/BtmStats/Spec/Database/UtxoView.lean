import BtmStats.Lib.SortedStore
import BtmStats.Spec.Bc.Entry
import BtmStats.Spec.Runtime

/-!
# `BtmStats.Spec.Database.UtxoView`: unspent outputs in the database

The model of `database/leveldb/utxo_view.go` and of `Store.SaveChainStatus`. The database
answers a key with a value or with `nil`, and a batch is applied to it in order and as a
whole. `Hash.String`, `proto.Marshal` and `proto.Unmarshal` at `UtxoEntry` and
`json.Marshal` at `BlockStoreState` are parameters.

An entry of a view is never nil: what is stored in the map is always the address of an
entry.
-/

set_option autoImplicit false

namespace BtmStats.Spec.Database

open Lib Spec Spec.Bc

/-- What `Get` of a database answers. -/
abbrev DB := Str → Option Str

/-- The writes of a batch, in order. -/
abbrev Batch := List (StoreWrite Str Str)

/-- `storage.UtxoEntry` -/
structure UtxoEntry where
  isCoinBase : Bool
  blockHeight : UInt64
  spent : Bool
  deriving DecidableEq

/-- `state.UtxoViewpoint` -/
structure UtxoViewpoint where
  entries : AList (fun _ : Hash => UtxoEntry)

/-- What the store uses of other packages. -/
structure Env where
  hashString : Hash → Str
  marshal : UtxoEntry → Except Err Str
  unmarshal : Str → Except Err UtxoEntry
  marshalState : UInt64 → Hash → Except Err Str

/-- `"UT:"` -/
def utxoPreFix : Str := [0x55, 0x54, 0x3a]

/-- `"blockStore"` -/
def blockStoreKey : Str := [0x62, 0x6c, 0x6f, 0x63, 0x6b, 0x53, 0x74, 0x6f, 0x72, 0x65]

/-- `HasUtxo` -/
def UtxoViewpoint.hasUtxo (view : UtxoViewpoint) (hash : Hash) : Bool :=
  decide (hash ∈ view.entries)

section
variable (env : Env)

def calcUtxoKey (hash : Hash) : Str := utxoPreFix ++ env.hashString hash

/-! ### Reading -/

/-- `getUtxo` -/
def getUtxo (db : DB) (hash : Hash) : Except Err UtxoEntry :=
  match db (calcUtxoKey env hash) with
  | none => .error (RootErr.errorf "can't find utxo in db").err
  | some data =>
    match env.unmarshal data with
    | .error e => .error (e.wrap "unmarshaling utxo entry")
    | .ok utxo => .ok utxo

/-- The inner loop of `getTransactionsUtxo`: the outputs that one transaction spends. -/
def loadSpent (db : DB) : List Hash → UtxoViewpoint → UtxoViewpoint × Option Err
  | [], view => (view, none)
  | prevout :: rest, view =>
    if view.hasUtxo prevout then loadSpent db rest view
    else
      match db (calcUtxoKey env prevout) with
      | none => loadSpent db rest view
      | some data =>
        match env.unmarshal data with
        | .error e => (view, some (e.wrap "unmarshaling utxo entry"))
        | .ok utxo => loadSpent db rest ⟨view.entries.insert prevout utxo⟩

/-- `getTransactionsUtxo`: add what the view lacks, up to the first error. -/
def getTransactionsUtxo (db : DB) : List Tx → UtxoViewpoint → UtxoViewpoint × Option Err
  | [], view => (view, none)
  | tx :: txs, view =>
    match loadSpent env db tx.spentOutputIDs view with
    | (view, some e) => (view, some e)
    | (view, none) => getTransactionsUtxo db txs view

/-! ### Writing -/

/-- `saveUtxoView` for the entries of a view in the order of its iteration. -/
def saveUtxoView : List (Sigma fun _ : Hash => UtxoEntry) → Batch → Batch × Option Err
  | [], batch => (batch, none)
  | ⟨key, entry⟩ :: rest, batch =>
    -- A coinbase output stays in the database when it is spent.
    if entry.spent && !entry.isCoinBase then
      saveUtxoView rest (batch ++ [.delete (calcUtxoKey env key)])
    else
      match env.marshal entry with
      | .error e => (batch, some (e.wrap "marshaling utxo entry"))
      | .ok b => saveUtxoView rest (batch ++ [.set (calcUtxoKey env key) b])

/-- `SaveChainStatus` for a node with the given height and hash: the database after the
call, and the error. -/
def saveChainStatus (db : DB) (height : UInt64) (hash : Hash) (view : UtxoViewpoint)
    (order : IterOrder (Sigma fun _ : Hash => UtxoEntry)) : DB × Option Err :=
  match saveUtxoView env (order.apply view.entries.entries) [] with
  | (_, some e) => (db, some e)
  | (batch, none) =>
    match env.marshalState height hash with
    | .error e => (db, some e)
    | .ok bytes => (applyBatch db (batch ++ [.set blockStoreKey bytes]), none)

end

end BtmStats.Spec.Database
