import BtmStats.Lib.Arena
import BtmStats.Spec.Bc.Hash

/-!
# `BtmStats.Spec.Bc.Entry`: the entries of a transaction

The message types of `protocol/bc/bc.pb.go` that the entries of a transaction are
made of, and `bc.Tx` of `protocol/bc/tx.go`. A pointer field that can be nil is an
`Option`. The block header entry is left out: no function of the model builds one.
-/

set_option autoImplicit false

namespace BtmStats.Spec.Bc

open Lib

/-- `bc.Program`: code with the version of its machine. -/
structure Program where
  vmVersion : UInt64
  code : List UInt8
  deriving DecidableEq, Repr

/-- An amount of an asset. The pointer to its ID can be nil. -/
structure AssetAmount where
  assetId : Option AssetID
  amount : UInt64
  deriving DecidableEq, Repr

/-- `bc.AssetDefinition` -/
structure AssetDefinition where
  issuanceProgram : Option Program
  data : Option Hash
  deriving DecidableEq, Repr

/-- Where the value of an entry comes from: an entry and a place in it. -/
structure ValueSource where
  ref : Option Hash
  value : Option AssetAmount
  position : UInt64
  deriving DecidableEq, Repr

/-- Where the value of an entry goes. -/
structure ValueDestination where
  ref : Option Hash
  value : Option AssetAmount
  position : UInt64
  deriving DecidableEq, Repr

/-- The header entry, with the IDs of the results. -/
structure TxHeader where
  version : UInt64
  serializedSize : UInt64
  timeRange : UInt64
  resultIds : List (Option Hash)
  deriving DecidableEq, Repr

/-- The entry between the inputs and the results of a transaction. -/
structure Mux where
  sources : List (Option ValueSource)
  program : Option Program
  witnessDestinations : List (Option ValueDestination)
  witnessArguments : List (List UInt8)
  deriving DecidableEq, Repr

/-- The entry of a coinbase input. -/
structure Coinbase where
  witnessDestination : Option ValueDestination
  arbitrary : List UInt8
  deriving DecidableEq, Repr

/-- The entry of an output that can be spent. -/
structure Output where
  source : Option ValueSource
  controlProgram : Option Program
  ordinal : UInt64
  deriving DecidableEq, Repr

/-- The entry of an output that cannot be spent. -/
structure Retirement where
  source : Option ValueSource
  ordinal : UInt64
  deriving DecidableEq, Repr

/-- The entry of an issuance input. -/
structure Issuance where
  nonceHash : Option Hash
  value : Option AssetAmount
  witnessDestination : Option ValueDestination
  witnessAssetDefinition : Option AssetDefinition
  witnessArguments : List (List UInt8)
  ordinal : UInt64
  deriving DecidableEq, Repr

/-- The entry of a spend input. -/
structure Spend where
  spentOutputId : Option Hash
  witnessDestination : Option ValueDestination
  witnessArguments : List (List UInt8)
  ordinal : UInt64
  deriving DecidableEq, Repr

/-- `Entry`, with one constructor for each type that `mapTx` stores. -/
inductive Entry where
  | txHeader (e : TxHeader)
  | mux (e : Mux)
  | coinbase (e : Coinbase)
  | output (e : Output)
  | retirement (e : Retirement)
  | issuance (e : Issuance)
  | spend (e : Spend)
  deriving DecidableEq, Repr

/-- `map[bc.Hash]bc.Entry`, with the heap that it points into. The interface values
hold pointers, so a later write to an entry is seen through the map. -/
abbrev EntryMap := Arena Entry Hash

/-- `bc.Tx`. -/
structure Tx where
  txHeader : TxHeader
  id : Hash
  entries : EntryMap
  inputIDs : List Hash
  spentOutputIDs : List Hash
  gasInputIDs : List Hash

end BtmStats.Spec.Bc
