import BtmStats.Spec.Types.Block
import BtmStats.Spec.Wire.Binary

/-!
# `BtmStats.Spec.Netsync.DecodeMessage`: the messages on the wire

The model of the registered messages and of `DecodeMessage` in `netsync/message.go`. A message is
written by `wire.WriteBinary` as its type byte and its fields.
-/

set_option autoImplicit false

namespace BtmStats.Spec.Netsync

open Lib Spec Spec.Wire Spec.Types

/-! ### Blocks in messages

The model of `BlockResponseMessage.GetBlock` and `MineBlockMessage.GetMineBlock` in
`netsync/message.go`. Both unmarshal the text of a block into a fresh one. The list of
transactions is a nil slice in one of them and an empty slice in the other, which
nothing tells apart.
-/

/-- A message with the text of a block that was asked for. -/
structure BlockResponseMessage where
  rawBlock : List UInt8

/-- A message with the text of a new block. -/
structure MineBlockMessage where
  rawBlock : List UInt8

section
variable (commitmentReadFrom : Fill BlockCommitment) (api : EntryApi)
  (sha3 : List UInt8 → FixedBytes 32) (orders : Nat → MapTxOrders)

/-- `BlockResponseMessage.GetBlock`. The error of `UnmarshalText` is dropped. -/
def BlockResponseMessage.getBlock (m : BlockResponseMessage) : Except Panic Block := do
  let (block, _) ← Block.unmarshalText commitmentReadFrom api sha3 orders .zero m.rawBlock
  return block

/-- `GetMineBlock`, which returns the error. -/
def MineBlockMessage.getMineBlock (m : MineBlockMessage) : Except Panic (Except Err Block) := do
  let (block, err) ← Block.unmarshalText commitmentReadFrom api sha3 orders .zero m.rawBlock
  match err with
  | some err => return .error err
  | none => return .ok block

end

/-- The type bytes of the messages. -/
def blockRequestByte : UInt8 := 0x10

def blockResponseByte : UInt8 := 0x11

def statusRequestByte : UInt8 := 0x20

def statusResponseByte : UInt8 := 0x21

def newTransactionByte : UInt8 := 0x30

def newMineBlockByte : UInt8 := 0x40

/-- The limit on the bytes that go-wire reads for a message. -/
def maxBlockchainResponseSize : Nat := 22020096 + 2

/-- A request by height, or by hash if the height is 0. -/
structure BlockRequestMessage where
  height : UInt64
  rawHash : FixedBytes 32
  deriving DecidableEq

/-- The best block and the genesis block of a node. -/
structure StatusResponseMessage where
  height : UInt64
  rawHash : FixedBytes 32
  genesisHash : FixedBytes 32
  deriving DecidableEq

/-- A message with the text of a transaction. -/
structure TransactionNotifyMessage where
  rawTx : List UInt8
  deriving DecidableEq

/-- The types that are registered for `BlockchainMessage`. -/
inductive BlockchainMessage where
  | blockRequest (m : BlockRequestMessage)
  | blockResponse (m : BlockResponseMessage)
  | statusRequest
  | statusResponse (m : StatusResponseMessage)
  | transactionNotify (m : TransactionNotifyMessage)
  | mineBlock (m : MineBlockMessage)

namespace BlockchainMessage

/-- The type byte that a message is registered with. -/
def typeByte : BlockchainMessage → UInt8
  | .blockRequest _ => blockRequestByte
  | .blockResponse _ => blockResponseByte
  | .statusRequest => statusRequestByte
  | .statusResponse _ => statusResponseByte
  | .transactionNotify _ => newTransactionByte
  | .mineBlock _ => newMineBlockByte

/-- The fields of a message, as `writeReflectBinary` writes them. -/
def writeFields : BlockchainMessage → List UInt8
  | .blockRequest m => writeUint64 m.height ++ m.rawHash.1
  | .blockResponse m => writeByteSlice m.rawBlock
  | .statusRequest => []
  | .statusResponse m => writeUint64 m.height ++ m.rawHash.1 ++ m.genesisHash.1
  | .transactionNotify m => writeByteSlice m.rawTx
  | .mineBlock m => writeByteSlice m.rawBlock

/-- `wire.BinaryBytes(struct{ BlockchainMessage }{m})` -/
def binaryBytes (m : BlockchainMessage) : List UInt8 := m.typeByte :: m.writeFields

/-- The types registered for `BlockchainMessage`, by their bytes: the readers of their fields. -/
def byteToType (lmt : Nat) (b : UInt8) : Option (Reader BlockchainMessage) :=
  if b = blockRequestByte then some do
    let height ← readUint64
    let rawHash ← readByteArray 32
    return .blockRequest ⟨height, rawHash⟩
  else if b = blockResponseByte then some do
    let rawBlock ← readByteSlice lmt
    return .blockResponse ⟨rawBlock⟩
  else if b = statusRequestByte then some (return .statusRequest)
  else if b = statusResponseByte then some do
    let height ← readUint64
    let rawHash ← readByteArray 32
    let genesisHash ← readByteArray 32
    return .statusResponse ⟨height, rawHash, genesisHash⟩
  else if b = newTransactionByte then some do
    let rawTx ← readByteSlice lmt
    return .transactionNotify ⟨rawTx⟩
  else if b = newMineBlockByte then some do
    let rawBlock ← readByteSlice lmt
    return .mineBlock ⟨rawBlock⟩
  else none

/-- `wire.ReadBinary(struct{ BlockchainMessage }{}, ...)` -/
def read (lmt : Nat) : Reader (Option BlockchainMessage) :=
  readBinary lmt (readInterface "netsync.BlockchainMessage" (byteToType lmt))

end BlockchainMessage

/-- What `DecodeMessage` returns. -/
structure Decoded where
  msgType : UInt8
  msg : Option BlockchainMessage
  err : Option Err

/-- `DecodeMessage`. The first byte of an empty slice panics. -/
def decodeMessage (bz : List UInt8) : Except Panic Decoded := do
  let msgType ← orPanic .indexOutOfRange bz.head?
  let (msg, c) := (BlockchainMessage.read maxBlockchainResponseSize).run ⟨bz, 0, none⟩
  -- The check for bytes left over is made only after an error.
  let err :=
    if c.err ≠ none ∧ c.n ≠ bz.length then
      some (RootErr.errorf "DecodeMessage() had bytes left over").err
    else c.err
  return ⟨msgType, msg, err⟩

end BtmStats.Spec.Netsync
