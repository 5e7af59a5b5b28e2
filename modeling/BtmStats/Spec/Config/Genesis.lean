import BtmStats.Spec.Bc.Merkle
import BtmStats.Spec.Types.Block

/-!
# `BtmStats.Spec.Config.Genesis`: the genesis block

The model of `config/genesis.go`, and of `NewCoinbaseInput`. The hash is the parameter `sha3`, and
what `NewTx` calls is the parameter `EntryApi`.
-/

set_option autoImplicit false

/-! ### The reward of a block

The model of `BlockSubsidy` in `consensus/general.go`, with the constants that it reads. Go
shifts by any count, and a count of 64 or more gives 0.
-/

namespace BtmStats.Spec.Consensus

/-- The constants of `consensus/general.go`. -/
def subsidyReductionInterval : UInt64 := 840000

def baseSubsidy : UInt64 := 41250000000

def initialBlockSubsidy : UInt64 := 140700041250000000

/-- `x >> s` on `uint64`. -/
def shiftRight (x s : UInt64) : UInt64 := if s < 64 then x >>> s else 0

/-- `BlockSubsidy`: the reward of the block at a height. -/
def blockSubsidy (height : UInt64) : UInt64 :=
  if height = 0 then initialBlockSubsidy
  else shiftRight baseSubsidy (height / subsidyReductionInterval)

end BtmStats.Spec.Consensus

namespace BtmStats.Spec.Config

open Lib Spec Spec.Bc Spec.Types

/-- `NewCoinbaseInput` -/
def newCoinbaseInput (arbitrary : List UInt8) : TxInput :=
  ⟨1, some (.coinbase ⟨arbitrary⟩), [], []⟩

/-- `hex.DecodeString("00148c9d063ff74ee6d9ffa88d83aeb038068366c4c4")` -/
def genesisContract : List UInt8 :=
  [0x00, 0x14, 0x8c, 0x9d, 0x06, 0x3f, 0xf7, 0x4e, 0xe6, 0xd9, 0xff, 0xa8, 0x8d, 0x83, 0xae, 0xb0,
    0x38, 0x06, 0x83, 0x66, 0xc4, 0xc4]

/-- The arbitrary data of the genesis transaction. -/
def genesisText : List UInt8 :=
  "Information is power. -- Jan/11/2013. Computing is power. -- Apr/24/2018.".toUTF8.data.toList

/-- The data of the genesis transaction. Its size is not set. -/
def genesisTxData : TxData where
  version := 1
  serializedSize := 0
  timeRange := 0
  inputs := [newCoinbaseInput genesisText]
  outputs := [newTxOutput btmAssetID Consensus.initialBlockSubsidy genesisContract]

section
variable (api : EntryApi) (sha3 : List UInt8 → FixedBytes 32) (orders : MapTxOrders)

/-- `genesisTx` -/
def genesisTx : Except Panic Types.Tx := newTx api sha3 orders genesisTxData

/-- `GenesisBlock` -/
def genesisBlock : Except Panic Block := do
  let tx ← genesisTx api sha3 orders
  -- The error of `SetStatus` is dropped.
  let (txStatus, _) ← newTransactionStatus.setStatus 0 false
  let txStatusHash := txStatusMerkleRoot sha3 txStatus.verifyStatus
  let merkleRoot := txMerkleRoot sha3 [tx.tx]
  return ⟨{ version := 1
            height := 0
            previousBlockHash := Hash.zero
            timestamp := 1524549600
            nonce := 9253507043297
            bits := 2161727821137910632
            blockCommitment := ⟨merkleRoot, txStatusHash⟩ }, [tx]⟩

end

end BtmStats.Spec.Config
