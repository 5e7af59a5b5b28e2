import BtmStats.Spec.Bc.WriteForHash

/-!
# `BtmStats.Spec.Types.Transaction`: transactions and how they are read

The model of `transaction.go`, `txinput.go`, `txoutput.go`, `spend_commitment.go`,
`output_commitment.go`, `issuance.go`, `spend.go` and `coinbase.go` in
`protocol/bc/types`, and of the two `ReadFrom` methods of package `bc` that they
use. A `readFrom` method fills a fresh receiver, so the model returns the value.
The value that a failed call leaves half-filled is never used.

The two closures of `TxInput.readFrom` fill one typed input: the commitment
closure makes it, and the witness closure adds to it. `assetID` is the variable
that the first closure sets and the second one compares.

A nil byte slice and an empty one are both `[]`.
-/

set_option autoImplicit false

namespace BtmStats.Spec.Types

open Lib Spec.Blockchain
open Spec.Bc (Hash AssetID AssetAmount newHash newAssetID computeAssetID)

/-- `Hash.ReadFrom`. -/
def readHash : ReaderM Hash := do
  let b32 ← readFull 32
  pure (newHash b32)

/-- `AssetID.ReadFrom`. -/
def readAssetID : ReaderM AssetID := do
  let h ← readHash
  pure ⟨h⟩

/-- `AssetAmount.ReadFrom`. -/
def readAssetAmount : ReaderM AssetAmount := do
  let assetID ← readAssetID
  let amount ← readVarint63
  pure ⟨some assetID, amount⟩

/-! ### Inputs -/

/-- An input that issues an asset. -/
structure IssuanceInput where
  nonce : List UInt8
  amount : UInt64
  assetDefinition : List UInt8
  vmVersion : UInt64
  issuanceProgram : List UInt8
  arguments : List (List UInt8)
  deriving DecidableEq, Repr

/-- The output that a spend names. -/
structure SpendCommitment where
  assetAmount : AssetAmount
  sourceID : Hash
  sourcePosition : UInt64
  vmVersion : UInt64
  controlProgram : List UInt8
  deriving DecidableEq, Repr

/-- An input that spends an output. -/
structure SpendInput where
  spendCommitmentSuffix : List UInt8
  arguments : List (List UInt8)
  spendCommitment : SpendCommitment
  deriving DecidableEq, Repr

/-- The input of a reward. -/
structure CoinbaseInput where
  arbitrary : List UInt8
  deriving DecidableEq, Repr

/-- The implementations of the interface `TypedInput`. -/
inductive TypedInput where
  | issuance (ii : IssuanceInput)
  | spend (si : SpendInput)
  | coinbase (ci : CoinbaseInput)
  deriving DecidableEq, Repr

/-- An input. That of an unknown asset version is not typed. -/
structure TxInput where
  assetVersion : UInt64
  typedInput : Option TypedInput
  commitmentSuffix : List UInt8
  witnessSuffix : List UInt8
  deriving DecidableEq, Repr

/-- `NewSpendInput` -/
def newSpendInput (arguments : List (List UInt8)) (sourceID : Hash) (assetID : AssetID)
    (amount sourcePos : UInt64) (controlProgram : List UInt8) : TxInput :=
  let sc : SpendCommitment := ⟨⟨some assetID, amount⟩, sourceID, sourcePos, 1, controlProgram⟩
  ⟨1, some (.spend ⟨[], arguments, sc⟩), [], []⟩

/-- The zero value of a `SpendCommitment`. -/
def SpendCommitment.zero : SpendCommitment := ⟨⟨none, 0⟩, Hash.zero, 0, 0, []⟩

/-- The closure of `SpendCommitment.readFrom`. -/
def SpendCommitment.readBody (assetVersion : UInt64) : ReaderM SpendCommitment :=
  if assetVersion = 1 then do
    let sourceID ← wrapErr "reading source id" readHash
    let assetAmount ← wrapErr "reading asset+amount" readAssetAmount
    let sourcePosition ← wrapErr "reading source position" readVarint63
    let vmVersion ← wrapErr "reading VM version" readVarint63
    if vmVersion ≠ 1 then
      -- The program of an unknown VM version is not read.
      fail (.errorf s!"unrecognized VM version {vmVersion} for asset version 1")
    else do
      let controlProgram ← wrapErr "reading control program" readVarstr31
      pure ⟨assetAmount, sourceID, sourcePosition, vmVersion, controlProgram⟩
  -- The closure of an unknown asset version reads nothing, so all bytes are suffix.
  else pure .zero

/-- `SpendCommitment.readFrom`: the commitment and its suffix. -/
def SpendCommitment.readFrom (assetVersion : UInt64) : ReaderM (SpendCommitment × List UInt8) :=
  readExtensibleString (SpendCommitment.readBody assetVersion)

section
variable (sha3 : List UInt8 → FixedBytes 32)

def IssuanceInput.assetDefinitionHash (ii : IssuanceInput) : Hash :=
  newHash (sha3 ii.assetDefinition)

def IssuanceInput.nonceHash (ii : IssuanceInput) : Hash := newHash (sha3 ii.nonce)

/-- `IssuanceInput.AssetID`: computed, never stored. -/
def IssuanceInput.assetID (ii : IssuanceInput) : AssetID :=
  computeAssetID sha3 ii.issuanceProgram ii.vmVersion (ii.assetDefinitionHash sha3)

/-- The case of an issuance in the commitment closure. The fields that the witness
holds are still zero. -/
def readIssuanceCommitment : ReaderM (TypedInput × AssetID) := do
  let nonce ← readVarstr31
  let assetID ← readAssetID
  let amount ← readVarint63
  pure (.issuance ⟨nonce, amount, [], 0, [], []⟩, assetID)

/-- The case of a spend in the commitment closure. -/
def readSpendCommitment : ReaderM (TypedInput × AssetID) := do
  let (sc, suffix) ← SpendCommitment.readFrom 1
  pure (.spend ⟨suffix, [], sc⟩, default)

/-- The case of a coinbase. -/
def readCoinbaseCommitment : ReaderM (TypedInput × AssetID) := do
  let arbitrary ← readVarstr31
  pure (.coinbase ⟨arbitrary⟩, default)

/-- The commitment closure of `TxInput.readFrom`: the typed input that it makes, and
the asset ID that it reads. -/
def readInputCommitment (assetVersion : UInt64) : ReaderM (Option (TypedInput × AssetID)) :=
  if assetVersion ≠ 1 then pure none
  else do
    -- One byte, compared with the types 0, 1 and 2 in turn.
    let icType ← wrapErr "reading input commitment type" (readFull 1)
    if icType.1 = [0] then some <$> readIssuanceCommitment
    else if icType.1 = [1] then some <$> readSpendCommitment
    else if icType.1 = [2] then some <$> readCoinbaseCommitment
    else fail (.errorf s!"unsupported input type {icType.1.headD 0}")

/-- The witness closure of `TxInput.readFrom` on the input that the commitment
closure made. An input with an unknown asset version has no typed input, and a
coinbase has no witness. -/
def readInputWitness (made : Option (TypedInput × AssetID)) : ReaderM (Option TypedInput) :=
  match made with
  | some (.issuance ii, assetID) => do
      let assetDefinition ← readVarstr31
      let vmVersion ← readVarint63
      let issuanceProgram ← readVarstr31
      let ii : IssuanceInput :=
        ⟨ii.nonce, ii.amount, assetDefinition, vmVersion, issuanceProgram, ii.arguments⟩
      -- The asset ID of the commitment must be the hash of what the witness holds.
      if ii.assetID sha3 ≠ assetID then fail .errBadAssetID
      else do
        let arguments ← readVarstrListM
        pure (some (.issuance { ii with arguments := arguments }))
  | some (.spend si, _) => do
      let arguments ← readVarstrListM
      pure (some (.spend { si with arguments := arguments }))
  | some (.coinbase ci, _) => pure (some (.coinbase ci))
  | none => pure none

/-- `TxInput.readFrom` -/
def TxInput.readFrom : ReaderM TxInput := do
  let assetVersion ← readVarint63
  let (made, commitmentSuffix) ← readExtensibleString (readInputCommitment assetVersion)
  let (typedInput, witnessSuffix) ← readExtensibleString (readInputWitness sha3 made)
  pure ⟨assetVersion, typedInput, commitmentSuffix, witnessSuffix⟩

/-! ### Outputs -/

/-- The amount, and the program that guards it. -/
structure OutputCommitment where
  assetAmount : AssetAmount
  vmVersion : UInt64
  controlProgram : List UInt8
  deriving DecidableEq, Repr

/-- An output. -/
structure TxOutput where
  assetVersion : UInt64
  outputCommitment : OutputCommitment
  commitmentSuffix : List UInt8
  deriving DecidableEq, Repr

/-- `NewTxOutput` -/
def newTxOutput (assetID : AssetID) (amount : UInt64) (controlProgram : List UInt8) : TxOutput :=
  ⟨1, ⟨⟨some assetID, amount⟩, 1, controlProgram⟩, []⟩

/-- The zero value of an `OutputCommitment`. -/
def OutputCommitment.zero : OutputCommitment := ⟨⟨none, 0⟩, 0, []⟩

/-- The closure of `OutputCommitment.readFrom`. -/
def OutputCommitment.readBody (assetVersion : UInt64) : ReaderM OutputCommitment :=
  if assetVersion = 1 then do
    let assetAmount ← wrapErr "reading asset+amount" readAssetAmount
    let vmVersion ← wrapErr "reading VM version" readVarint63
    if vmVersion ≠ 1 then
      fail (.errorf s!"unrecognized VM version {vmVersion} for asset version 1")
    else do
      let controlProgram ← wrapErr "reading control program" readVarstr31
      pure ⟨assetAmount, vmVersion, controlProgram⟩
  else pure .zero

/-- `OutputCommitment.readFrom`: the commitment and its suffix. -/
def OutputCommitment.readFrom (assetVersion : UInt64) :
    ReaderM (OutputCommitment × List UInt8) :=
  readExtensibleString (OutputCommitment.readBody assetVersion)

/-- `TxOutput.readFrom`. The output witness is read and dropped. -/
def TxOutput.readFrom : ReaderM TxOutput := do
  let assetVersion ← wrapErr "reading asset version" readVarint63
  let (outputCommitment, commitmentSuffix) ←
    wrapErr "reading output commitment" (OutputCommitment.readFrom assetVersion)
  -- The witness is read and ignored.
  let _ ← wrapErr "reading output witness" readVarstr31
  pure ⟨assetVersion, outputCommitment, commitmentSuffix⟩

/-! ### Transactions -/

/-- A transaction as it is serialized. -/
structure TxData where
  version : UInt64
  serializedSize : UInt64
  timeRange : UInt64
  inputs : List TxInput
  outputs : List TxOutput
  deriving DecidableEq, Repr

/-- `serRequired`: the accepted serialization flags. -/
def serRequired : UInt8 := 0x7

/-- `Reader.Len`. -/
def readerLen : ReaderM Nat := do
  let r ← get
  pure r.length

/-- The body of `TxData.readFrom` without the size. -/
def TxData.readFields : ReaderM TxData := do
  let serflags ← wrapErr "reading serialization flags" (readFull 1)
  if serflags.1 ≠ [serRequired] then
    fail (.errorf ("unsupported serflags 0x" ++ hexDigits (serflags.1.headD 0).toNat))
  else do
    let version ← wrapErr "reading transaction version" readVarint63
    let timeRange ← readVarint63
    let n ← wrapErr "reading number of transaction inputs" readVarint31
    let inputs ← many (fun i => wrapErr s!"reading input {i}" (TxInput.readFrom sha3)) n []
    let n ← wrapErr "reading number of transaction outputs" readVarint31
    let outputs ← many (fun i => wrapErr s!"reading output {i}" TxOutput.readFrom) n []
    -- The size is only known to the caller, from the length of the reader.
    pure ⟨version, 0, timeRange, inputs, outputs⟩

/-- `TxData.readFrom`. `SerializedSize` is the number of bytes read. -/
def TxData.readFrom : ReaderM TxData := do
  let startSerializedSize ← readerLen
  let tx ← TxData.readFields sha3
  let len ← readerLen
  pure { tx with serializedSize := UInt64.ofNat (startSerializedSize - len) }

end

end BtmStats.Spec.Types
