import BtmStats.Spec.Types.Transaction

/-!
# `BtmStats.Spec.Types.Map`: transactions to entries

The model of `MapTx` and `mapTx` in `protocol/bc/types/map.go`, and of `NewTx`.

The constructors of entries, their `SetDestination` methods and `EntryID` belong to
package `bc`, and `IsUnspendable` and `OP_TRUE` to package `vm`. Their code is not
in the repository, so they are the parameter `EntryApi`. What is assumed about them is
`EntryApi.Documented`, beside the proofs that use it.

`mapTx` keeps pointers to the entries that it adds and writes to them later. The
lists of pointers carry the entry as it was added, because nothing writes to it in
between. A pointer to a value that is never written to is the value.
-/

set_option autoImplicit false

namespace BtmStats.Spec.Types

open Lib Spec Spec.Bc

/-- The functions of packages `bc` and `vm` that `mapTx` calls. -/
structure EntryApi where
  entryID : Entry → Hash
  newIssuance : Hash → AssetAmount → UInt64 → Issuance
  newOutput : ValueSource → Program → UInt64 → Output
  newSpend : Hash → UInt64 → Spend
  newCoinbase : List UInt8 → Coinbase
  newMux : List (Option ValueSource) → Program → Mux
  newRetirement : ValueSource → UInt64 → Retirement
  newTxHeader : UInt64 → UInt64 → UInt64 → List (Option Hash) → TxHeader
  setSpendDestination : Spend → Hash → Option AssetAmount → UInt64 → Spend
  setIssuanceDestination : Issuance → Hash → Option AssetAmount → UInt64 → Issuance
  setCoinbaseDestination : Coinbase → Hash → Option AssetAmount → UInt64 → Coinbase
  /-- `TxInput.AssetAmount` -/
  inputAssetAmount : TxInput → AssetAmount
  isUnspendable : List UInt8 → Bool
  opTrue : UInt8

/-- The types of entries. `EntryID` hashes the type together with the body. -/
inductive EntryKind where
  | txHeader | mux | coinbase | output | retirement | issuance | spend
  deriving DecidableEq, Repr

/-- The type of an entry. -/
def entryKind : Entry → EntryKind
  | .txHeader _ => .txHeader
  | .mux _ => .mux
  | .coinbase _ => .coinbase
  | .output _ => .output
  | .retirement _ => .retirement
  | .issuance _ => .issuance
  | .spend _ => .spend

/-- The variables of the loop over the inputs. -/
structure InputsState where
  entryMap : EntryMap
  spends : List (Nat × Spend)
  issuances : List (Nat × Issuance)
  coinbase : Option (Nat × Coinbase)
  muxSources : List (Option ValueSource)

section
variable (api : EntryApi) (sha3 : List UInt8 → FixedBytes 32)

/-- `addEntry`. The ID that it returns is `api.entryID e`. -/
def addEntry (e : Entry) (entryMap : EntryMap) : EntryMap := entryMap.add api.entryID e

/-! ### The entries of an input -/

/-- The entry of an issuance, before its destination is set. -/
def mapIssuance (i : Nat) (input : TxInput) (inp : IssuanceInput) : Issuance :=
  { api.newIssuance (inp.nonceHash sha3) (api.inputAssetAmount input) (UInt64.ofNat i) with
    witnessAssetDefinition :=
      some ⟨some ⟨inp.vmVersion, inp.issuanceProgram⟩, some (inp.assetDefinitionHash sha3)⟩
    witnessArguments := inp.arguments }

/-- The ordinal of a prevout does not matter. -/
def mapPrevout (inp : SpendInput) : Output :=
  let sc := inp.spendCommitment
  api.newOutput ⟨some sc.sourceID, some sc.assetAmount, sc.sourcePosition⟩
    ⟨sc.vmVersion, sc.controlProgram⟩ 0

/-- The entry of a spend, before its destination is set. -/
def mapSpend (i : Nat) (inp : SpendInput) : Spend :=
  { api.newSpend (api.entryID (.output (mapPrevout api inp))) (UInt64.ofNat i) with
    witnessArguments := inp.arguments }

/-- The body of the loop over the inputs. An input without a typed input leaves its
mux source nil. -/
def mapInput (tx : TxData) (s : InputsState) (i : Nat) (input : TxInput) :
    Except Panic InputsState :=
  match input.typedInput with
  | some (.issuance inp) =>
    let issuance := mapIssuance api sha3 i input inp
    let source : ValueSource :=
      ⟨some (api.entryID (.issuance issuance)), some (api.inputAssetAmount input), 0⟩
    .ok { s with
      entryMap := addEntry api (.issuance issuance) s.entryMap
      issuances := s.issuances ++ [(s.entryMap.next, issuance)]
      muxSources := s.muxSources ++ [some source] }
  | some (.spend inp) =>
    let entryMap := addEntry api (.output (mapPrevout api inp)) s.entryMap
    let spend := mapSpend api i inp
    let source : ValueSource :=
      ⟨some (api.entryID (.spend spend)), some inp.spendCommitment.assetAmount, 0⟩
    .ok { s with
      entryMap := addEntry api (.spend spend) entryMap
      spends := s.spends ++ [(entryMap.next, spend)]
      muxSources := s.muxSources ++ [some source] }
  | some (.coinbase inp) => do
      let coinbase := api.newCoinbase inp.arbitrary
      -- `tx.Outputs[0]` without a look at the number of outputs.
      let out ← orPanic .indexOutOfRange tx.outputs.head?
      let source : ValueSource :=
        ⟨some (api.entryID (.coinbase coinbase)), some out.outputCommitment.assetAmount, 0⟩
      .ok { s with
        entryMap := addEntry api (.coinbase coinbase) s.entryMap
        coinbase := some (s.entryMap.next, coinbase)
        muxSources := s.muxSources ++ [some source] }
  | none => .ok { s with muxSources := s.muxSources ++ [none] }

/-- The loop over the inputs, from input `i` on. -/
def mapInputs (tx : TxData) : Nat → List TxInput → InputsState → Except Panic InputsState
  | _, [], s => .ok s
  | i, input :: rest, s => do
      let s ← mapInput api sha3 tx s i input
      mapInputs tx (i + 1) rest s

/-! ### The inputs and the mux -/

/-- `entryMap[id].(*bc.Output)`. -/
def assertOutput (entryMap : EntryMap) (id : Hash) : Except Panic Output :=
  match entryMap.find? id with
  | some (.output o) => .ok o
  | _ => .error .typeAssertion

/-- The loop that connects the spends to the mux. -/
def connectSpends (muxID : Hash) : List (Nat × Spend) → EntryMap → Except Panic EntryMap
  | [], entryMap => .ok entryMap
  | (p, spend) :: rest, entryMap => do
      let spentOutputId ← orPanic .nilDereference spend.spentOutputId
      let spentOutput ← assertOutput entryMap spentOutputId
      -- The value is the one of the spent output, which is in the map since its own round
      -- of the input loop.
      let source ← orPanic .nilDereference spentOutput.source
      let spend := api.setSpendDestination spend muxID source.value spend.ordinal
      connectSpends muxID rest (entryMap.set p (.spend spend))

/-- The loop that connects the issuances to the mux. -/
def connectIssuances (muxID : Hash) : List (Nat × Issuance) → EntryMap → EntryMap
  | [], entryMap => entryMap
  | (p, issuance) :: rest, entryMap =>
    let issuance := api.setIssuanceDestination issuance muxID issuance.value issuance.ordinal
    connectIssuances muxID rest (entryMap.set p (.issuance issuance))

/-- The coinbase is connected with the value of `mux.Sources[0]`. -/
def connectCoinbase (muxID : Hash) (mux : Mux) (coinbase : Option (Nat × Coinbase))
    (entryMap : EntryMap) : Except Panic EntryMap :=
  match coinbase with
  | none => .ok entryMap
  | some (p, coinbase) => do
      let source ← orPanic .indexOutOfRange mux.sources.head?
      -- A source is nil for an input without a typed input.
      let source ← orPanic .nilDereference source
      .ok (entryMap.set p (.coinbase (api.setCoinbaseDestination coinbase muxID source.value 0)))

/-! ### The outputs -/

/-- The result entry of an output: a retirement or an output. -/
def mapResult (muxID : Hash) (i : Nat) (out : TxOutput) : Entry :=
  let oc := out.outputCommitment
  let src : ValueSource := ⟨some muxID, some oc.assetAmount, UInt64.ofNat i⟩
  if api.isUnspendable oc.controlProgram then
    .retirement (api.newRetirement src (UInt64.ofNat i))
  else .output (api.newOutput src ⟨oc.vmVersion, oc.controlProgram⟩ (UInt64.ofNat i))

/-- The loop over the outputs, from output `i` on. It adds the results, and gives
the mux at place `p` a destination for each of them. -/
def mapOutputs (muxID : Hash) (p : Nat) :
    Nat → List TxOutput → Mux → List (Option Hash) → EntryMap → List (Option Hash) × EntryMap
  | _, [], _, resultIDs, entryMap => (resultIDs, entryMap)
  | i, out :: rest, mux, resultIDs, entryMap =>
    let result := mapResult api muxID i out
    let resultID := api.entryID result
    let dest : ValueDestination := ⟨some resultID, some out.outputCommitment.assetAmount, 0⟩
    let mux := { mux with witnessDestinations := mux.witnessDestinations ++ [some dest] }
    mapOutputs muxID p (i + 1) rest mux (resultIDs ++ [some resultID])
      -- The mux stays under the key that it had without destinations.
      ((addEntry api result entryMap).set p (.mux mux))

/-! ### `mapTx` and `MapTx` -/

/-- `mapTx`: the ID, the header and the entries of a transaction. -/
def mapTx (tx : TxData) : Except Panic (Hash × TxHeader × EntryMap) := do
  let s ← mapInputs api sha3 tx 0 tx.inputs ⟨.empty, [], [], none, []⟩
  let mux := api.newMux s.muxSources ⟨1, [api.opTrue]⟩
  let muxID := api.entryID (.mux mux)
  let entryMap := addEntry api (.mux mux) s.entryMap
  -- connect the inputs to the mux
  let entryMap ← connectSpends api muxID s.spends entryMap
  let entryMap := connectIssuances api muxID s.issuances entryMap
  let entryMap ← connectCoinbase api muxID mux s.coinbase entryMap
  -- convert types.outputs to the bc.output
  let results := mapOutputs api muxID s.entryMap.next 0 tx.outputs mux [] entryMap
  let h := api.newTxHeader tx.version tx.serializedSize tx.timeRange results.1
  pure (api.entryID (.txHeader h), h, addEntry api (.txHeader h) results.2)

end

/-- `consensus.BTMAssetID`. -/
def btmAssetID : AssetID :=
  ⟨⟨18446744073709551615, 18446744073709551615, 18446744073709551615, 18446744073709551615⟩⟩

/-- What the loop of `MapTx` collects. `spentOutputIDs` is the set of the keys of its
map. -/
structure MapTxState where
  inputIDs : List Hash
  spentOutputIDs : List Hash
  gasInputIDs : List Hash

/-- The end of the loop body: `tx.InputIDs[ord] = id`, with `ord` in range. -/
def MapTxState.setInputID (s : MapTxState) (ord : UInt64) (id : Hash) : MapTxState :=
  if ord.toNat ≥ s.inputIDs.length then s
  else { s with inputIDs := s.inputIDs.set ord.toNat id }

/-- The loop body of `MapTx` on the entry `e` with key `id`. -/
def mapTxEntry (s : MapTxState) (id : Hash) (e : Entry) : Except Panic MapTxState :=
  match e with
  | .issuance e => .ok (s.setInputID e.ordinal id)
  | .spend e => do
      let spentOutputId ← orPanic .nilDereference e.spentOutputId
      let destination ← orPanic .nilDereference e.witnessDestination
      let value ← orPanic .nilDereference destination.value
      let assetId ← orPanic .nilDereference value.assetId
      let s := { s with
        spentOutputIDs := s.spentOutputIDs.insert spentOutputId
        gasInputIDs := if assetId = btmAssetID then s.gasInputIDs ++ [id] else s.gasInputIDs }
      .ok (s.setInputID e.ordinal id)
  -- A coinbase entry has no ordinal.
  | .coinbase _ => .ok (s.setInputID 0 id)
  | _ => .ok s

/-- The loop of `MapTx`. A key of the map points to an entry of its heap. -/
def mapTxLoop (heap : List Entry) :
    List (Sigma fun _ : Hash => Nat) → MapTxState → Except Panic MapTxState
  | [], s => .ok s
  | ⟨id, p⟩ :: rest, s => do
      let e ← orPanic .nilDereference heap[p]?
      let s ← mapTxEntry s id e
      mapTxLoop heap rest s

/-- The orders in which `MapTx` iterates over its two maps. -/
structure MapTxOrders where
  entries : IterOrder (Sigma fun _ : Hash => Nat)
  spentOutputIDs : IterOrder Hash

section
variable (api : EntryApi) (sha3 : List UInt8 → FixedBytes 32) (orders : MapTxOrders)

/-- `MapTx`. -/
def MapTx (oldTx : TxData) : Except Panic Bc.Tx := do
  let (txID, txHeader, entries) ← mapTx api sha3 oldTx
  let s ← mapTxLoop entries.heap (orders.entries.apply entries.index.entries)
    ⟨List.replicate oldTx.inputs.length Hash.zero, [], []⟩
  pure ⟨txHeader, txID, entries, s.inputIDs, orders.spentOutputIDs.apply s.spentOutputIDs,
    s.gasInputIDs⟩

/-- `types.Tx`. -/
structure Tx where
  txData : TxData
  tx : Bc.Tx

/-- `NewTx` -/
def newTx (data : TxData) : Except Panic Tx := do
  let tx ← MapTx api sha3 orders data
  pure ⟨data, tx⟩

end

end BtmStats.Spec.Types
