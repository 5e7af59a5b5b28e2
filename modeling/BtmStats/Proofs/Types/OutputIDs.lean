import BtmStats.Proofs.Types.InputIDs

/-!
# `BtmStats.Proofs.Types.OutputIDs`: an output and the input that spends it

`mapTx` builds the entry of an output twice: from the output list of the transaction that
creates it, and from the commitment of an input that spends it. The ID of the first is a
`ResultId`, the ID of the second a `SpentOutputId`.

`spentOutputId_eq_resultId_iff` says when they are the same ID: exactly when the input was
built with the mux of the creating transaction as source, the position of the output, and
its asset, amount and control program.
-/

set_option autoImplicit false

namespace BtmStats.Proofs.Types

open Lib Spec Spec.Bc Spec.Types

section
variable {api : EntryApi} {sha3 : List UInt8 → FixedBytes 32}

/-! ### The results -/

theorem resultEntries_eq_mapIdx (muxID : Hash) (outs : List TxOutput) :
    resultEntries api muxID 0 outs = outs.mapIdx (mapResult api muxID) := by
  rw [eq_mapIdx_of_cons (f := resultEntries api muxID) (fun _ => rfl) (fun _ _ _ => rfl)]
  simp only [Nat.zero_add]

variable {tx : TxData} {out : TxOutput}

/-- The result of an output has its place among the results. -/
theorem getElem?_resultsOf {i : Nat} (hout : tx.outputs[i]? = some out) :
    (resultsOf api sha3 tx)[i]? = some (mapResult api (muxIDOf api sha3 tx) i out) := by
  rw [resultsOf, resultEntries_eq_mapIdx, List.getElem?_mapIdx, hout]
  rfl

theorem mapResult_mem {i : Nat} (hout : tx.outputs[i]? = some out) :
    mapResult api (muxIDOf api sha3 tx) i out ∈ addedEntries api sha3 tx :=
  mem_addedEntries_iff.mpr (.inr (.inr (.inl (List.mem_of_getElem? (getElem?_resultsOf hout)))))

/-- The header has the ID of the result of each output. -/
theorem MapTxResult.getElem?_resultIds (doc : api.Documented) {x : Hash × TxHeader × EntryMap}
    (h : MapTxResult api sha3 tx x) {i : Nat} (hout : tx.outputs[i]? = some out) :
    x.2.1.resultIds[i]? =
      some (some (api.entryID (mapResult api (muxIDOf api sha3 tx) i out))) := by
  rw [h.header_eq, headerOf, doc.newTxHeader_eq, List.getElem?_map, getElem?_resultsOf hout]
  rfl

/-! ### The spends -/

/-- A spend keeps all but its destination. -/
theorem linked_spend (doc : api.Documented) {sp : Spend} {e : Entry}
    (h : Linked api sha3 tx (.spend sp) e) :
    ∃ dest, e = .spend { sp with witnessDestination := some dest } := by
  obtain ⟨inp, -, -, rfl⟩ := h
  rw [doc.setSpendDestination_eq]
  exact ⟨_, rfl⟩

/-- The entry of a spend input. With different IDs for different inputs it is also what
the map has under its ID. -/
theorem MapTxResult.spend (doc : api.Documented) {x : Hash × TxHeader × EntryMap}
    (h : MapTxResult api sha3 tx x) {k : Nat} {input : TxInput} {inp : SpendInput}
    (hk : tx.inputs[k]? = some input) (ht : input.typedInput = some (.spend inp)) :
    ∃ p dest, x.2.2.heap[p]? =
        some (.spend { mapSpend api k inp with witnessDestination := some dest }) ∧
      (DistinctInputIDs api sha3 tx →
        x.2.2.index.lookup (api.entryID (.spend (mapSpend api k inp))) = some p) := by
  have hentry : inputEntry api sha3 k input = some (.spend (mapSpend api k inp)) := by
    rw [inputEntry, ht]
  by_cases hids : DistinctInputIDs api sha3 tx
  · obtain ⟨p, e, hlookup, -, he, hlinked⟩ := h.lookup_inputEntry doc hids hk hentry
    obtain ⟨dest, rfl⟩ := linked_spend doc hlinked
    exact ⟨p, dest, he, fun _ => hlookup⟩
  · have hmem : Entry.spend (mapSpend api k inp) ∈ addedEntries api sha3 tx :=
      mem_addedEntries_iff.mpr (.inl (inputEntry_mem hk hentry))
    obtain ⟨p, hp⟩ := List.mem_iff_getElem?.mp hmem
    obtain ⟨e, he, hlinked⟩ := h.linked p _ hp
    obtain ⟨dest, rfl⟩ := linked_spend doc hlinked
    exact ⟨p, dest, he, fun hids' => absurd hids' hids⟩

/-! ### Creation and spending -/

variable (api sha3) in
/-- What is assumed of `EntryID` on the outputs of two transactions: it does not depend on
the ordinal, and different sources or control programs give different IDs. -/
structure OutputIDs (tx tx' : TxData) : Prop where
  ordinal_free : ∀ (o : Output) (n : UInt64),
    api.entryID (.output { o with ordinal := n }) = api.entryID (.output o)
  inj : ∀ o o' : Output,
    .output o ∈ addedEntries api sha3 tx ++ addedEntries api sha3 tx' →
    .output o' ∈ addedEntries api sha3 tx ++ addedEntries api sha3 tx' →
    api.entryID (.output o) = api.entryID (.output o') →
      o.source = o'.source ∧ o.controlProgram = o'.controlProgram

/-- The entry of a spendable output. -/
def spendable (sourceID : Hash) (value : AssetAmount) (sourcePos : UInt64)
    (controlProgram : List UInt8) (ordinal : UInt64) : Output :=
  ⟨some ⟨some sourceID, some value, sourcePos⟩, some ⟨1, controlProgram⟩, ordinal⟩

/-- Two spendable outputs have one ID exactly when they differ in the ordinal at most. -/
theorem OutputIDs.spendable_eq_iff {tx' : TxData} (hids : OutputIDs api sha3 tx tx')
    {sourceID sourceID' : Hash} {value value' : AssetAmount} {sourcePos sourcePos' : UInt64}
    {controlProgram controlProgram' : List UInt8} {ordinal ordinal' : UInt64}
    (hmem : .output (spendable sourceID value sourcePos controlProgram ordinal) ∈ addedEntries api
      sha3 tx ++ addedEntries api sha3 tx')
    (hmem' : .output (spendable sourceID' value' sourcePos' controlProgram' ordinal') ∈ addedEntries
      api sha3 tx ++ addedEntries api sha3 tx') :
    api.entryID (.output (spendable sourceID value sourcePos controlProgram ordinal)) =
        api.entryID (.output (spendable sourceID' value' sourcePos' controlProgram' ordinal')) ↔
      sourceID = sourceID' ∧ value = value' ∧ sourcePos = sourcePos' ∧
        controlProgram = controlProgram' := by
  constructor
  · intro hid
    obtain ⟨hsource, hprogram⟩ := hids.inj _ _ hmem hmem' hid
    simp only [spendable, Option.some.injEq, ValueSource.mk.injEq, Program.mk.injEq]
      at hsource hprogram
    exact ⟨hsource.1, hsource.2.1, hsource.2.2, hprogram.2⟩
  · rintro ⟨rfl, rfl, rfl, rfl⟩
    exact hids.ordinal_free (spendable sourceID value sourcePos controlProgram ordinal') ordinal

theorem assetAmount_eq_iff {value : AssetAmount} {assetID assetID' : AssetID} {amount : UInt64}
    (hasset : value.assetId = some assetID) :
    (⟨some assetID', amount⟩ : AssetAmount) = value ↔
      assetID' = assetID ∧ amount = value.amount := by
  obtain ⟨_, _⟩ := value
  cases hasset
  rw [AssetAmount.mk.injEq, Option.some.injEq]

/-- The entry that is created for an output that can be spent. -/
theorem mapResult_eq_spendable (doc : api.Documented) (muxID : Hash) (i : Nat)
    (hvm : out.outputCommitment.vmVersion = 1)
    (hspendable : api.isUnspendable out.outputCommitment.controlProgram = false) :
    mapResult api muxID i out = .output (spendable muxID out.outputCommitment.assetAmount
      (UInt64.ofNat i) out.outputCommitment.controlProgram (UInt64.ofNat i)) := by
  rw [mapResult, if_neg (by rw [hspendable]; exact Bool.false_ne_true), doc.newOutput_eq, hvm]
  rfl

/-- The entry that an input of `NewSpendInput` spends. -/
theorem mapPrevout_eq_spendable (doc : api.Documented) (arguments : List (List UInt8))
    (value : AssetAmount) (sourceID : Hash) (sourcePos : UInt64) (controlProgram : List UInt8) :
    mapPrevout api ⟨[], arguments, ⟨value, sourceID, sourcePos, 1, controlProgram⟩⟩ =
      spendable sourceID value sourcePos controlProgram 0 := by
  rw [mapPrevout, doc.newOutput_eq]
  rfl

/-- Outputs and their spends across transactions. The spend entry of an input names the result of
an output of another transaction exactly when the input names the mux of that transaction, the
position of the output, and its asset, amount and program. It needs no collision of the IDs of the
entries concerned. -/
theorem spentOutputId_eq_resultId_iff (doc : api.Documented) {tx spender : TxData}
    (hids : OutputIDs api sha3 tx spender) {x y : Hash × TxHeader × EntryMap}
    (hx : mapTx api sha3 tx = .ok x) (hy : mapTx api sha3 spender = .ok y)
    {i : Nat} {out : TxOutput} {assetID : AssetID} (hout : tx.outputs[i]? = some out)
    (hvm : out.outputCommitment.vmVersion = 1)
    (hspendable : api.isUnspendable out.outputCommitment.controlProgram = false)
    (hasset : out.outputCommitment.assetAmount.assetId = some assetID)
    {k : Nat} {arguments : List (List UInt8)} {sourceID : Hash} {assetID' : AssetID}
    {amount sourcePos : UInt64} {controlProgram : List UInt8}
    (hk : spender.inputs[k]? =
      some (newSpendInput arguments sourceID assetID' amount sourcePos controlProgram)) :
    ∃ resultID p spend, x.2.1.resultIds[i]? = some (some resultID) ∧
      y.2.2.heap[p]? = some (.spend spend) ∧ spend.ordinal = UInt64.ofNat k ∧
      spend.witnessArguments = arguments ∧
      (DistinctInputIDs api sha3 spender → ∃ id, y.2.2.index.lookup id = some p) ∧
      (spend.spentOutputId = some resultID ↔
        sourceID = muxIDOf api sha3 tx ∧ sourcePos = UInt64.ofNat i ∧ assetID' = assetID ∧
          amount = out.outputCommitment.assetAmount.amount ∧
          controlProgram = out.outputCommitment.controlProgram) := by
  have hresult := mapTx_result doc hx
  -- The two entries: what was created, and what is spent.
  have hcreated := mapResult_eq_spendable doc (muxIDOf api sha3 tx) i hvm hspendable
  have hmem : mapResult api (muxIDOf api sha3 tx) i out ∈ addedEntries api sha3 tx :=
    mapResult_mem hout
  rw [hcreated] at hmem
  have hprevout := mapPrevout_eq_spendable doc arguments ⟨some assetID', amount⟩ sourceID sourcePos
    controlProgram
  have hmem' : Entry.output (spendable sourceID ⟨some assetID', amount⟩ sourcePos controlProgram 0)
      ∈ addedEntries api sha3 spender :=
    mem_addedEntries_iff.mpr (.inl
      (output_mem_inputsEntries.mpr ⟨_, ⟨_, List.mem_of_getElem? hk, rfl⟩, hprevout.symm⟩))
  obtain ⟨p, dest, hspend, hlookup⟩ := (mapTx_result doc hy).spend doc hk rfl
  refine ⟨_, p, _, hresult.getElem?_resultIds doc hout, hspend, ?_, ?_, ?_, ?_⟩
  · rw [mapSpend, doc.newSpend_eq]
  · rw [mapSpend, doc.newSpend_eq]
  · exact fun hdistinct => ⟨_, hlookup hdistinct⟩
  · have hspent : (mapSpend api k ⟨[], arguments,
        ⟨⟨some assetID', amount⟩, sourceID, sourcePos, 1, controlProgram⟩⟩).spentOutputId =
          some (api.entryID (.output
            (spendable sourceID ⟨some assetID', amount⟩ sourcePos controlProgram 0))) := by
      rw [mapSpend, doc.newSpend_eq, hprevout]
    rw [hspent, hcreated, Option.some.injEq, hids.spendable_eq_iff
      (List.mem_append_right _ hmem') (List.mem_append_left _ hmem), assetAmount_eq_iff hasset]
    constructor
    · rintro ⟨hsourceID, ⟨hassetID, hamount⟩, hpos, hprogram⟩
      exact ⟨hsourceID, hpos, hassetID, hamount, hprogram⟩
    · rintro ⟨hsourceID, hpos, hassetID, hamount, hprogram⟩
      exact ⟨hsourceID, ⟨hassetID, hamount⟩, hpos, hprogram⟩

end

/-! ### A payment -/

/-- An ID that depends on the source of an output, and not on ordinals and witnesses. -/
def bodyID : Entry → Hash
  | .txHeader _ => ⟨0, 0, 0, 0⟩
  | .mux _ => ⟨1, 0, 0, 0⟩
  | .coinbase e => ⟨2, (e.arbitrary.headD 0).toUInt64, 0, 0⟩
  | .output e => ⟨3, sourceWord e.source, sourceAmount e.source, sourcePosition e.source⟩
  | .retirement e => ⟨4, sourceWord e.source, sourceAmount e.source, sourcePosition e.source⟩
  | .issuance e => ⟨5, (e.nonceHash.map (·.v0)).getD 0, 0, 0⟩
  | .spend e => ⟨6, (e.spentOutputId.map (·.v1)).getD 0, (e.spentOutputId.map (·.v2)).getD 0, 0⟩
where
  sourceWord (source : Option ValueSource) : UInt64 := ((source.bind (·.ref)).map (·.v0)).getD 0
  sourceAmount (source : Option ValueSource) : UInt64 :=
    ((source.bind (·.value)).map (·.amount)).getD 0
  sourcePosition (source : Option ValueSource) : UInt64 := (source.map (·.position)).getD 0

def bodyApi : EntryApi := { tagApi with entryID := bodyID }

theorem bodyApi_documented : bodyApi.Documented :=
  { tagApi_documented with
    entryID_kind := fun _ _ e _ e' _ h => by
      cases e <;> cases e' <;> simp_all [bodyApi, bodyID, entryKind] }

/-- A coinbase with one output, and a transaction whose second input spends the output. -/
def mintTx : TxData := ⟨1, 0, 0, [coinbaseInput], [newTxOutput ⟨Hash.zero⟩ 5 [1]]⟩

def payTx : TxData :=
  ⟨1, 0, 0, [spendInput, newSpendInput [[7]] ⟨1, 0, 0, 0⟩ ⟨Hash.zero⟩ 5 0 [1]], []⟩

/-- The part of an output that its ID must depend on. -/
def outputBody : Entry → Option (Option ValueSource × Option Program)
  | .output o => some (o.source, o.controlProgram)
  | _ => none

theorem outputIDs_mintTx_payTx : OutputIDs bodyApi zeroSha3 mintTx payTx where
  ordinal_free _ _ := rfl
  inj o o' ho ho' hid := by
    have hall : ∀ e ∈ addedEntries bodyApi zeroSha3 mintTx ++ addedEntries bodyApi zeroSha3 payTx,
        ∀ e' ∈ addedEntries bodyApi zeroSha3 mintTx ++ addedEntries bodyApi zeroSha3 payTx,
          bodyID e = bodyID e' → outputBody e = outputBody e' := by
      decide
    exact Prod.mk.inj (Option.some.inj (hall _ ho _ ho' hid))

/-- The second input of one transaction spends the first output of the other. -/
theorem payTx_spends_mintTx : ∃ (x y : Hash × TxHeader × EntryMap) (resultID : Hash) (p : Nat)
    (spend : Spend), mapTx bodyApi zeroSha3 mintTx = .ok x ∧ mapTx bodyApi zeroSha3 payTx = .ok y ∧
      x.2.1.resultIds[0]? = some (some resultID) ∧ y.2.2.heap[p]? = some (.spend spend) ∧
      spend.spentOutputId = some resultID := by
  obtain ⟨x, hx⟩ : ∃ x, mapTx bodyApi zeroSha3 mintTx = .ok x := ⟨_, rfl⟩
  obtain ⟨y, hy⟩ : ∃ y, mapTx bodyApi zeroSha3 payTx = .ok y := ⟨_, rfl⟩
  obtain ⟨resultID, p, spend, hresult, hspend, -, -, -, hiff⟩ :=
    spentOutputId_eq_resultId_iff bodyApi_documented outputIDs_mintTx_payTx hx hy
      (i := 0) (k := 1) rfl rfl rfl rfl rfl
  exact ⟨x, y, resultID, p, spend, hx, hy, hresult, hspend,
    hiff.mpr ⟨by decide, rfl, rfl, rfl, rfl⟩⟩

end BtmStats.Proofs.Types
