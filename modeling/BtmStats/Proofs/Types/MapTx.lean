import BtmStats.Proofs.Types.Map

/-!
# `BtmStats.Proofs.Types.MapTx`: when `mapTx` returns, and what

The loops of `mapTx` put together. `mapTx_ok_iff` is the exact condition under which
`mapTx` returns. `mapTx_result` describes the map that it returns: which entries were
added (`addedEntries`), and what each of them has become (`Linked`).
-/

set_option autoImplicit false

namespace BtmStats.Proofs.Types

open Lib Spec Spec.Bc Spec.Types

section
variable (api : EntryApi) (sha3 : List UInt8 → FixedBytes 32)

/-- The mux as it is added. -/
def muxOf (tx : TxData) : Mux :=
  api.newMux (inputsSources api sha3 tx 0 tx.inputs) ⟨1, [api.opTrue]⟩

def muxIDOf (tx : TxData) : Hash := api.entryID (.mux (muxOf api sha3 tx))

/-- The entries of the outputs. -/
def resultsOf (tx : TxData) : List Entry := resultEntries api (muxIDOf api sha3 tx) 0 tx.outputs

def headerOf (tx : TxData) : TxHeader :=
  api.newTxHeader tx.version tx.serializedSize tx.timeRange
    ((resultsOf api sha3 tx).map (some ∘ api.entryID))

/-- The entries of the inputs and the mux. -/
def inputSide (tx : TxData) : List Entry :=
  inputsEntries api sha3 0 tx.inputs ++ [.mux (muxOf api sha3 tx)]

/-- All entries that `mapTx` adds, in order and as they are added. -/
def addedEntries (tx : TxData) : List Entry :=
  inputSide api sha3 tx ++ resultsOf api sha3 tx ++ [.txHeader (headerOf api sha3 tx)]

end

end BtmStats.Proofs.Types

namespace BtmStats.Spec.Types

open Spec.Bc
open Proofs.Types (addedEntries)

/-- The documented behaviour of the missing functions: a constructor stores its
arguments, `SetDestination` sets the destination and nothing else, and entries of one
transaction that are of different types have different IDs. -/
structure EntryApi.Documented (api : EntryApi) : Prop where
  newIssuance_eq : ∀ nonceHash value ordinal, api.newIssuance nonceHash value ordinal =
    ⟨some nonceHash, some value, none, none, [], ordinal⟩
  newOutput_eq : ∀ source controlProgram ordinal,
    api.newOutput source controlProgram ordinal = ⟨some source, some controlProgram, ordinal⟩
  newSpend_eq : ∀ spentOutputID ordinal,
    api.newSpend spentOutputID ordinal = ⟨some spentOutputID, none, [], ordinal⟩
  newCoinbase_eq : ∀ arbitrary, api.newCoinbase arbitrary = ⟨none, arbitrary⟩
  newMux_eq : ∀ sources program, api.newMux sources program = ⟨sources, some program, [], []⟩
  newRetirement_eq : ∀ source ordinal, api.newRetirement source ordinal = ⟨some source, ordinal⟩
  newTxHeader_eq : ∀ version size timeRange resultIDs,
    api.newTxHeader version size timeRange resultIDs = ⟨version, size, timeRange, resultIDs⟩
  setSpendDestination_eq : ∀ s id val pos,
    api.setSpendDestination s id val pos = { s with witnessDestination := some ⟨some id, val, pos⟩ }
  setIssuanceDestination_eq : ∀ iss id val pos, api.setIssuanceDestination iss id val pos =
    { iss with witnessDestination := some ⟨some id, val, pos⟩ }
  setCoinbaseDestination_eq : ∀ c id val pos, api.setCoinbaseDestination c id val pos =
    { c with witnessDestination := some ⟨some id, val, pos⟩ }
  entryID_kind : ∀ sha3 tx, ∀ e ∈ addedEntries api sha3 tx, ∀ e' ∈ addedEntries api sha3 tx,
    api.entryID e = api.entryID e' → entryKind e = entryKind e'

end BtmStats.Spec.Types

namespace BtmStats.Proofs.Types

open Lib Spec Spec.Bc Spec.Types

section
variable (api : EntryApi) (sha3 : List UInt8 → FixedBytes 32)

variable {tx : TxData} {e : Entry} {s : InputsState} {m : EntryMap} {muxID : Hash}
  {added : List Entry} {x : Hash × TxHeader × EntryMap}

variable {api sha3} in
/-- An added entry comes from an input, is the mux, comes from an output, or is the header. -/
theorem mem_addedEntries_iff :
    e ∈ addedEntries api sha3 tx ↔
      e ∈ inputsEntries api sha3 0 tx.inputs ∨ e = .mux (muxOf api sha3 tx) ∨
        e ∈ resultsOf api sha3 tx ∨ e = .txHeader (headerOf api sha3 tx) := by
  simp only [addedEntries, inputSide, List.mem_append, List.mem_singleton, or_assoc]

variable {api sha3} in
theorem mem_addedEntries_of_inputSide (h : e ∈ inputSide api sha3 tx) :
    e ∈ addedEntries api sha3 tx := List.mem_append_left _ (List.mem_append_left _ h)

/-- What an added entry has become when `mapTx` returns. A spend gets the value of a
prevout with the ID that it spends. Of several coinbases only one is connected. -/
def Linked (tx : TxData) : Entry → Entry → Prop
  | .spend sp, e => ∃ inp, SpendInputOf tx inp ∧
      sp.spentOutputId = some (api.entryID (.output (mapPrevout api inp))) ∧
      e = .spend (api.setSpendDestination sp (muxIDOf api sha3 tx)
        (some inp.spendCommitment.assetAmount) sp.ordinal)
  | .issuance iss, e =>
    e = .issuance (api.setIssuanceDestination iss (muxIDOf api sha3 tx) iss.value iss.ordinal)
  | .coinbase c, e => e = .coinbase c ∨
      ∃ value, e = .coinbase (api.setCoinbaseDestination c (muxIDOf api sha3 tx) value 0)
  | .mux m, e =>
    let dests := resultDestinations api (muxIDOf api sha3 tx) 0 tx.outputs
    e = .mux { m with witnessDestinations := m.witnessDestinations ++ dests }
  | added, e => e = added

/-- What `mapTx` returns. -/
structure MapTxResult (tx : TxData) (x : Hash × TxHeader × EntryMap) : Prop where
  id_eq : x.1 = api.entryID (.txHeader (headerOf api sha3 tx))
  header_eq : x.2.1 = headerOf api sha3 tx
  adds : x.2.2.Adds api.entryID (addedEntries api sha3 tx)
  linked : ∀ (p : Nat) e, (addedEntries api sha3 tx)[p]? = some e →
    ∃ e', x.2.2.heap[p]? = some e' ∧ Linked api sha3 tx e e'

variable {api sha3}

/-! ### The inputs and the mux -/

/-- What connecting makes of an entry. -/
def connectEntry (api : EntryApi) (m : EntryMap) (muxID : Hash) : Entry → Entry
  | .spend sp => .spend (api.setSpendDestination sp muxID (spentValue m sp) sp.ordinal)
  | .issuance iss => .issuance (api.setIssuanceDestination iss muxID iss.value iss.ordinal)
  | e => e

/-- A write of a spend is made from the spend at its place. -/
theorem mem_spendWrites (h : InputsInv api s added) {q : Nat}
    (he : (q, e) ∈ s.spends.map (spendWrite api m muxID)) :
    ∃ sp, added[q]? = some (.spend sp) ∧ e = connectEntry api m muxID (.spend sp) := by
  obtain ⟨⟨p, sp⟩, hmem, heq⟩ := List.mem_map.mp he
  obtain ⟨rfl, rfl⟩ := Prod.mk.inj heq
  exact ⟨sp, (h.mem_spends p sp).mp hmem, rfl⟩

/-- A write of an issuance is made from the issuance at its place. -/
theorem mem_issuanceWrites (h : InputsInv api s added) (m : EntryMap) {q : Nat}
    (he : (q, e) ∈ s.issuances.map (issuanceWrite api muxID)) :
    ∃ iss, added[q]? = some (.issuance iss) ∧ e = connectEntry api m muxID (.issuance iss) := by
  obtain ⟨⟨p, iss⟩, hmem, heq⟩ := List.mem_map.mp he
  obtain ⟨rfl, rfl⟩ := Prod.mk.inj heq
  exact ⟨iss, (h.mem_issuances p iss).mp hmem, rfl⟩

/-- The writes of all spends and all issuances connect every entry. -/
theorem writeAll_connect (h : InputsInv api s added) (mux : Mux) (m : EntryMap) (muxID : Hash) :
    writeAll (writeAll (added ++ [Entry.mux mux]) (s.spends.map (spendWrite api m muxID)))
        (s.issuances.map (issuanceWrite api muxID)) =
      (added ++ [Entry.mux mux]).map (connectEntry api m muxID) := by
  -- Place by place: a spend, an issuance, or neither.
  apply List.ext_getElem?
  intro q
  rw [List.getElem?_map]
  by_cases hsp : ∃ sp, added[q]? = some (.spend sp)
  · obtain ⟨sp, hq⟩ := hsp
    have hlt : q < added.length := (List.getElem?_eq_some_iff.mp hq).1
    have hget : (added ++ [Entry.mux mux])[q]? = some (.spend sp) :=
      getElem?_concat_eq_some.mpr (.inl hq)
    rw [getElem?_writeAll_of_ne, hget, Option.map_some]
    · -- All writes to the place are made from the spend that stands there.
      refine getElem?_writeAll_of_agree _ _ (by simp; omega)
        ⟨_, List.mem_map.mpr ⟨(q, sp), (h.mem_spends q sp).mpr hq, rfl⟩⟩ fun e he => ?_
      obtain ⟨sp', hq', rfl⟩ := mem_spendWrites h he
      rw [hq] at hq'
      rw [Entry.spend.inj (Option.some.inj hq')]
    · rintro ⟨p, e⟩ he rfl
      obtain ⟨iss, hq', -⟩ := mem_issuanceWrites h m he
      simp [hq] at hq'
  · by_cases hiss : ∃ iss, added[q]? = some (.issuance iss)
    · obtain ⟨iss, hq⟩ := hiss
      have hlt : q < added.length := (List.getElem?_eq_some_iff.mp hq).1
      have hget : (added ++ [Entry.mux mux])[q]? = some (.issuance iss) :=
        getElem?_concat_eq_some.mpr (.inl hq)
      rw [hget, Option.map_some]
      refine getElem?_writeAll_of_agree _ _ (by simp; omega)
        ⟨_, List.mem_map.mpr ⟨(q, iss), (h.mem_issuances q iss).mpr hq, rfl⟩⟩ fun e he => ?_
      obtain ⟨iss', hq', rfl⟩ := mem_issuanceWrites h m he
      rw [hq] at hq'
      rw [Entry.issuance.inj (Option.some.inj hq')]
    · -- Nothing writes to the other entries.
      rw [getElem?_writeAll_of_ne, getElem?_writeAll_of_ne]
      · cases hq : (added ++ [Entry.mux mux])[q]? with
        | none => rfl
        | some e =>
          have he : connectEntry api m muxID e = e := by
            rcases getElem?_concat_eq_some.mp hq with hq | ⟨-, rfl⟩
            · cases e with
              | spend sp => exact absurd ⟨sp, hq⟩ hsp
              | issuance iss => exact absurd ⟨iss, hq⟩ hiss
              | _ => rfl
            · rfl
          rw [Option.map_some, he]
      · rintro ⟨p, e⟩ he rfl
        obtain ⟨sp, hq, -⟩ := mem_spendWrites h he
        exact hsp ⟨sp, hq⟩
      · rintro ⟨p, e⟩ he rfl
        obtain ⟨iss, hq, -⟩ := mem_issuanceWrites h m he
        exact hiss ⟨iss, hq⟩

/-- The loop over the inputs, from the start. -/
theorem mapInputs_run (hs : mapInputs api sha3 tx 0 tx.inputs ⟨.empty, [], [], none, []⟩ = .ok s) :
    InputsInv api s (inputsEntries api sha3 0 tx.inputs) ∧
      s.muxSources = inputsSources api sha3 tx 0 tx.inputs := by
  have hinit : InputsInv api ⟨.empty, [], [], none, []⟩ [] :=
    ⟨rfl, Arena.Adds.empty, by simp, by simp, by simp, by simp⟩
  exact mapInputs_inv tx.inputs 0 _ s [] hinit hs

/-- With the inputs and the mux in the map, the ID of a prevout leads to a prevout.
It can be another one with the same ID, but not an entry of another type. -/
theorem find?_prevout (doc : api.Documented) (hheap : m.heap = inputSide api sha3 tx)
    (hadds : m.Adds api.entryID (inputSide api sha3 tx)) {inp : SpendInput}
    (h : SpendInputOf tx inp) :
    ∃ inp', SpendInputOf tx inp' ∧
      api.entryID (.output (mapPrevout api inp)) = api.entryID (.output (mapPrevout api inp')) ∧
      m.find? (api.entryID (.output (mapPrevout api inp))) =
        some (.output (mapPrevout api inp')) := by
  have hmem : Entry.output (mapPrevout api inp) ∈ inputSide api sha3 tx :=
    List.mem_append_left _ (output_mem_inputsEntries.mpr ⟨inp, h, rfl⟩)
  obtain ⟨q, hq⟩ := Option.isSome_iff_exists.mp (AList.lookup_isSome.mpr (hadds.mem_index hmem))
  obtain ⟨e, he, hid⟩ := hadds.of_lookup hq
  -- The index may have a later entry for the ID. The ID commits to the type, so it is an
  -- output, and the outputs on the input side are prevouts.
  have hkind : entryKind e = .output := doc.entryID_kind sha3 tx _
    (mem_addedEntries_of_inputSide (List.mem_of_getElem? he)) _
    (mem_addedEntries_of_inputSide hmem) hid
  cases e with
  | output o =>
    have ho : Entry.output o ∈ inputsEntries api sha3 0 tx.inputs := by
      rcases List.mem_append.mp (List.mem_of_getElem? he) with ho | ho
      · exact ho
      · simp at ho
    obtain ⟨inp', hinp', rfl⟩ := output_mem_inputsEntries.mp ho
    refine ⟨inp', hinp', hid.symm, Option.bind_eq_some_iff.mpr ⟨q, hq, ?_⟩⟩
    rw [hheap]
    exact he
  | _ => simp [entryKind] at hkind

/-- The value that a spend is connected with. -/
theorem spentValue_eq (doc : api.Documented) (hheap : m.heap = inputSide api sha3 tx)
    (hadds : m.Adds api.entryID (inputSide api sha3 tx)) {sp : Spend}
    (h : Entry.spend sp ∈ inputsEntries api sha3 0 tx.inputs) :
    ∃ inp, SpendInputOf tx inp ∧
      sp.spentOutputId = some (api.entryID (.output (mapPrevout api inp))) ∧
      sp.spentOutputId.bind m.find? = some (.output (mapPrevout api inp)) ∧
      spentValue m sp = some inp.spendCommitment.assetAmount := by
  obtain ⟨k, inp, hinp, rfl⟩ := spend_mem_inputsEntries h
  obtain ⟨inp', hinp', hid, hfind⟩ := find?_prevout doc hheap hadds hinp
  have hspent : (mapSpend api k inp).spentOutputId =
      some (api.entryID (.output (mapPrevout api inp))) := by
    rw [mapSpend, doc.newSpend_eq]
  have hbind : (mapSpend api k inp).spentOutputId.bind m.find? =
      some (.output (mapPrevout api inp')) := by
    rw [hspent]
    exact hfind
  refine ⟨inp', hinp', by rw [hspent, hid], hbind, ?_⟩
  rw [spentValue, hbind, mapPrevout, doc.newOutput_eq]
  rfl

/-- The spends can be connected. -/
theorem connectable_spends (doc : api.Documented)
    (h : InputsInv api s (inputsEntries api sha3 0 tx.inputs)) :
    Connectable (addEntry api (.mux (muxOf api sha3 tx)) s.entryMap) s.spends := by
  have hheap : (addEntry api (.mux (muxOf api sha3 tx)) s.entryMap).heap =
      inputSide api sha3 tx := by
    rw [addEntry, Arena.add, h.heap_eq, inputSide]
  refine ⟨fun x hx => ?_, fun x hx => ?_⟩
  · exact ⟨x.2, by
      rw [hheap]
      exact getElem?_concat_eq_some.mpr (.inl ((h.mem_spends x.1 x.2).mp hx))⟩
  · have hmem := List.mem_of_getElem? ((h.mem_spends x.1 x.2).mp hx)
    obtain ⟨inp, -, hspent, hbind, -⟩ := spentValue_eq doc hheap (h.adds.add _) hmem
    rw [hspent] at hbind
    refine ⟨_, _, ⟨some inp.spendCommitment.sourceID, some inp.spendCommitment.assetAmount,
      inp.spendCommitment.sourcePosition⟩, hspent, hbind, ?_⟩
    rw [mapPrevout, doc.newOutput_eq]

/-- The map with the inputs and the mux, all spends and issuances connected. -/
def connectedMap (api : EntryApi) (sha3 : List UInt8 → FixedBytes 32) (tx : TxData)
    (s : InputsState) : EntryMap :=
  let m := addEntry api (.mux (muxOf api sha3 tx)) s.entryMap
  ⟨(inputSide api sha3 tx).map (connectEntry api m (muxIDOf api sha3 tx)), m.index⟩

/-- `mapTx` after the loop over the inputs: only the coinbase can still panic. -/
theorem mapTx_eq (doc : api.Documented)
    (hs : mapInputs api sha3 tx 0 tx.inputs ⟨.empty, [], [], none, []⟩ = .ok s) :
    mapTx api sha3 tx =
      (connectCoinbase api (muxIDOf api sha3 tx) (muxOf api sha3 tx) s.coinbase
        (connectedMap api sha3 tx s)).bind fun m =>
      let results := mapOutputs api (muxIDOf api sha3 tx) s.entryMap.next 0 tx.outputs
        (muxOf api sha3 tx) [] m
      let h := api.newTxHeader tx.version tx.serializedSize tx.timeRange results.1
      .ok (api.entryID (.txHeader h), h, addEntry api (.txHeader h) results.2) := by
  obtain ⟨hinv, hsources⟩ := mapInputs_run hs
  have hheap : (addEntry api (.mux (muxOf api sha3 tx)) s.entryMap).heap =
      inputsEntries api sha3 0 tx.inputs ++ [.mux (muxOf api sha3 tx)] := by
    rw [addEntry, Arena.add, hinv.heap_eq]
  have hmux : api.newMux s.muxSources ⟨1, [api.opTrue]⟩ = muxOf api sha3 tx := by
    rw [hsources, muxOf]
  rw [mapTx, hs]
  show ((connectSpends api _ s.spends _).bind _) = _
  -- The writes to the spends and the issuances add up to one map over the input side.
  rw [hmux, connectSpends_eq _ _ _ (connectable_spends doc hinv)]
  show ((connectCoinbase api _ _ s.coinbase (connectIssuances api _ s.issuances _)).bind _) = _
  rw [connectIssuances_eq, hheap, writeAll_connect hinv]
  rfl

/-- `mapTx` fails where the loop over the inputs does. -/
theorem mapTx_eq_error {err : Panic}
    (hs : mapInputs api sha3 tx 0 tx.inputs ⟨.empty, [], [], none, []⟩ = .error err) :
    mapTx api sha3 tx = .error err := by
  rw [mapTx, hs]
  rfl

/-- A `mapTx` that returns has passed both places where it can panic. -/
theorem mapTx_inv (doc : api.Documented) (hx : mapTx api sha3 tx = .ok x) :
    ∃ s m, mapInputs api sha3 tx 0 tx.inputs ⟨.empty, [], [], none, []⟩ = .ok s ∧
      connectCoinbase api (muxIDOf api sha3 tx) (muxOf api sha3 tx) s.coinbase
        (connectedMap api sha3 tx s) = .ok m ∧
      let results := mapOutputs api (muxIDOf api sha3 tx) s.entryMap.next 0 tx.outputs
        (muxOf api sha3 tx) [] m
      let h := api.newTxHeader tx.version tx.serializedSize tx.timeRange results.1
      x = (api.entryID (.txHeader h), h, addEntry api (.txHeader h) results.2) := by
  cases hs : mapInputs api sha3 tx 0 tx.inputs ⟨.empty, [], [], none, []⟩ with
  | error err =>
    rw [mapTx_eq_error hs] at hx
    cases hx
  | ok s =>
    rw [mapTx_eq doc hs] at hx
    cases hm : connectCoinbase api (muxIDOf api sha3 tx) (muxOf api sha3 tx) s.coinbase
        (connectedMap api sha3 tx s) with
    | error err =>
      rw [hm] at hx
      cases hx
    | ok m =>
      rw [hm] at hx
      exact ⟨s, m, rfl, hm, (Except.ok.inj hx).symm⟩

/-- The first mux source is there exactly when the first input is typed, given that a
coinbase comes with an output. -/
theorem head_sources_iff (hout : ∀ input ∈ tx.inputs, IsCoinbase input → tx.outputs ≠ []) :
    (∃ src, (inputsSources api sha3 tx 0 tx.inputs).head? = some (some src)) ↔
      ∃ first, tx.inputs.head? = some first ∧ first.typedInput ≠ none := by
  rcases hins : tx.inputs with _ | ⟨first, rest⟩
  · simp [inputsSources]
  · have hfirst : IsCoinbase first → tx.outputs ≠ [] := hout first (by simp [hins])
    simp only [inputsSources, List.head?_cons, Option.some.injEq, exists_eq_left']
    rw [inputSource]
    rcases ht : first.typedInput with _ | (inp | inp | inp)
    · simp
    · simp
    · simp
    · rcases houts : tx.outputs with _ | ⟨out, outs⟩
      · exact absurd houts (hfirst ⟨inp, ht⟩)
      · simp

variable (sha3) in
/-- `mapTx` returns exactly for the mappable transactions. The two places where it
can panic are `tx.Outputs[0]` and `mux.Sources[0].Value`. -/
theorem mapTx_ok_iff (doc : api.Documented) (tx : TxData) :
    (∃ x, mapTx api sha3 tx = .ok x) ↔ Mappable tx := by
  by_cases hout : ∀ input ∈ tx.inputs, IsCoinbase input → tx.outputs ≠ []
  · obtain ⟨s, hs⟩ := (mapInputs_ok_iff api sha3 tx tx.inputs 0
      ⟨.empty, [], [], none, []⟩).mpr hout
    obtain ⟨hinv, -⟩ := mapInputs_run hs
    have hcoinbase := coinbase_mem_inputsEntries api sha3 tx
    rcases hc : s.coinbase with _ | ⟨p, c⟩
    · -- No coinbase input: nothing can panic, and nothing is asked.
      have hno : ∀ input ∈ tx.inputs, ¬ IsCoinbase input := by
        intro input hmem hcb
        obtain ⟨c, hmem'⟩ := hcoinbase.mpr ⟨input, hmem, hcb⟩
        exact hinv.coinbase_none hc c hmem'
      constructor
      · exact fun _ input hmem hcb => absurd hcb (hno input hmem)
      · intro
        rw [mapTx_eq doc hs, hc]
        exact ⟨_, rfl⟩
    · -- A coinbase input: `mux.Sources[0].Value` is read, and the first source is that of the
      -- first input.
      obtain ⟨input₀, hmem₀, hcb₀⟩ :=
        hcoinbase.mp ⟨c, List.mem_of_getElem? (hinv.of_coinbase p c hc)⟩
      have hsources : (muxOf api sha3 tx).sources = inputsSources api sha3 tx 0 tx.inputs := by
        rw [muxOf, doc.newMux_eq]
      have hconnect := connectCoinbase_ok_iff api (muxIDOf api sha3 tx)
        (muxOf api sha3 tx) p c (connectedMap api sha3 tx s)
      rw [hsources, head_sources_iff hout] at hconnect
      constructor
      · rintro ⟨x, hx⟩ input hmem hcb
        obtain ⟨s', m, hs', hm, -⟩ := mapTx_inv doc hx
        obtain rfl := Except.ok.inj (hs.symm.trans hs')
        rw [hc] at hm
        exact ⟨hout input hmem hcb, hconnect.mp ⟨m, hm⟩⟩
      · intro hmap
        obtain ⟨m, hm⟩ := hconnect.mpr (hmap input₀ hmem₀ hcb₀).2
        rw [mapTx_eq doc hs, hc, hm]
        exact ⟨_, rfl⟩
  · constructor
    · rintro ⟨x, hx⟩
      obtain ⟨s, -, hs, -⟩ := mapTx_inv doc hx
      exact absurd ((mapInputs_ok_iff api sha3 tx tx.inputs 0 _).mp ⟨s, hs⟩) hout
    · intro hmap
      exact absurd (fun input hmem hcb => (hmap input hmem hcb).1) hout

/-- The coinbase is connected in place, or there is none. -/
theorem connectCoinbase_cases {mux : Mux} {coinbase : Option (Nat × Coinbase)} {m' : EntryMap}
    (h : connectCoinbase api muxID mux coinbase m = .ok m') :
    m' = m ∨ ∃ p c value, coinbase = some (p, c) ∧
      m' = m.set p (.coinbase (api.setCoinbaseDestination c muxID value 0)) := by
  rcases coinbase with _ | ⟨p, c⟩
  · injection h with h
    exact .inl h.symm
  · rcases hsrc : mux.sources.head? with _ | (_ | src)
    · simp [connectCoinbase, hsrc, bind, Except.bind] at h
    · simp [connectCoinbase, hsrc, bind, Except.bind] at h
    · simp [connectCoinbase, hsrc, bind, Except.bind] at h
      exact .inr ⟨p, c, src.value, rfl, h.symm⟩

/-- The entries of the inputs once all of them are connected. -/
theorem linked_connected (doc : api.Documented)
    (hinv : InputsInv api s (inputsEntries api sha3 0 tx.inputs))
    (hm : connectCoinbase api (muxIDOf api sha3 tx) (muxOf api sha3 tx) s.coinbase (connectedMap api
      sha3 tx s) = .ok m) {p : Nat} (he : (inputsEntries api sha3 0 tx.inputs)[p]? = some e) :
    ∃ e', m.heap[p]? = some e' ∧ Linked api sha3 tx e e' := by
  have hheap : (addEntry api (.mux (muxOf api sha3 tx)) s.entryMap).heap =
      inputSide api sha3 tx := by
    rw [addEntry, Arena.add, hinv.heap_eq, inputSide]
  have hconnected : (connectedMap api sha3 tx s).heap[p]? = some (connectEntry api
      (addEntry api (.mux (muxOf api sha3 tx)) s.entryMap) (muxIDOf api sha3 tx) e) := by
    rw [connectedMap, List.getElem?_map, inputSide, getElem?_concat_eq_some.mpr (.inl he)]
    rfl
  -- Where a write of the coinbase does not come in between, the entry is connected.
  have hlinked : (∀ c, e ≠ .coinbase c) → Linked api sha3 tx e (connectEntry api
      (addEntry api (.mux (muxOf api sha3 tx)) s.entryMap) (muxIDOf api sha3 tx) e) := by
    intro hne
    cases e with
    | spend sp =>
      obtain ⟨inp, hinp, hspent, -, hvalue⟩ :=
        spentValue_eq doc hheap (hinv.adds.add _) (List.mem_of_getElem? he)
      exact ⟨inp, hinp, hspent, by rw [connectEntry, hvalue]⟩
    | issuance iss => rfl
    | coinbase c => exact absurd rfl (hne c)
    | mux mux =>
      rcases inputsEntries_cases (List.mem_of_getElem? he) with ⟨_, _, h⟩ | ⟨_, _, _, h⟩
      · simp at h
      · rcases inputEntry_cases h with ⟨_, _, h⟩ | ⟨_, _, h⟩ | ⟨_, _, h⟩ <;> simp at h
    | txHeader h => rfl
    | output o => rfl
    | retirement r => rfl
  -- Only the place of the last coinbase is written once more.
  rcases connectCoinbase_cases hm with rfl | ⟨q, c, value, hc, rfl⟩
  · refine ⟨_, hconnected, ?_⟩
    cases e with
    | coinbase c => exact .inl rfl
    | _ => exact hlinked (by simp)
  · have hq : (inputsEntries api sha3 0 tx.inputs)[q]? = some (.coinbase c) :=
      hinv.of_coinbase q c hc
    by_cases hqp : q = p
    · subst hqp
      obtain rfl : Entry.coinbase c = e := Option.some.inj (hq.symm.trans he)
      refine ⟨_, getElem?_set_of_some hconnected _, ?_⟩
      exact .inr ⟨value, rfl⟩
    · refine ⟨_, (List.getElem?_set_ne hqp).trans hconnected, ?_⟩
      cases e with
      | coinbase c' => exact .inl rfl
      | _ => exact hlinked (by simp)

/-- A result is an output or a retirement. -/
theorem resultEntries_cases :
    ∀ (outs : List TxOutput) (i : Nat), e ∈ resultEntries api muxID i outs →
      (∃ o, e = .output o) ∨ ∃ r, e = .retirement r := by
  intro outs
  induction outs with
  | nil =>
    intro i h
    simp [resultEntries] at h
  | cons out rest ih =>
    intro i h
    rcases List.mem_cons.mp h with rfl | h
    · rw [mapResult]
      split
      · exact .inr ⟨_, rfl⟩
      · exact .inl ⟨_, rfl⟩
    · exact ih (i + 1) h

/-- A result stays as it was added. -/
theorem linked_of_result (h : e ∈ resultsOf api sha3 tx) : Linked api sha3 tx e e := by
  rcases resultEntries_cases _ _ h with ⟨o, rfl⟩ | ⟨r, rfl⟩
  · rfl
  · rfl

/-- The coinbase is connected in the map of the input side, and the mux is still as
it was added. -/
theorem connected_inputSide (hinv : InputsInv api s (inputsEntries api sha3 0 tx.inputs))
    (hm : connectCoinbase api (muxIDOf api sha3 tx) (muxOf api sha3 tx) s.coinbase (connectedMap api
      sha3 tx s) = .ok m) :
    m.Adds api.entryID (inputSide api sha3 tx) ∧
      m.heap[(inputsEntries api sha3 0 tx.inputs).length]? = some (.mux (muxOf api sha3 tx)) := by
  have hadds : (connectedMap api sha3 tx s).Adds api.entryID (inputSide api sha3 tx) :=
    ⟨by rw [connectedMap, List.length_map], (hinv.adds.add _).of_lookup,
      (hinv.adds.add _).mem_index⟩
  have hmux : (connectedMap api sha3 tx s).heap[(inputsEntries api sha3 0 tx.inputs).length]? =
      some (.mux (muxOf api sha3 tx)) := by
    rw [connectedMap, List.getElem?_map, inputSide, List.getElem?_concat_length]
    rfl
  rcases connectCoinbase_cases hm with rfl | ⟨q, c, value, hc, rfl⟩
  · exact ⟨hadds, hmux⟩
  · have hlt : q < (inputsEntries api sha3 0 tx.inputs).length :=
      (List.getElem?_eq_some_iff.mp (hinv.of_coinbase q c hc)).1
    exact ⟨hadds.set q _, (List.getElem?_set_ne (Nat.ne_of_lt hlt)).trans hmux⟩

/-- The heap after the loop over the outputs: the results stand behind the input
side, and the mux has its destinations. -/
theorem linked_results {heap : List Entry} (hlen : heap.length = (inputSide api sha3 tx).length)
    (hlinked : ∀ {p : Nat} {e}, (inputsEntries api sha3 0 tx.inputs)[p]? = some e → ∃ e', heap[p]? =
      some e' ∧ Linked api sha3 tx e e') {mux : Entry}
    (hmux : Linked api sha3 tx (.mux (muxOf api sha3 tx)) mux) {p : Nat}
    (he : (inputSide api sha3 tx ++ resultsOf api sha3 tx)[p]? = some e) :
    ∃ e', ((heap ++ resultsOf api sha3 tx).set
      (inputsEntries api sha3 0 tx.inputs).length mux)[p]? = some e' ∧
      Linked api sha3 tx e e' := by
  have hside : (inputSide api sha3 tx).length =
      (inputsEntries api sha3 0 tx.inputs).length + 1 := by
    rw [inputSide, List.length_append, List.length_singleton]
  by_cases hp : p < (inputSide api sha3 tx).length
  · rw [List.getElem?_append_left hp] at he
    rcases getElem?_concat_eq_some.mp he with he | ⟨rfl, rfl⟩
    · -- An entry of an input, in front of the mux.
      have hlt : p < (inputsEntries api sha3 0 tx.inputs).length :=
        (List.getElem?_eq_some_iff.mp he).1
      obtain ⟨e', he', hl⟩ := hlinked he
      refine ⟨e', ?_, hl⟩
      rw [List.getElem?_set_ne (by omega), List.getElem?_append_left (by omega), he']
    · exact ⟨mux, List.getElem?_set_self (by rw [List.length_append]; omega), hmux⟩
  · rw [List.getElem?_append_right (by omega)] at he
    -- A result, behind the mux.
    refine ⟨e, ?_, linked_of_result (List.mem_of_getElem? he)⟩
    rw [List.getElem?_set_ne (by omega), List.getElem?_append_right (by omega), hlen, he]

/-- The place of the mux in the heap: behind the entries of the inputs. -/
def muxPlace (api : EntryApi) (sha3 : List UInt8 → FixedBytes 32) (tx : TxData) : Nat :=
  (inputsEntries api sha3 0 tx.inputs).length

/-- The mux with a destination for each result. -/
def muxWithDestinations (api : EntryApi) (sha3 : List UInt8 → FixedBytes 32) (tx : TxData) : Mux :=
  { muxOf api sha3 tx with
    witnessDestinations := (muxOf api sha3 tx).witnessDestinations ++
      resultDestinations api (muxIDOf api sha3 tx) 0 tx.outputs }

/-- A call of `mapTx` that returns, step by step: the inputs, the coinbase, and the
outputs with the header. -/
theorem mapTx_steps (doc : api.Documented) (hx : mapTx api sha3 tx = .ok x) :
    ∃ s m, InputsInv api s (inputsEntries api sha3 0 tx.inputs) ∧
      connectCoinbase api (muxIDOf api sha3 tx) (muxOf api sha3 tx) s.coinbase
        (connectedMap api sha3 tx s) = .ok m ∧
      x.1 = api.entryID (.txHeader (headerOf api sha3 tx)) ∧ x.2.1 = headerOf api sha3 tx ∧
      x.2.2.Adds api.entryID (addedEntries api sha3 tx) ∧
      x.2.2.heap = (m.heap ++ resultsOf api sha3 tx).set (muxPlace api sha3 tx)
        (.mux (muxWithDestinations api sha3 tx)) ++ [.txHeader (headerOf api sha3 tx)] := by
  obtain ⟨s, m, hs, hm, rfl⟩ := mapTx_inv doc hx
  obtain ⟨hinv, -⟩ := mapInputs_run hs
  obtain ⟨hadds, hmux⟩ := connected_inputSide hinv hm
  have hnext : s.entryMap.next = muxPlace api sha3 tx := congrArg List.length hinv.heap_eq
  obtain ⟨m', hrun, hadds', hheap⟩ := mapOutputs_spec (muxIDOf api sha3 tx)
    s.entryMap.next tx.outputs 0 (muxOf api sha3 tx) [] m _ (hnext ▸ hmux) hadds
  simp only [hrun, List.nil_append]
  refine ⟨s, m, hinv, hm, rfl, rfl, hadds'.add _, ?_⟩
  show m'.heap ++ _ = _
  rw [hheap, hnext]
  rfl

/-- What `mapTx` returns. -/
theorem mapTx_result (doc : api.Documented) (hx : mapTx api sha3 tx = .ok x) :
    MapTxResult api sha3 tx x := by
  obtain ⟨s, m, hinv, hm, hid, hheader, hadds, hheap⟩ := mapTx_steps doc hx
  obtain ⟨hmadds, -⟩ := connected_inputSide hinv hm
  refine ⟨hid, hheader, hadds, fun p e he => ?_⟩
  rw [hheap]
  rcases getElem?_concat_eq_some.mp he with he | ⟨hp, rfl⟩
  · obtain ⟨e', he', hl⟩ := linked_results hmadds.length_eq (linked_connected doc hinv hm) rfl he
    exact ⟨e', getElem?_concat_eq_some.mpr (.inl he'), hl⟩
  · -- The header stands at the end and stays as it is.
    refine ⟨_, getElem?_concat_eq_some.mpr (.inr ⟨?_, rfl⟩), rfl⟩
    rw [hp, List.length_set, List.length_append, List.length_append, hmadds.length_eq]

end

end BtmStats.Proofs.Types
