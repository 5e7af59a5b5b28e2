import BtmStats.Proofs.Types.OutputIDs

/-!
# `BtmStats.Proofs.Types.EntryGraph`: the entries of a transaction are linked both ways

`mapTx` links the entries of a transaction in several passes. The mux names the entry of
each input as a source before that entry gets the mux as its destination. The results name
the mux as their source, and the mux then gets a destination for each result.

`EntryGraph` says that the two ends of every link match in the map that is returned, and
`mapTx_builds_graph` that `mapTx` returns such a map.
-/

set_option autoImplicit false

namespace BtmStats.Proofs.Types

open Lib Spec Spec.Bc Spec.Types

/-! ### The two ends of a link -/

/-- The destination that the entry of an input has in its witness. -/
def witnessDestination : Entry → Option ValueDestination
  | .spend e => e.witnessDestination
  | .issuance e => e.witnessDestination
  | .coinbase e => e.witnessDestination
  | _ => none

/-- The source of a result. -/
def resultSource : Entry → Option ValueSource
  | .output e => e.source
  | .retirement e => e.source
  | _ => none

def eraseWitness : Entry → Entry
  | .mux e => .mux { e with witnessDestinations := [], witnessArguments := [] }
  | .coinbase e => .coinbase { e with witnessDestination := none }
  | .issuance e => .issuance
      { e with witnessDestination := none, witnessAssetDefinition := none, witnessArguments := [] }
  | .spend e => .spend { e with witnessDestination := none, witnessArguments := [] }
  | e => e

/-- An entry without its witness and its ordinal. -/
def entryBody (e : Entry) : Entry :=
  match eraseWitness e with
  | .output e => .output { e with ordinal := 0 }
  | .retirement e => .retirement { e with ordinal := 0 }
  | .issuance e => .issuance { e with ordinal := 0 }
  | .spend e => .spend { e with ordinal := 0 }
  | e => e

theorem entryKind_eraseWitness (e : Entry) : entryKind (eraseWitness e) = entryKind e := by
  cases e <;> rfl

theorem resultSource_eraseWitness (e : Entry) : resultSource (eraseWitness e) = resultSource e := by
  cases e <;> rfl

theorem resultSource_entryBody (e : Entry) : resultSource (entryBody e) = resultSource e := by
  cases e <;> rfl

/-- Entries of the transaction with different bodies have different IDs. -/
def CollisionFree (api : EntryApi) (sha3 : List UInt8 → FixedBytes 32) (tx : TxData) : Prop :=
  ∀ e ∈ addedEntries api sha3 tx, ∀ e' ∈ addedEntries api sha3 tx,
    api.entryID e = api.entryID e' → entryBody e = entryBody e'

/-- What is assumed of `EntryID`: it does not depend on the witness, and entries of the
transaction with different bodies have different IDs. -/
structure BodyIDs (api : EntryApi) (sha3 : List UInt8 → FixedBytes 32) (tx : TxData) : Prop where
  ignores_witness : ∀ e e' : Entry, eraseWitness e = eraseWitness e' →
    api.entryID e = api.entryID e'
  collision_free : CollisionFree api sha3 tx

/-- The map has the mux under its ID. Each source of the mux is an entry that has the mux
as its destination, each result is an entry that has the mux as its source, and the values
and positions at the two ends agree. -/
structure EntryGraph (api : EntryApi) (tx : TxData) (x : Hash × TxHeader × EntryMap)
    (muxID : Hash) (mux : Mux) : Prop where
  mux_found : x.2.2.find? muxID = some (.mux mux)
  length_sources : mux.sources.length = tx.inputs.length
  length_destinations : mux.witnessDestinations.length = tx.outputs.length
  source : ∀ i < tx.inputs.length, ∃ source id e, mux.sources[i]? = some (some source) ∧
    source.ref = some id ∧ x.2.2.find? id = some e ∧
    witnessDestination e = some ⟨some muxID, source.value, UInt64.ofNat i⟩
  result : ∀ (j : Nat) out, tx.outputs[j]? = some out → ∃ id e,
    x.2.1.resultIds[j]? = some (some id) ∧ x.2.2.find? id = some e ∧
    entryKind e = (if api.isUnspendable out.outputCommitment.controlProgram then .retirement
      else .output) ∧
    resultSource e =
      some ⟨some muxID, some out.outputCommitment.assetAmount, UInt64.ofNat j⟩ ∧
    mux.witnessDestinations[j]? =
      some (some ⟨some id, some out.outputCommitment.assetAmount, 0⟩)
  key_is_id : ∀ id e, x.2.2.find? id = some e → api.entryID e = id

section
variable {api : EntryApi} {sha3 : List UInt8 → FixedBytes 32}

/-! ### The lists of the mux -/

theorem sources_muxWithDestinations (doc : api.Documented) (tx : TxData) :
    (muxWithDestinations api sha3 tx).sources = tx.inputs.mapIdx (inputSource api sha3 tx) := by
  rw [muxWithDestinations, muxOf, doc.newMux_eq,
    eq_mapIdx_of_cons (f := inputsSources api sha3 tx) (fun _ => rfl) (fun _ _ _ => rfl)]
  simp only [Nat.zero_add]

theorem destinations_muxWithDestinations (doc : api.Documented) (tx : TxData) :
    (muxWithDestinations api sha3 tx).witnessDestinations = tx.outputs.mapIdx fun j out =>
      some ⟨some (api.entryID (mapResult api (muxIDOf api sha3 tx) j out)),
        some out.outputCommitment.assetAmount, 0⟩ := by
  rw [muxWithDestinations, muxOf, doc.newMux_eq, List.nil_append,
    eq_mapIdx_of_cons (f := resultDestinations api (muxIDOf api sha3 tx)) (fun _ => rfl)
      (fun _ _ _ => rfl)]
  simp only [Nat.zero_add]

/-! ### What the map has under an ID -/

variable {tx : TxData} {x : Hash × TxHeader × EntryMap} {input : TxInput}

/-- An entry that was added has its ID in the map. What is found there was added with the
same ID. -/
theorem MapTxResult.find?_of_mem (h : MapTxResult api sha3 tx x) {e : Entry}
    (he : e ∈ addedEntries api sha3 tx) :
    ∃ f e', f ∈ addedEntries api sha3 tx ∧ api.entryID f = api.entryID e ∧
      Linked api sha3 tx f e' ∧ x.2.2.find? (api.entryID e) = some e' := by
  obtain ⟨p, hp⟩ := Option.isSome_iff_exists.mp (AList.lookup_isSome.mpr (h.adds.mem_index he))
  obtain ⟨f, e', hf, hid, he', hlinked⟩ := h.entry (AList.mem_lookup_iff.mp hp)
  exact ⟨f, e', List.mem_of_getElem? hf, hid, hlinked,
    Option.bind_eq_some_iff.mpr ⟨p, hp, he'⟩⟩

/-- Linking changes the witness only. -/
theorem eraseWitness_of_linked (doc : api.Documented) {e e' : Entry} (h : Linked api sha3 tx e e') :
    eraseWitness e' = eraseWitness e := by
  cases e with
  | spend sp =>
    obtain ⟨inp, -, -, rfl⟩ := h
    rw [doc.setSpendDestination_eq]
    rfl
  | issuance iss =>
    obtain rfl := h
    rw [doc.setIssuanceDestination_eq]
    rfl
  | coinbase c =>
    rcases h with rfl | ⟨value, rfl⟩
    · rfl
    · rw [doc.setCoinbaseDestination_eq]
      rfl
  | mux m =>
    obtain rfl := h
    rfl
  | _ =>
    obtain rfl := h
    rfl

/-- There is one mux. -/
theorem mux_of_mem_addedEntries {e : Entry} (he : e ∈ addedEntries api sha3 tx)
    (hkind : entryKind e = .mux) : e = .mux (muxOf api sha3 tx) := by
  rcases mem_addedEntries_iff.mp he with he | he | he | rfl
  · rcases inputsEntries_cases he with ⟨inp, -, rfl⟩ | ⟨k, input, -, hentry⟩
    · cases hkind
    · rcases inputEntry_cases hentry with ⟨_, _, rfl⟩ | ⟨_, _, rfl⟩ | ⟨_, _, rfl⟩ <;>
        cases hkind
  · exact he
  · rcases resultEntries_cases _ _ he with ⟨o, rfl⟩ | ⟨r, rfl⟩ <;> cases hkind
  · cases hkind

/-- The map has the mux, with all its destinations. -/
theorem MapTxResult.find?_mux (doc : api.Documented) (h : MapTxResult api sha3 tx x) :
    x.2.2.find? (muxIDOf api sha3 tx) = some (.mux (muxWithDestinations api sha3 tx)) := by
  have hmem : Entry.mux (muxOf api sha3 tx) ∈ addedEntries api sha3 tx :=
    mem_addedEntries_iff.mpr (.inr (.inl rfl))
  obtain ⟨f, e', hf, hid, hlinked, hfind⟩ := h.find?_of_mem hmem
  obtain rfl := mux_of_mem_addedEntries hf (doc.entryID_kind sha3 tx _ hf _ hmem hid)
  rw [muxIDOf, hfind]
  exact congrArg some hlinked

/-! ### The results -/

/-- Under the ID of a result the map has an entry of the same type with the same source.
It need not be the result itself: a prevout can be the same output. -/
theorem MapTxResult.find?_result (doc : api.Documented) (hids : BodyIDs api sha3 tx)
    (h : MapTxResult api sha3 tx x) {j : Nat} {out : TxOutput} (hout : tx.outputs[j]? = some out) :
    ∃ e, x.2.2.find? (api.entryID (mapResult api (muxIDOf api sha3 tx) j out)) = some e ∧
      entryKind e = (if api.isUnspendable out.outputCommitment.controlProgram then .retirement
        else .output) ∧
      resultSource e = some ⟨some (muxIDOf api sha3 tx), some out.outputCommitment.assetAmount,
        UInt64.ofNat j⟩ := by
  have hmem : mapResult api (muxIDOf api sha3 tx) j out ∈ addedEntries api sha3 tx :=
    mapResult_mem hout
  obtain ⟨f, e, hf, hid, hlinked, hfind⟩ := h.find?_of_mem hmem
  have herase := eraseWitness_of_linked doc hlinked
  refine ⟨e, hfind, ?_, ?_⟩
  · calc entryKind e = entryKind (eraseWitness f) := by rw [← herase, entryKind_eraseWitness]
      _ = entryKind (mapResult api (muxIDOf api sha3 tx) j out) := by
          rw [entryKind_eraseWitness, doc.entryID_kind sha3 tx _ hf _ hmem hid]
      _ = _ := by
          rw [mapResult]
          split <;> rfl
  · calc resultSource e = resultSource (eraseWitness f) := by
          rw [← herase, resultSource_eraseWitness]
      _ = resultSource (mapResult api (muxIDOf api sha3 tx) j out) := by
          rw [resultSource_eraseWitness, ← resultSource_entryBody f,
            hids.collision_free f hf _ hmem hid, resultSource_entryBody]
      _ = _ := by
          rw [mapResult]
          split
          · rw [doc.newRetirement_eq]
            rfl
          · rw [doc.newOutput_eq]
            rfl

/-! ### The sources -/

/-- Spends of outputs with one ID have the same value. -/
theorem assetAmount_of_prevout_eq (doc : api.Documented) (hids : CollisionFree api sha3 tx)
    {inp inp' : SpendInput} (h : SpendInputOf tx inp) (h' : SpendInputOf tx inp')
    (hid : api.entryID (.output (mapPrevout api inp)) = api.entryID (.output (mapPrevout api inp')))
    : inp.spendCommitment.assetAmount = inp'.spendCommitment.assetAmount := by
  have hmem : ∀ {i}, SpendInputOf tx i →
      Entry.output (mapPrevout api i) ∈ addedEntries api sha3 tx := fun hi =>
    mem_addedEntries_iff.mpr (.inl (output_mem_inputsEntries.mpr ⟨_, hi, rfl⟩))
  have hsource := congrArg resultSource (hids _ (hmem h) _ (hmem h') hid)
  rw [resultSource_entryBody, resultSource_entryBody, mapPrevout, mapPrevout, doc.newOutput_eq,
    doc.newOutput_eq] at hsource
  simp only [resultSource, Option.some.injEq, ValueSource.mk.injEq] at hsource
  exact hsource.2.1

/-- When only the first input can be a coinbase, a coinbase entry is the first entry. -/
theorem coinbase_place (hfirst : CoinbaseFirst tx) {p : Nat} {c : Coinbase}
    (hp : (inputsEntries api sha3 0 tx.inputs)[p]? = some (.coinbase c)) : p = 0 := by
  have hcoinbase : ∀ k input, Entry.coinbase c ∈ inputEntries api sha3 k input →
      IsCoinbase input := by
    intro k input hmem
    rcases mem_inputEntries.mp hmem with ⟨_, _, he⟩ | he
    · cases he
    · rcases inputEntry_cases he with ⟨_, _, he⟩ | ⟨_, _, he⟩ | ⟨inp, ht, _⟩
      · cases he
      · cases he
      · exact ⟨inp, ht⟩
  rcases hins : tx.inputs with _ | ⟨first, rest⟩
  · rw [hins] at hp
    simp [inputsEntries] at hp
  rw [hins, inputsEntries] at hp
  -- The rest of the inputs has no coinbase.
  have hrest : Entry.coinbase c ∉ inputsEntries api sha3 1 rest := by
    intro hmem
    obtain ⟨k, input, hk, he⟩ := (mem_inputsEntries rest 1).mp hmem
    have hk' : tx.inputs[k + 1]? = some input := by
      rw [hins]
      exact hk
    exact absurd ((hfirst (k + 1) input hk').2 (hcoinbase _ _ he)) (Nat.succ_ne_zero k)
  by_cases hlt : p < (inputEntries api sha3 0 first).length
  · rw [List.getElem?_append_left hlt] at hp
    obtain ⟨ci, ht⟩ := hcoinbase 0 first (List.mem_of_getElem? hp)
    rw [inputEntries, ht, inputEntry, ht] at hlt
    exact Nat.lt_one_iff.mp hlt
  · rw [List.getElem?_append_right (Nat.le_of_not_lt hlt)] at hp
    exact absurd (List.mem_of_getElem? hp) hrest

theorem getElem?_inputsEntries_coinbase {ci : CoinbaseInput} (hinput : tx.inputs[0]? = some input)
    (ht : input.typedInput = some (.coinbase ci)) :
    (inputsEntries api sha3 0 tx.inputs)[0]? =
      some (.coinbase (api.newCoinbase ci.arbitrary)) := by
  rcases hins : tx.inputs with _ | ⟨first, rest⟩
  · rw [hins] at hinput
    cases hinput
  · rw [hins] at hinput
    obtain rfl : first = input := Option.some.inj hinput
    rw [inputsEntries, inputEntries, ht, inputEntry, ht]
    rfl

/-- The coinbase is connected with the value of the first output. -/
theorem coinbase_connected (doc : api.Documented) (hx : mapTx api sha3 tx = .ok x)
    (hfirst : CoinbaseFirst tx) {ci : CoinbaseInput} {out : TxOutput}
    (hinput : tx.inputs[0]? = some input) (ht : input.typedInput = some (.coinbase ci))
    (hout : tx.outputs.head? = some out) :
    x.2.2.heap[0]? = some (.coinbase (api.setCoinbaseDestination (api.newCoinbase ci.arbitrary)
      (muxIDOf api sha3 tx) (some out.outputCommitment.assetAmount) 0)) := by
  obtain ⟨s, m, hinv, hm, -, -, -, hheap⟩ := mapTx_steps doc hx
  have hentry : (inputsEntries api sha3 0 tx.inputs)[0]? =
      some (.coinbase (api.newCoinbase ci.arbitrary)) := getElem?_inputsEntries_coinbase hinput ht
  have hpos : 0 < muxPlace api sha3 tx := (List.getElem?_eq_some_iff.mp hentry).1
  -- The first mux source has the value of the first output.
  have hsource : (muxOf api sha3 tx).sources.head? =
      some (some ⟨some (api.entryID (.coinbase (api.newCoinbase ci.arbitrary))),
        some out.outputCommitment.assetAmount, 0⟩) := by
    rcases hins : tx.inputs with _ | ⟨first, rest⟩
    · rw [hins] at hinput
      cases hinput
    · rw [hins] at hinput
      obtain rfl : first = input := Option.some.inj hinput
      rw [muxOf, doc.newMux_eq, hins, inputsSources, inputSource, ht, hout]
      rfl
  rcases hc : s.coinbase with _ | ⟨q, c⟩
  · exact absurd (List.mem_of_getElem? hentry) (hinv.coinbase_none hc _)
  · have hq := hinv.of_coinbase q c hc
    obtain rfl := coinbase_place hfirst hq
    obtain rfl : c = api.newCoinbase ci.arbitrary :=
      Entry.coinbase.inj (Option.some.inj (hq.symm.trans hentry))
    rw [hc, connectCoinbase, hsource] at hm
    obtain rfl := Except.ok.inj hm
    have hlen : 0 < (connectedMap api sha3 tx s).heap.length := by
      rw [connectedMap, List.length_map, inputSide, List.length_append]
      exact Nat.lt_add_right _ hpos
    rw [hheap]
    refine getElem?_concat_eq_some.mpr (.inl ?_)
    rw [List.getElem?_set_ne (Nat.ne_of_gt hpos), List.getElem?_append_left
      (by rw [Arena.set, List.length_set]; exact hlen)]
    exact List.getElem?_set_self hlen

/-- A coinbase that was added is an entry of an input. -/
theorem coinbase_mem_front {p : Nat} {c : Coinbase}
    (hp : (addedEntries api sha3 tx)[p]? = some (.coinbase c)) :
    (inputsEntries api sha3 0 tx.inputs)[p]? = some (.coinbase c) := by
  rcases getElem?_concat_eq_some.mp hp with hp | ⟨-, he⟩
  · by_cases hlt : p < (inputSide api sha3 tx).length
    · rw [List.getElem?_append_left hlt] at hp
      rcases getElem?_concat_eq_some.mp hp with hp | ⟨-, he⟩
      · exact hp
      · cases he
    · rw [List.getElem?_append_right (Nat.le_of_not_lt hlt)] at hp
      rcases resultEntries_cases _ _ (List.mem_of_getElem? hp) with ⟨_, he⟩ | ⟨_, he⟩ <;> cases he
  · cases he

/-- The entry of an input has the mux as its destination, with the value of the mux source. -/
theorem find?_source (doc : api.Documented) (hids : BodyIDs api sha3 tx)
    (hdistinct : DistinctInputIDs api sha3 tx) (hfirst : CoinbaseFirst tx)
    (hout : (∃ input ∈ tx.inputs, IsCoinbase input) → tx.outputs ≠ [])
    (hx : mapTx api sha3 tx = .ok x) {i : Nat} (hi : tx.inputs[i]? = some input) :
    ∃ source id e, inputSource api sha3 tx i input = some source ∧ source.ref = some id ∧
      x.2.2.find? id = some e ∧
      witnessDestination e =
        some ⟨some (muxIDOf api sha3 tx), source.value, UInt64.ofNat i⟩ := by
  have hresult := mapTx_result doc hx
  obtain ⟨e, he⟩ : ∃ e, inputEntry api sha3 i input = some e := by
    rw [← Option.isSome_iff_exists, Option.isSome_iff_ne_none, Ne, inputEntry_eq_none]
    exact (hfirst i input hi).1
  obtain ⟨p, e', hlookup, hadded, he', hlinked⟩ := hresult.lookup_inputEntry doc hdistinct hi he
  have hfind : x.2.2.find? (api.entryID e) = some e' :=
    Option.bind_eq_some_iff.mpr ⟨p, hlookup, he'⟩
  rw [inputSource]
  rcases inputEntry_cases he with ⟨inp, ht, rfl⟩ | ⟨inp, ht, rfl⟩ | ⟨inp, ht, rfl⟩
  · rw [ht]
    refine ⟨_, _, e', rfl, rfl, hfind, ?_⟩
    obtain rfl := hlinked
    rw [doc.setIssuanceDestination_eq, mapIssuance, doc.newIssuance_eq]
    rfl
  · rw [ht]
    refine ⟨_, _, e', rfl, rfl, hfind, ?_⟩
    -- The value comes from a prevout with the ID that is spent.
    obtain ⟨inp', hinp', hspent, rfl⟩ := hlinked
    rw [mapSpend, doc.newSpend_eq, Option.some.injEq] at hspent
    rw [doc.setSpendDestination_eq, mapSpend, doc.newSpend_eq,
      assetAmount_of_prevout_eq doc hids.collision_free ⟨input, List.mem_of_getElem? hi, ht⟩ hinp'
        hspent]
    rfl
  · obtain rfl : i = 0 := (hfirst i input hi).2 ⟨inp, ht⟩
    obtain ⟨out, outs, houts⟩ := List.exists_cons_of_ne_nil
      (hout ⟨input, List.mem_of_getElem? hi, inp, ht⟩)
    replace houts : tx.outputs.head? = some out := by rw [houts, List.head?_cons]
    rw [ht, houts]
    refine ⟨_, _, e', rfl, rfl, hfind, ?_⟩
    obtain rfl := coinbase_place hfirst (coinbase_mem_front hadded)
    obtain rfl := Option.some.inj
      (he'.symm.trans (coinbase_connected doc hx hfirst hi ht houts))
    rw [doc.setCoinbaseDestination_eq]
    rfl

/-- The graph of a transaction. If a coinbase is the first input and comes with an output, and no
two of the entries concerned have one ID, then `mapTx` returns and its entries are linked as the
inputs and outputs are: inputs to the mux, the mux to the results, and back, by the keys that they
have in the map. -/
theorem mapTx_builds_graph (doc : api.Documented) {tx : TxData} (hids : BodyIDs api sha3 tx)
    (hdistinct : DistinctInputIDs api sha3 tx) (hfirst : CoinbaseFirst tx)
    (hout : (∃ input ∈ tx.inputs, IsCoinbase input) → tx.outputs ≠ []) :
    ∃ x muxID mux, mapTx api sha3 tx = .ok x ∧ EntryGraph api tx x muxID mux := by
  have hmappable : Mappable tx := by
    intro input hmem hcb
    obtain ⟨first, rest, hins⟩ := List.exists_cons_of_ne_nil (List.ne_nil_of_mem hmem)
    refine ⟨hout ⟨input, hmem, hcb⟩, first, by rw [hins, List.head?_cons], ?_⟩
    exact (hfirst 0 first (by rw [hins]; rfl)).1
  obtain ⟨x, hx⟩ := (mapTx_ok_iff sha3 doc tx).mpr hmappable
  have hresult := mapTx_result doc hx
  refine ⟨x, muxIDOf api sha3 tx, muxWithDestinations api sha3 tx, hx,
    { mux_found := hresult.find?_mux doc
      length_sources := ?_
      length_destinations := ?_
      source := fun i hi => ?_
      result := fun j out hj => ?_
      key_is_id := fun id e he => ?_ }⟩
  · rw [sources_muxWithDestinations doc, List.length_mapIdx]
  · rw [destinations_muxWithDestinations doc, List.length_mapIdx]
  · have hinput := List.getElem?_eq_getElem hi
    obtain ⟨source, id, e, hsource, href, hfind, hdest⟩ :=
      find?_source doc hids hdistinct hfirst hout hx hinput
    refine ⟨source, id, e, ?_, href, hfind, hdest⟩
    rw [sources_muxWithDestinations doc, List.getElem?_mapIdx, hinput, Option.map_some, hsource]
  · obtain ⟨e, hfind, hkind, hsource⟩ := hresult.find?_result doc hids hj
    refine ⟨_, e, hresult.getElem?_resultIds doc hj, hfind, hkind, hsource, ?_⟩
    rw [destinations_muxWithDestinations doc, List.getElem?_mapIdx, hj]
    rfl
  · obtain ⟨p, hp, he⟩ := Option.bind_eq_some_iff.mp he
    obtain ⟨f, e', -, hid, he', hlinked⟩ := hresult.entry (AList.mem_lookup_iff.mp hp)
    obtain rfl : e = e' := Option.some.inj (he.symm.trans he')
    rw [← hid]
    exact hids.ignores_witness _ _ (eraseWitness_of_linked doc hlinked)

end

/-! ### A coinbase, a spend and two outputs -/

def mixedTx : TxData :=
  ⟨1, 0, 0, [coinbaseInput, spendInput],
    [newTxOutput ⟨Hash.zero⟩ 5 [1], newTxOutput ⟨Hash.zero⟩ 6 [2]]⟩

theorem bodyID_eraseWitness (e : Entry) : bodyID (eraseWitness e) = bodyID e := by
  cases e <;> rfl

theorem bodyIDs_mixedTx : BodyIDs bodyApi zeroSha3 mixedTx where
  ignores_witness e e' h := by
    show bodyID e = bodyID e'
    rw [← bodyID_eraseWitness e, h, bodyID_eraseWitness]
  collision_free := by
    unfold CollisionFree
    decide

/-- The graph of the coinbase, the spend and the two outputs. -/
theorem mixedTx_builds_graph :
    ∃ x muxID mux, mapTx bodyApi zeroSha3 mixedTx = .ok x ∧
      EntryGraph bodyApi mixedTx x muxID mux := by
  have hdistinct : DistinctInputIDs bodyApi zeroSha3 mixedTx :=
    distinctInputIDs_of_nodup (by decide)
  exact mapTx_builds_graph bodyApi_documented bodyIDs_mixedTx hdistinct
    (coinbaseFirst_of_inputs rfl) fun _ => by decide

end BtmStats.Proofs.Types
