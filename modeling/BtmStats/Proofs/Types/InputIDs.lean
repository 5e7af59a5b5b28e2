import BtmStats.Proofs.Types.MapTx

/-!
# `BtmStats.Proofs.Types.InputIDs`: what `MapTx` makes of the entries

`MapTx` iterates over the entries in an order that the language leaves open. On the
map that `mapTx` returns for a transaction that was read, it does not panic
(`MapTx_ok`), and its `InputIDs` are a list of writes, one for each entry of an
input (`mem_inputWrites`). Writes to one place agree exactly when no coinbase stands
behind another input, which gives `inputIDs_correspond_iff`.
-/

set_option autoImplicit false

namespace BtmStats.Proofs.Types

open Lib Spec Spec.Bc Spec.Blockchain Spec.Types Proofs.Blockchain

/-! ### The loop of `MapTx` -/

/-- The position that an entry is written to. -/
def inputOrdinal : Entry → Option UInt64
  | .issuance e => some e.ordinal
  | .spend e => some e.ordinal
  | .coinbase _ => some 0
  | _ => none

/-- The entry can be dereferenced as `MapTx` does. -/
def Readable : Entry → Prop
  | .spend e => (∃ id, e.spentOutputId = some id) ∧
      ∃ dest value assetId, e.witnessDestination = some dest ∧ dest.value = some value ∧
        value.assetId = some assetId
  | _ => True

/-- The write that an entry of the map causes. -/
def inputWrite (heap : List Entry) (x : Sigma fun _ : Hash => Nat) : Option (Nat × Hash) :=
  (heap[x.2]?.bind inputOrdinal).map fun ord => (ord.toNat, x.1)

/-- Writing out of range does nothing, as in the loop. -/
theorem setInputID_inputIDs (s : MapTxState) (ord : UInt64) (id : Hash) :
    (s.setInputID ord id).inputIDs = s.inputIDs.set ord.toNat id := by
  rw [MapTxState.setInputID]
  split
  · rename_i h
    rw [List.set_eq_of_length_le h]
  · rfl

/-- The loop body returns on a readable entry, and performs its write. -/
theorem mapTxEntry_ok (s : MapTxState) (id : Hash) {e : Entry} (h : Readable e) :
    ∃ s', mapTxEntry s id e = .ok s' ∧ s'.inputIDs =
      writeAll s.inputIDs ((inputOrdinal e).map fun ord => (ord.toNat, id)).toList := by
  cases e with
  | issuance e => exact ⟨_, rfl, setInputID_inputIDs s e.ordinal id⟩
  | coinbase e => exact ⟨_, rfl, setInputID_inputIDs s 0 id⟩
  | spend e =>
    -- A spend is followed through three pointers for the gas inputs.
    obtain ⟨⟨spent, hspent⟩, dest, value, assetId, hdest, hvalue, hasset⟩ := h
    simp only [mapTxEntry, hspent, hdest, hvalue, hasset, orPanic_some, bind, Except.bind]
    exact ⟨_, rfl, setInputID_inputIDs _ e.ordinal id⟩
  | _ => exact ⟨s, rfl, rfl⟩

/-- The loop returns when every entry is readable, and performs all writes. Induction
on the entries. -/
theorem mapTxLoop_ok (heap : List Entry) :
    ∀ (l : List (Sigma fun _ : Hash => Nat)) (s : MapTxState),
      (∀ x ∈ l, ∃ e, heap[x.2]? = some e ∧ Readable e) →
      ∃ s', mapTxLoop heap l s = .ok s' ∧
        s'.inputIDs = writeAll s.inputIDs (l.filterMap (inputWrite heap)) := by
  intro l
  induction l with
  | nil => exact fun s _ => ⟨s, rfl, rfl⟩
  | cons x rest ih =>
    intro s h
    obtain ⟨id, p⟩ := x
    obtain ⟨⟨e, he, hread⟩, hrest⟩ := List.forall_mem_cons.mp h
    obtain ⟨s₁, hs₁, hids₁⟩ := mapTxEntry_ok s id hread
    obtain ⟨s', hs', hids⟩ := ih s₁ hrest
    have hwrite : inputWrite heap ⟨id, p⟩ =
        (inputOrdinal e).map fun ord => (ord.toNat, id) := by
      rw [inputWrite, he]
      rfl
    refine ⟨s', ?_, ?_⟩
    · rw [mapTxLoop, he]
      show (mapTxEntry s id e).bind _ = _
      rw [hs₁]
      exact hs'
    · -- The write of the first entry comes before those of the rest.
      rw [hids, hids₁, ← writeAll_append, List.filterMap_cons, hwrite]
      cases inputOrdinal e <;> rfl

/-! ### Transactions that were read -/

section
variable {api : EntryApi} {sha3 : List UInt8 → FixedBytes 32} {tx : TxData} {p : List UInt8}
  {e : Entry} {x : Hash × TxHeader × EntryMap} {input : TxInput}

/-- The inputs of a transaction in the grammar are in the grammar. -/
theorem isTxInput_of_mem (h : IsTxData sha3 p tx) (hmem : input ∈ tx.inputs) :
    ∃ s, IsTxInput sha3 s input := by
  obtain ⟨⟨_, _, _, _, _, _, -, -, -, -, ⟨-, parts, -, hparts⟩, -⟩, -⟩ := h
  obtain ⟨k, hk, rfl⟩ := List.getElem_of_mem hmem
  have hk' : k < parts.length := by
    rw [hparts.length_eq]
    exact hk
  exact ⟨parts[k], hparts.get hk' hk⟩

/-- A spend input that was read has an asset ID. -/
theorem spendInput_assetId (h : IsTxData sha3 p tx) {inp : SpendInput} (hinp : SpendInputOf tx inp)
    : ∃ assetId, inp.spendCommitment.assetAmount.assetId = some assetId := by
  obtain ⟨input, hmem, ht⟩ := hinp
  obtain ⟨s, version, _, _, commitment, witness, -, -, -, -, hbodies⟩ := isTxInput_of_mem h hmem
  rw [ht] at hbodies
  obtain ⟨-, ⟨spend, -, body, -, _, _, _, _, -, ⟨assetID, _, -, hid, -⟩, -⟩, -⟩ := hbodies
  exact ⟨assetID, hid⟩

/-- A transaction that was read has fewer than `2 ^ 31` inputs. -/
theorem length_inputs_le (h : IsTxData sha3 p tx) : tx.inputs.length ≤ maxInt32 := by
  obtain ⟨⟨_, _, _, _, _, _, -, -, -, ⟨-, hle⟩, -⟩, -⟩ := h
  exact hle

/-- What an entry has become can be dereferenced. -/
theorem readable_of_linked (doc : api.Documented)
    (hasset : ∀ inp, SpendInputOf tx inp → ∃ assetId, inp.spendCommitment.assetAmount.assetId = some
      assetId) {e' : Entry} (h : Linked api sha3 tx e e') : Readable e' := by
  cases e with
  | spend sp =>
    obtain ⟨inp, hinp, hspent, rfl⟩ := h
    obtain ⟨assetId, hid⟩ := hasset inp hinp
    rw [doc.setSpendDestination_eq]
    exact ⟨⟨_, hspent⟩, _, _, assetId, rfl, rfl, hid⟩
  | issuance iss =>
    obtain rfl := h
    trivial
  | coinbase c =>
    rcases h with rfl | ⟨_, rfl⟩
    · trivial
    · trivial
  | _ =>
    obtain rfl := h
    trivial

/-- Connecting an entry does not change where it is written. -/
theorem inputOrdinal_of_linked (doc : api.Documented) {e' : Entry} (h : Linked api sha3 tx e e') :
    inputOrdinal e' = inputOrdinal e := by
  cases e with
  | spend sp =>
    obtain ⟨inp, -, -, rfl⟩ := h
    rw [doc.setSpendDestination_eq]
    rfl
  | issuance iss =>
    obtain rfl := h
    rw [doc.setIssuanceDestination_eq]
    rfl
  | coinbase c =>
    rcases h with rfl | ⟨_, rfl⟩
    · rfl
    · rfl
  | _ =>
    obtain rfl := h
    rfl

/-- The writes of `MapTx` to `InputIDs`, in an order of iteration. -/
def inputWrites (order : IterOrder (Sigma fun _ : Hash => Nat)) (m : EntryMap) :
    List (Nat × Hash) :=
  (order.apply m.index.entries).filterMap (inputWrite m.heap)

/-- An entry of the map, as it was added and as it is. -/
theorem MapTxResult.entry (h : MapTxResult api sha3 tx x) {id : Hash} {p : Nat}
    (hp : ⟨id, p⟩ ∈ x.2.2.index.entries) :
    ∃ e e', (addedEntries api sha3 tx)[p]? = some e ∧ api.entryID e = id ∧
      x.2.2.heap[p]? = some e' ∧ Linked api sha3 tx e e' := by
  have hlookup : x.2.2.index.lookup id = some p := AList.mem_lookup_iff.mpr hp
  obtain ⟨e, he, hid⟩ := h.adds.of_lookup hlookup
  obtain ⟨e', he', hlinked⟩ := h.linked p e he
  exact ⟨e, e', he, hid, he', hlinked⟩

/-- `MapTx` returns whenever `mapTx` does and the spend inputs name their assets, and its
`InputIDs` are the writes. -/
theorem MapTx_ok_of_assets (doc : api.Documented)
    (hasset : ∀ inp, SpendInputOf tx inp → ∃ assetId, inp.spendCommitment.assetAmount.assetId = some
      assetId) (hx : mapTx api sha3 tx = .ok x) (orders : MapTxOrders) :
    ∃ btx, MapTx api sha3 orders tx = .ok btx ∧ btx.inputIDs =
      writeAll (List.replicate tx.inputs.length Hash.zero)
        (inputWrites orders.entries x.2.2) := by
  have hresult := mapTx_result doc hx
  have hreadable : ∀ y ∈ orders.entries.apply x.2.2.index.entries,
      ∃ e, x.2.2.heap[y.2]? = some e ∧ Readable e := by
    rintro ⟨id, q⟩ hy
    obtain ⟨e, e', -, -, he', hlinked⟩ := hresult.entry ((orders.entries.perm _).mem_iff.mp hy)
    exact ⟨e', he', readable_of_linked doc hasset hlinked⟩
  obtain ⟨s, hs, hids⟩ := mapTxLoop_ok x.2.2.heap _
    ⟨List.replicate tx.inputs.length Hash.zero, [], []⟩ hreadable
  have hMapTx : MapTx api sha3 orders tx = .ok ⟨x.2.1, x.1, x.2.2, s.inputIDs,
      orders.spentOutputIDs.apply s.spentOutputIDs, s.gasInputIDs⟩ := by
    rw [MapTx, hx]
    show (mapTxLoop x.2.2.heap _ _).bind _ = _
    rw [hs]
    rfl
  exact ⟨_, hMapTx, hids⟩

/-- `MapTx` returns on a transaction that was read whenever `mapTx` does. -/
theorem MapTx_ok (doc : api.Documented) (hread : IsTxData sha3 p tx)
    (hx : mapTx api sha3 tx = .ok x) (orders : MapTxOrders) :
    ∃ btx, MapTx api sha3 orders tx = .ok btx ∧ btx.inputIDs =
      writeAll (List.replicate tx.inputs.length Hash.zero)
        (inputWrites orders.entries x.2.2) :=
  MapTx_ok_of_assets doc (fun _ => spendInput_assetId hread) hx orders

/-! ### The writes of the inputs -/

variable (api sha3) in
/-- Different inputs of the transaction have entries with different IDs. -/
def DistinctInputIDs (tx : TxData) : Prop :=
  ∀ i j a b e f, tx.inputs[i]? = some a → tx.inputs[j]? = some b →
    inputEntry api sha3 i a = some e → inputEntry api sha3 j b = some f →
    api.entryID e = api.entryID f → i = j

/-- No ID stands twice in the list of the IDs. -/
theorem distinctInputIDs_of_nodup
    (h : (tx.inputs.mapIdx fun i input => (inputEntry api sha3 i input).map api.entryID).Nodup) :
    DistinctInputIDs api sha3 tx := by
  intro i j a b e f hi hj he hf hid
  have hget : ∀ {k c g}, tx.inputs[k]? = some c → inputEntry api sha3 k c = some g →
      (tx.inputs.mapIdx fun i input => (inputEntry api sha3 i input).map api.entryID)[k]? =
        some (some (api.entryID g)) := by
    intro k c g hk hg
    rw [List.getElem?_mapIdx, hk, Option.map_some, hg, Option.map_some]
  obtain ⟨hi', hie⟩ := List.getElem?_eq_some_iff.mp (hget hi he)
  obtain ⟨hj', hje⟩ := List.getElem?_eq_some_iff.mp (hget hj hf)
  exact (List.Nodup.getElem_inj_iff h).mp (hie.trans ((congrArg some hid).trans hje.symm))

/-- An added entry that is written to `InputIDs` is the entry of an input. -/
theorem inputEntry_of_ordinal (he : e ∈ addedEntries api sha3 tx) (hord : inputOrdinal e ≠ none) :
    ∃ k input, tx.inputs[k]? = some input ∧ inputEntry api sha3 k input = some e := by
  rcases mem_addedEntries_iff.mp he with he | rfl | he | rfl
  · -- A prevout is an output. The mux, the results and the header have no position
    -- either.
    rcases inputsEntries_cases he with ⟨inp, -, rfl⟩ | hentry
    · exact absurd rfl hord
    · exact hentry
  · exact absurd rfl hord
  · rcases resultEntries_cases _ _ he with ⟨o, rfl⟩ | ⟨r, rfl⟩
    · exact absurd rfl hord
    · exact absurd rfl hord
  · exact absurd rfl hord

/-- Entries of one type are all written to `InputIDs`, or none of them is. -/
theorem inputOrdinal_ne_none_of_kind {f : Entry} (h : entryKind e = entryKind f)
    (he : inputOrdinal e ≠ none) : inputOrdinal f ≠ none := by
  cases e <;> cases f <;> simp_all [entryKind, inputOrdinal]

/-- The entry of an input is written to `InputIDs`. -/
theorem inputOrdinal_inputEntry (doc : api.Documented) {i : Nat}
    (h : inputEntry api sha3 i input = some e) :
    (IsCoinbase input ∧ inputOrdinal e = some 0) ∨
      (¬ IsCoinbase input ∧ inputOrdinal e = some (UInt64.ofNat i)) := by
  rcases inputEntry_cases h with ⟨inp, ht, rfl⟩ | ⟨inp, ht, rfl⟩ | ⟨inp, ht, rfl⟩
  · refine .inr ⟨fun ⟨ci, hc⟩ => by simp [ht] at hc, ?_⟩
    rw [mapIssuance, doc.newIssuance_eq]
    rfl
  · refine .inr ⟨fun ⟨ci, hc⟩ => by simp [ht] at hc, ?_⟩
    rw [mapSpend, doc.newSpend_eq]
    rfl
  · exact .inl ⟨⟨inp, ht⟩, rfl⟩

/-- With different IDs for different inputs, the map leads from the ID of an input's
entry to what has become of this entry. -/
theorem MapTxResult.lookup_inputEntry (doc : api.Documented) (h : MapTxResult api sha3 tx x)
    (hids : DistinctInputIDs api sha3 tx) {i : Nat} (hi : tx.inputs[i]? = some input)
    (he : inputEntry api sha3 i input = some e) :
    ∃ p e', x.2.2.index.lookup (api.entryID e) = some p ∧
      (addedEntries api sha3 tx)[p]? = some e ∧ x.2.2.heap[p]? = some e' ∧
      Linked api sha3 tx e e' := by
  have hmem : e ∈ addedEntries api sha3 tx :=
    mem_addedEntries_iff.mpr (.inl (inputEntry_mem hi he))
  obtain ⟨p, hp⟩ := Option.isSome_iff_exists.mp
    (AList.lookup_isSome.mpr (h.adds.mem_index hmem))
  obtain ⟨f, e', hf, hid, he', hlinked⟩ := h.entry (AList.mem_lookup_iff.mp hp)
  -- The entry found has the type of `e`, so it belongs to an input, and to the same one.
  have hord : inputOrdinal e ≠ none := by
    rcases inputOrdinal_inputEntry doc he with ⟨-, ho⟩ | ⟨-, ho⟩ <;> simp [ho]
  have hford : inputOrdinal f ≠ none :=
    inputOrdinal_ne_none_of_kind
      (doc.entryID_kind sha3 tx _ (List.mem_of_getElem? hf) _ hmem hid).symm hord
  obtain ⟨k, input', hk, hf'⟩ := inputEntry_of_ordinal (List.mem_of_getElem? hf) hford
  obtain rfl := hids k i _ _ _ _ hk hi hf' he hid
  obtain rfl : input' = input := Option.some.inj (hk.symm.trans hi)
  obtain rfl : f = e := Option.some.inj (hf'.symm.trans he)
  exact ⟨p, e', hp, hf, he', hlinked⟩

/-- The writes are those of the entries of the inputs, in every order of iteration. -/
theorem mem_inputWrites (doc : api.Documented) (h : MapTxResult api sha3 tx x)
    (hids : DistinctInputIDs api sha3 tx) (order : IterOrder (Sigma fun _ : Hash => Nat)) (j : Nat)
    (id : Hash) :
    (j, id) ∈ inputWrites order x.2.2 ↔
      ∃ k input e ord, tx.inputs[k]? = some input ∧ inputEntry api sha3 k input = some e ∧
        inputOrdinal e = some ord ∧ ord.toNat = j ∧ api.entryID e = id := by
  rw [inputWrites, List.mem_filterMap]
  constructor
  · rintro ⟨⟨id', p⟩, hmem, hwrite⟩
    obtain ⟨e, e', he, hid, he', hlinked⟩ := h.entry ((order.perm _).mem_iff.mp hmem)
    rw [inputWrite, he', Option.bind_some, inputOrdinal_of_linked doc hlinked] at hwrite
    obtain ⟨ord, hord, heq⟩ := Option.map_eq_some_iff.mp hwrite
    -- A write comes from an entry of the map, which has the position that it was added
    -- with.
    obtain ⟨rfl, rfl⟩ := Prod.mk.inj heq
    obtain ⟨k, input, hk, hentry⟩ :=
      inputEntry_of_ordinal (List.mem_of_getElem? he) (by simp [hord])
    exact ⟨k, input, e, ord, hk, hentry, hord, rfl, hid⟩
  · rintro ⟨k, input, e, ord, hk, he, hord, rfl, rfl⟩
    obtain ⟨p, e', hlookup, -, he', hlinked⟩ := h.lookup_inputEntry doc hids hk he
    refine ⟨⟨api.entryID e, p⟩, (order.perm _).mem_iff.mpr (AList.mem_lookup_iff.mp hlookup), ?_⟩
    rw [inputWrite, he', Option.bind_some, inputOrdinal_of_linked doc hlinked, hord]
    rfl

/-! ### The correspondence -/

variable (api sha3) in
/-- `MapTx` returns, and position `i` of `InputIDs` holds the ID of the entry that
`mapTx` created for input `i`. -/
def InputIDsCorrespond (orders : MapTxOrders) (tx : TxData) : Prop :=
  ∃ btx, MapTx api sha3 orders tx = .ok btx ∧
    ∀ (i : Nat) input, tx.inputs[i]? = some input →
      ∃ e, inputEntry api sha3 i input = some e ∧ btx.inputIDs[i]? = some (api.entryID e)

/-- Every input is typed, and a coinbase is the first input. -/
def CoinbaseFirst (tx : TxData) : Prop :=
  ∀ (i : Nat) input, tx.inputs[i]? = some input →
    input.typedInput ≠ none ∧ (IsCoinbase input → i = 0)

/-- The order of iteration that visits one element after all others. -/
def lastOrder {α : Type} [DecidableEq α] (a : α) : IterOrder α where
  apply l := l.filter (fun b => b ≠ a) ++ l.filter (fun b => ¬ b ≠ a)
  perm l := by
    simpa only [decide_not] using List.filter_append_perm (fun b => decide (b ≠ a)) l

/-- An element that is there comes last. -/
theorem lastOrder_concat {α : Type} [DecidableEq α] {a : α} {l : List α} (h : a ∈ l) :
    ∃ front, (lastOrder a).apply l = front ++ [a] := by
  -- The second part of the order has copies of the element only.
  have hall : ∀ b ∈ l.filter (fun b => ¬ b ≠ a), b = a := by
    intro b hb
    simpa using (List.mem_filter.mp hb).2
  have hne : l.filter (fun b => ¬ b ≠ a) ≠ [] :=
    List.ne_nil_of_mem (List.mem_filter.mpr ⟨h, by simp⟩)
  obtain ⟨front, b, hb⟩ : ∃ front b, l.filter (fun b => ¬ b ≠ a) = front ++ [b] :=
    ⟨_, _, (List.dropLast_append_getLast hne).symm⟩
  obtain rfl : b = a := hall b (by rw [hb]; simp)
  refine ⟨l.filter (fun c => c ≠ b) ++ front, ?_⟩
  rw [List.append_assoc, ← hb]
  rfl

/-- The position of an input's entry, for a transaction that was read. -/
theorem ordinal_toNat (doc : api.Documented) (hread : IsTxData sha3 p tx)
    (hfirst : CoinbaseFirst tx) {i : Nat} {ord : UInt64} (hi : tx.inputs[i]? = some input)
    (he : inputEntry api sha3 i input = some e) (hord : inputOrdinal e = some ord) :
    ord.toNat = i := by
  rcases inputOrdinal_inputEntry doc he with ⟨hcb, ho⟩ | ⟨-, ho⟩
  · rw [ho] at hord
    obtain rfl := Option.some.inj hord
    -- A coinbase is always written to position 0, and here it is input 0.
    rw [(hfirst i input hi).2 hcb]
    rfl
  · rw [ho] at hord
    obtain rfl := Option.some.inj hord
    have hlt : i < tx.inputs.length := (List.getElem?_eq_some_iff.mp hi).1
    have hle := length_inputs_le hread
    -- The number of inputs has 31 bits, so the ordinal does not wrap.
    rw [UInt64.toNat_ofNat']
    exact Nat.mod_eq_of_lt (by rw [maxInt32] at hle; omega)

/-- With the coinbase first, all writes to a position are those of its input. -/
theorem inputIDs_correspond (doc : api.Documented) (hread : IsTxData sha3 p tx)
    (hids : DistinctInputIDs api sha3 tx) (hx : mapTx api sha3 tx = .ok x)
    (hfirst : CoinbaseFirst tx) (orders : MapTxOrders) : InputIDsCorrespond api sha3 orders tx := by
  obtain ⟨btx, hbtx, hwrites⟩ := MapTx_ok doc hread hx orders
  refine ⟨btx, hbtx, fun i input hi => ?_⟩
  have htyped : inputEntry api sha3 i input ≠ none :=
    fun hnone => (hfirst i input hi).1 (inputEntry_eq_none.mp hnone)
  obtain ⟨e, he⟩ := Option.ne_none_iff_exists'.mp htyped
  refine ⟨e, he, ?_⟩
  have hmem := mem_inputWrites doc (mapTx_result doc hx) hids orders.entries i
  rw [hwrites]
  refine getElem?_writeAll_of_agree _ _ ?_ ⟨api.entryID e, ?_⟩ fun id hid => ?_
  · rw [List.length_replicate]
    exact (List.getElem?_eq_some_iff.mp hi).1
  · obtain ⟨ord, hord⟩ : ∃ ord, inputOrdinal e = some ord := by
      rcases inputOrdinal_inputEntry doc he with ⟨-, ho⟩ | ⟨-, ho⟩
      · exact ⟨_, ho⟩
      · exact ⟨_, ho⟩
    exact (hmem _).mpr
      ⟨i, input, e, ord, hi, he, hord, ordinal_toNat doc hread hfirst hi he hord, rfl⟩
  · -- Another write to the position would come from an input at the same place.
    obtain ⟨k, input', f, ord, hk, hf, hord, hpos, rfl⟩ := (hmem id).mp hid
    have hki : k = i := (ordinal_toNat doc hread hfirst hk hf hord).symm.trans hpos
    subst hki
    obtain rfl : input' = input := Option.some.inj (hk.symm.trans hi)
    rw [Option.some.inj (hf.symm.trans he)]

/-- A coinbase behind the first input takes its position in some order. -/
theorem coinbase_first_of_correspond (doc : api.Documented) (hread : IsTxData sha3 p tx)
    (hids : DistinctInputIDs api sha3 tx) (hx : mapTx api sha3 tx = .ok x)
    (h : ∀ orders, InputIDsCorrespond api sha3 orders tx) : CoinbaseFirst tx := by
  intro k input hk
  have hentry : ∃ e, inputEntry api sha3 k input = some e := by
    obtain ⟨_, _, hall⟩ := h ⟨⟨id, fun _ => .refl _⟩, ⟨id, fun _ => .refl _⟩⟩
    obtain ⟨e, he, -⟩ := hall k input hk
    exact ⟨e, he⟩
  obtain ⟨e, he⟩ := hentry
  refine ⟨fun hnone => by simp [inputEntry_eq_none.mpr hnone] at he, fun hcb => ?_⟩
  -- Let the iteration end with the coinbase: its ID is then at position 0.
  obtain ⟨q, e', hlookup, -, he', hlinked⟩ :=
    (mapTx_result doc hx).lookup_inputEntry doc hids hk he
  have hsame := inputOrdinal_of_linked doc hlinked
  obtain ⟨front, hfront⟩ := lastOrder_concat (AList.mem_lookup_iff.mp hlookup)
  let orders : MapTxOrders := ⟨lastOrder ⟨api.entryID e, q⟩, ⟨id, fun _ => .refl _⟩⟩
  obtain ⟨btx, hbtx, hwrites⟩ := MapTx_ok doc hread hx orders
  have hord : inputOrdinal e = some 0 := by
    rcases inputOrdinal_inputEntry doc he with ⟨-, ho⟩ | ⟨hno, -⟩
    · exact ho
    · exact absurd hcb hno
  have hlt : 0 < tx.inputs.length :=
    Nat.lt_of_le_of_lt (Nat.zero_le k) (List.getElem?_eq_some_iff.mp hk).1
  have hlast : inputWrites orders.entries x.2.2 =
      front.filterMap (inputWrite x.2.2.heap) ++ [(0, api.entryID e)] := by
    rw [inputWrites, hfront, List.filterMap_append]
    congr 1
    rw [List.filterMap_cons, inputWrite, he', Option.bind_some, hsame, hord]
    rfl
  have hzero : btx.inputIDs[0]? = some (api.entryID e) := by
    rw [hwrites, hlast]
    exact getElem?_writeAll_concat _ _ (by rw [List.length_replicate]; exact hlt) _
  -- The correspondence says that position 0 has the ID of input 0, so the coinbase is input
  -- 0.
  obtain ⟨btx', hbtx', hall⟩ := h orders
  obtain rfl : btx = btx' := Except.ok.inj (hbtx.symm.trans hbtx')
  obtain ⟨f, hf, hfid⟩ := hall 0 _ (List.getElem?_eq_getElem hlt)
  exact (hids 0 k _ _ _ _ (List.getElem?_eq_getElem hlt) hk hf he
    (Option.some.inj (hfid.symm.trans hzero))).symm

/-- `InputIDs` correspond to the inputs in every order of iteration if and only if
every input is typed and a coinbase is the first input. -/
theorem inputIDs_correspond_iff (doc : api.Documented) {b r : List UInt8} {tx : TxData}
    (hread : (TxData.readFrom sha3).run b = .ok (tx, r)) (hids : DistinctInputIDs api sha3 tx)
    {x : Hash × TxHeader × EntryMap} (hx : mapTx api sha3 tx = .ok x) :
    (∀ orders, InputIDsCorrespond api sha3 orders tx) ↔ CoinbaseFirst tx := by
  obtain ⟨p, -, htx⟩ := (TxData.readFrom_reads sha3).split hread
  exact ⟨coinbase_first_of_correspond doc htx hids hx, inputIDs_correspond doc htx hids hx⟩

end

/-! ### A concrete package `bc` -/

/-- An ID of four words: the type, and a number that tells the inputs apart. -/
def tagID : Entry → Hash
  | .txHeader _ => ⟨0, 0, 0, 0⟩
  | .mux _ => ⟨1, 0, 0, 0⟩
  | .coinbase e => ⟨2, (e.arbitrary.headD 0).toUInt64, 0, 0⟩
  | .output e => ⟨3, e.ordinal, 0, 0⟩
  | .retirement e => ⟨4, e.ordinal, 0, 0⟩
  | .issuance e => ⟨5, e.ordinal, 0, 0⟩
  | .spend e => ⟨6, e.ordinal, 0, 0⟩

/-- Functions with the documented behaviour. -/
def tagApi : EntryApi where
  entryID := tagID
  newIssuance nonceHash value ordinal := ⟨some nonceHash, some value, none, none, [], ordinal⟩
  newOutput source controlProgram ordinal := ⟨some source, some controlProgram, ordinal⟩
  newSpend spentOutputID ordinal := ⟨some spentOutputID, none, [], ordinal⟩
  newCoinbase arbitrary := ⟨none, arbitrary⟩
  newMux sources program := ⟨sources, some program, [], []⟩
  newRetirement source ordinal := ⟨some source, ordinal⟩
  newTxHeader version size timeRange resultIDs := ⟨version, size, timeRange, resultIDs⟩
  setSpendDestination s id val pos := { s with witnessDestination := some ⟨some id, val, pos⟩ }
  setIssuanceDestination e id val pos :=
    { e with witnessDestination := some ⟨some id, val, pos⟩ }
  setCoinbaseDestination c id val pos :=
    { c with witnessDestination := some ⟨some id, val, pos⟩ }
  inputAssetAmount _ := ⟨none, 0⟩
  isUnspendable _ := false
  opTrue := 0x51

theorem tagApi_documented : tagApi.Documented where
  newIssuance_eq _ _ _ := rfl
  newOutput_eq _ _ _ := rfl
  newSpend_eq _ _ := rfl
  newCoinbase_eq _ := rfl
  newMux_eq _ _ := rfl
  newRetirement_eq _ _ := rfl
  newTxHeader_eq _ _ _ _ := rfl
  setSpendDestination_eq _ _ _ _ := rfl
  setIssuanceDestination_eq _ _ _ _ := rfl
  setCoinbaseDestination_eq _ _ _ _ := rfl
  entryID_kind _ _ e _ e' _ h := by
    cases e <;> cases e' <;> simp_all [tagApi, tagID, entryKind]

/-- A hash function with one value. -/
def zeroSha3 : List UInt8 → FixedBytes 32 := fun _ => Hash.zero.byte32

/-- The identity order of iteration, for both maps. -/
def idOrders : MapTxOrders := ⟨⟨id, fun _ => .refl _⟩, ⟨id, fun _ => .refl _⟩⟩

/-- A coinbase input, and an output of an unknown asset version. -/
def coinbaseInput : TxInput := ⟨1, some (.coinbase ⟨[8]⟩), [], []⟩

def unknownOutput : TxOutput := ⟨2, .zero, []⟩

/-- A spend of the zero hash. -/
def spendInput : TxInput :=
  ⟨1, some (.spend ⟨[], [], ⟨⟨some ⟨Hash.zero⟩, 0⟩, Hash.zero, 0, 1, []⟩⟩), [], []⟩

/-- A spend followed by a coinbase. -/
def spendThenCoinbase : TxData := ⟨1, 88, 0, [spendInput, coinbaseInput], [unknownOutput]⟩

def spendThenCoinbaseBytes : List UInt8 :=
  [7, 1, 0, 2] ++ ([1, 70, 1, 68] ++ List.replicate 64 0 ++ [0, 0, 1, 0] ++ [1, 0]) ++
    [1, 3, 2, 1, 8, 0] ++ [1, 2, 0, 0]

/-- A coinbase alone. -/
def coinbaseAlone : TxData := ⟨1, 14, 0, [coinbaseInput], [unknownOutput]⟩

/-- The two inputs have the IDs `(6, 0)` and `(2, 8)`. -/
theorem spendThenCoinbase_distinct : DistinctInputIDs tagApi zeroSha3 spendThenCoinbase :=
  distinctInputIDs_of_nodup (by decide)

/-- The spend and the coinbase are both written to position 0, and nothing is written
to position 1. -/
theorem inputIDs_coinbase_second :
    tagApi.Documented ∧
      (TxData.readFrom zeroSha3).run spendThenCoinbaseBytes = .ok (spendThenCoinbase, []) ∧
      DistinctInputIDs tagApi zeroSha3 spendThenCoinbase ∧
      (∃ x, mapTx tagApi zeroSha3 spendThenCoinbase = .ok x) ∧
      ¬ InputIDsCorrespond tagApi zeroSha3 idOrders spendThenCoinbase := by
  refine ⟨tagApi_documented, by rfl, spendThenCoinbase_distinct, ⟨_, rfl⟩, ?_⟩
  rintro ⟨btx, hbtx, hall⟩
  have hids : (MapTx tagApi zeroSha3 idOrders spendThenCoinbase).map (·.inputIDs) =
      .ok [⟨6, 0, 0, 0⟩, Hash.zero] := by rfl
  rw [hbtx] at hids
  have hlist : btx.inputIDs = [⟨6, 0, 0, 0⟩, Hash.zero] := Except.ok.inj hids
  have hsecond : btx.inputIDs[1]? = some Hash.zero := by
    rw [hlist]
    rfl
  -- Nothing was written to position 1, and the zero hash is not the ID of the coinbase.
  obtain ⟨e, he, hid⟩ := hall 1 coinbaseInput rfl
  obtain rfl := Option.some.inj he
  exact absurd (Option.some.inj (hsecond.symm.trans hid)) (by decide)

/-- The same inputs with the coinbase in front. -/
def coinbaseThenSpend : TxData := ⟨1, 88, 0, [coinbaseInput, spendInput], [unknownOutput]⟩

theorem coinbaseFirst_of_inputs {tx : TxData} (h : tx.inputs = [coinbaseInput, spendInput]) :
    CoinbaseFirst tx := by
  intro i input hi
  rw [h] at hi
  match i with
  | 0 =>
    obtain rfl := Option.some.inj hi
    exact ⟨by decide, fun _ => rfl⟩
  | 1 =>
    obtain rfl := Option.some.inj hi
    refine ⟨by decide, ?_⟩
    rintro ⟨ci, hci⟩
    cases hci

/-- With the coinbase in front of the spend both inputs have their ID, for every order of
iteration. -/
theorem inputIDs_coinbase_first :
    CoinbaseFirst coinbaseThenSpend ∧ DistinctInputIDs tagApi zeroSha3 coinbaseThenSpend ∧
      ∀ orders, InputIDsCorrespond tagApi zeroSha3 orders coinbaseThenSpend := by
  have hread : (TxData.readFrom zeroSha3).run
      ([7, 1, 0, 2] ++ [1, 3, 2, 1, 8, 0] ++
        ([1, 70, 1, 68] ++ List.replicate 64 0 ++ [0, 0, 1, 0] ++ [1, 0]) ++ [1, 2, 0, 0]) =
      .ok (coinbaseThenSpend, []) := by rfl
  have hfirst : CoinbaseFirst coinbaseThenSpend := coinbaseFirst_of_inputs rfl
  have hids : DistinctInputIDs tagApi zeroSha3 coinbaseThenSpend :=
    distinctInputIDs_of_nodup (by decide)
  have hmap : ∃ x, mapTx tagApi zeroSha3 coinbaseThenSpend = .ok x := ⟨_, rfl⟩
  obtain ⟨x, hx⟩ := hmap
  exact ⟨hfirst, hids, (inputIDs_correspond_iff tagApi_documented hread hids hx).mpr hfirst⟩

end BtmStats.Proofs.Types
