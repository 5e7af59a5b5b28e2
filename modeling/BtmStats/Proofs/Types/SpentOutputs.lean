import BtmStats.Lib.Runs
import BtmStats.Proofs.Types.EntryGraph

/-!
# `BtmStats.Proofs.Types.SpentOutputs`: the spent outputs and gas inputs of `MapTx`

`MapTx` goes through the entries in any order. It collects the spent output of each spend as the
key of a map, and the ID of each spend of the native asset in a list. `mapTxLoop_lists` says what
the loop collects.

Spend inputs of one output can share an entry, so what the map has under the ID of a spend input
may be the entry of another one. Without collisions the two spend the same output
(`MapTxResult.spend_at_key`), and the output has one asset.

The asset is read through a pointer that a transaction made by hand can leave nil. So the lists are
exact, and `MapTx` returns at all, if and only if every spend input names its asset
(`spentOutputs_reported_iff`).
-/

set_option autoImplicit false

namespace BtmStats.Proofs.Types

open Lib Spec Spec.Bc Spec.Types

/-! ### What the loop collects -/

/-- The output that an entry spends. -/
def spentOutput? : Entry → Option Hash
  | .spend e => e.spentOutputId
  | _ => none

/-- The asset that a spend reads through its destination. -/
def destinationAsset (e : Spend) : Option AssetID :=
  (e.witnessDestination.bind ValueDestination.value).bind AssetAmount.assetId

/-- The entry is a gas input. -/
def isGasInput : Entry → Bool
  | .spend e => decide (destinationAsset e = some btmAssetID)
  | _ => false

theorem setInputID_lists (s : MapTxState) (ord : UInt64) (id : Hash) :
    (s.setInputID ord id).spentOutputIDs = s.spentOutputIDs ∧
      (s.setInputID ord id).gasInputIDs = s.gasInputIDs := by
  rw [MapTxState.setInputID]
  split <;> exact ⟨rfl, rfl⟩

/-- What the loop body collects of an entry. -/
theorem mapTxEntry_lists {s s' : MapTxState} {id : Hash} {e : Entry}
    (h : mapTxEntry s id e = .ok s') :
    Readable e ∧
      s'.spentOutputIDs = (spentOutput? e).toList.foldl (fun l a => l.insert a) s.spentOutputIDs ∧
      s'.gasInputIDs = s.gasInputIDs ++ if isGasInput e then [id] else [] := by
  cases e with
  | spend e =>
    simp only [mapTxEntry, bind_eq_ok_iff] at h
    obtain ⟨spent, hspent, dest, hdest, value, hvalue, assetId, hasset, hs'⟩ := h
    cases hs'
    replace hspent := orPanic_eq_ok.mp hspent
    replace hdest := orPanic_eq_ok.mp hdest
    replace hvalue := orPanic_eq_ok.mp hvalue
    replace hasset := orPanic_eq_ok.mp hasset
    have hgas : isGasInput (.spend e) = decide (assetId = btmAssetID) := by
      simp only [isGasInput, destinationAsset, hdest, hvalue, hasset, Option.bind_some,
        Option.some.injEq]
    obtain ⟨hlist, hlist'⟩ := setInputID_lists { s with
      spentOutputIDs := s.spentOutputIDs.insert spent
      gasInputIDs := if assetId = btmAssetID then s.gasInputIDs ++ [id] else s.gasInputIDs }
      e.ordinal id
    refine ⟨⟨⟨spent, hspent⟩, dest, value, assetId, hdest, hvalue, hasset⟩, ?_, ?_⟩
    · rw [hlist, spentOutput?, hspent]
      rfl
    · rw [hlist', hgas]
      by_cases hbtm : assetId = btmAssetID
      · simp only [hbtm, if_true, decide_true]
      · simp only [hbtm, if_false, decide_false, Bool.false_eq_true, List.append_nil]
  | issuance e =>
    cases h
    obtain ⟨hspent, hgas⟩ := setInputID_lists s e.ordinal id
    exact ⟨trivial, hspent, hgas.trans (List.append_nil _).symm⟩
  | coinbase e =>
    cases h
    obtain ⟨hspent, hgas⟩ := setInputID_lists s 0 id
    exact ⟨trivial, hspent, hgas.trans (List.append_nil _).symm⟩
  | _ =>
    cases h
    exact ⟨trivial, rfl, (List.append_nil _).symm⟩

/-- What the loop collects of the entries that it visits. Induction on the entries. -/
theorem mapTxLoop_lists {heap : List Entry} {l : List (Sigma fun _ : Hash => Nat)}
    {s s' : MapTxState} (h : mapTxLoop heap l s = .ok s') :
    (∀ y ∈ l, ∃ e, heap[y.2]? = some e ∧ Readable e) ∧
      (∀ id, id ∈ s'.spentOutputIDs ↔
        id ∈ s.spentOutputIDs ∨ ∃ y ∈ l, heap[y.2]?.bind spentOutput? = some id) ∧
      (s.spentOutputIDs.Nodup → s'.spentOutputIDs.Nodup) ∧
      s'.gasInputIDs =
        s.gasInputIDs ++ (l.filter fun y => heap[y.2]?.any isGasInput).map Sigma.fst := by
  induction l generalizing s with
  | nil =>
    cases h
    simp
  | cons y rest ih =>
    obtain ⟨id, p⟩ := y
    simp only [mapTxLoop, bind_eq_ok_iff] at h
    obtain ⟨e, he, s₁, hfirst, hrest⟩ := h
    replace he := orPanic_eq_ok.mp he
    obtain ⟨hread, hspent₁, hgas₁⟩ := mapTxEntry_lists hfirst
    obtain ⟨hreads, hspent, hnodup, hgas⟩ := ih hrest
    refine ⟨List.forall_mem_cons.mpr ⟨⟨e, he, hread⟩, hreads⟩, fun id' => ?_, fun hs => ?_, ?_⟩
    · rw [hspent, hspent₁, List.exists_mem_cons_iff, he, Option.bind_some, ← or_assoc]
      refine or_congr_left ?_
      cases spentOutput? e with
      | none => simp
      | some a => simp [or_comm, eq_comm]
    · refine hnodup ?_
      rw [hspent₁]
      cases spentOutput? e with
      | none => exact hs
      | some a => exact hs.insert
    · rw [hgas, hgas₁, List.append_assoc, List.filter_cons, he, Option.any_some]
      cases isGasInput e <;> rfl

/-! ### The spends in the map -/

section
variable {api : EntryApi} {sha3 : List UInt8 → FixedBytes 32} {tx : TxData}
  {x : Hash × TxHeader × EntryMap}

/-- The ID of the output that a spend input spends. -/
def prevoutID (api : EntryApi) (inp : SpendInput) : Hash :=
  api.entryID (.output (mapPrevout api inp))

/-- Input `k` is a spend input. -/
def SpendInputAt (tx : TxData) (k : Nat) (inp : SpendInput) : Prop :=
  ∃ input, tx.inputs[k]? = some input ∧ input.typedInput = some (.spend inp)

variable {inp : SpendInput} {k : Nat}

theorem SpendInputAt.spendInputOf (h : SpendInputAt tx k inp) : SpendInputOf tx inp := by
  obtain ⟨input, hk, ht⟩ := h
  exact ⟨input, List.mem_of_getElem? hk, ht⟩

theorem SpendInputOf.exists_at (h : SpendInputOf tx inp) : ∃ k, SpendInputAt tx k inp := by
  obtain ⟨input, hmem, ht⟩ := h
  obtain ⟨k, hk⟩ := List.mem_iff_getElem?.mp hmem
  exact ⟨k, input, hk, ht⟩

theorem SpendInputAt.mem_addedEntries (h : SpendInputAt tx k inp) :
    Entry.spend (mapSpend api k inp) ∈ addedEntries api sha3 tx := by
  obtain ⟨input, hk, ht⟩ := h
  have hentry : inputEntry api sha3 k input = some (.spend (mapSpend api k inp)) := by
    rw [inputEntry, ht]
  exact mem_addedEntries_iff.mpr (.inl (inputEntry_mem hk hentry))

/-- A spend that was added is the one of a spend input. -/
theorem spendInputAt_of_mem {sp : Spend} (h : Entry.spend sp ∈ addedEntries api sha3 tx) :
    ∃ k inp, SpendInputAt tx k inp ∧ sp = mapSpend api k inp := by
  obtain ⟨k, input, hk, he⟩ := inputEntry_of_ordinal h (by simp [inputOrdinal])
  rcases inputEntry_cases he with ⟨_, _, he⟩ | ⟨inp, ht, he⟩ | ⟨_, _, he⟩
  · cases he
  · exact ⟨k, inp, ⟨input, hk, ht⟩, Entry.spend.inj he⟩
  · cases he

theorem spentOutputId_mapSpend (doc : api.Documented) (k : Nat) (inp : SpendInput) :
    (mapSpend api k inp).spentOutputId = some (prevoutID api inp) := by
  rw [mapSpend, doc.newSpend_eq]
  rfl

/-- What has become of the entry of a spend input: it spends the prevout, and its destination has
the asset of the prevout. -/
theorem spend_of_linked (doc : api.Documented) (hids : CollisionFree api sha3 tx)
    (hinp : SpendInputAt tx k inp) {e : Entry}
    (h : Linked api sha3 tx (.spend (mapSpend api k inp)) e) :
    ∃ sp, e = .spend sp ∧ sp.spentOutputId = some (prevoutID api inp) ∧
      destinationAsset sp = inp.spendCommitment.assetAmount.assetId := by
  obtain ⟨inp', hinp', hspent, rfl⟩ := h
  rw [spentOutputId_mapSpend doc, Option.some.injEq] at hspent
  have hasset := assetAmount_of_prevout_eq doc hids hinp.spendInputOf hinp' hspent
  refine ⟨_, rfl, ?_, ?_⟩
  · rw [doc.setSpendDestination_eq]
    exact spentOutputId_mapSpend doc k inp
  · rw [doc.setSpendDestination_eq, hasset]
    rfl

/-- Spend inputs whose entries have one ID spend one output. -/
theorem prevoutID_of_entryID_eq (doc : api.Documented) (hids : CollisionFree api sha3 tx) {k' : Nat}
    {inp' : SpendInput} (h : SpendInputAt tx k inp) (h' : SpendInputAt tx k' inp')
    (hid : api.entryID (.spend (mapSpend api k inp)) = api.entryID (.spend (mapSpend api k' inp')))
    : prevoutID api inp = prevoutID api inp' := by
  have hbody := hids _ h.mem_addedEntries _ h'.mem_addedEntries hid
  have hspent : spentOutput? (.spend (mapSpend api k inp)) =
      spentOutput? (.spend (mapSpend api k' inp')) := by
    calc spentOutput? (.spend (mapSpend api k inp))
        = spentOutput? (entryBody (.spend (mapSpend api k inp))) := rfl
      _ = spentOutput? (entryBody (.spend (mapSpend api k' inp'))) := by rw [hbody]
      _ = spentOutput? (.spend (mapSpend api k' inp')) := rfl
  rw [spentOutput?, spentOutput?, spentOutputId_mapSpend doc, spentOutputId_mapSpend doc] at hspent
  exact Option.some.inj hspent

/-- A spend that the map has is the one of a spend input, under the ID of its entry. -/
theorem MapTxResult.spendInput_of_key (doc : api.Documented) (hids : CollisionFree api sha3 tx)
    (h : MapTxResult api sha3 tx x) {id : Hash} {p : Nat} (hp : ⟨id, p⟩ ∈ x.2.2.index.entries)
    {sp : Spend} (hsp : x.2.2.heap[p]? = some (.spend sp)) :
    ∃ k inp, SpendInputAt tx k inp ∧ id = api.entryID (.spend (mapSpend api k inp)) ∧
      sp.spentOutputId = some (prevoutID api inp) ∧
      destinationAsset sp = inp.spendCommitment.assetAmount.assetId := by
  obtain ⟨e, e', he, hid, he', hlinked⟩ := h.entry hp
  cases hsp.symm.trans he'
  -- Linking keeps the type of an entry.
  have hkind : entryKind e = .spend := by
    rw [← entryKind_eraseWitness e, ← eraseWitness_of_linked doc hlinked]
    rfl
  cases e with
  | spend added =>
    obtain ⟨k, inp, hinp, rfl⟩ := spendInputAt_of_mem (List.mem_of_getElem? he)
    obtain ⟨sp', hsp', hspent, hasset⟩ := spend_of_linked doc hids hinp hlinked
    cases hsp'
    exact ⟨k, inp, hinp, hid.symm, hspent, hasset⟩
  | _ => cases hkind

/-- Under the ID of the entry of a spend input the map has a spend of the same output. -/
theorem MapTxResult.spend_at_key (doc : api.Documented) (hids : CollisionFree api sha3 tx)
    (h : MapTxResult api sha3 tx x) (hinp : SpendInputAt tx k inp) :
    ∃ p sp, ⟨api.entryID (.spend (mapSpend api k inp)), p⟩ ∈ x.2.2.index.entries ∧
      x.2.2.heap[p]? = some (.spend sp) ∧ sp.spentOutputId = some (prevoutID api inp) ∧
      destinationAsset sp = inp.spendCommitment.assetAmount.assetId := by
  obtain ⟨f, e', hf, hid, hlinked, hfind⟩ := h.find?_of_mem hinp.mem_addedEntries
  obtain ⟨p, hlookup, he'⟩ := Option.bind_eq_some_iff.mp hfind
  have hkind := doc.entryID_kind sha3 tx _ hf _ hinp.mem_addedEntries hid
  cases f with
  | spend added =>
    obtain ⟨k', inp', hinp', rfl⟩ := spendInputAt_of_mem hf
    obtain ⟨sp, rfl, hspent, hasset⟩ := spend_of_linked doc hids hinp' hlinked
    have hprevout := prevoutID_of_entryID_eq doc hids hinp' hinp hid
    refine ⟨p, sp, AList.mem_lookup_iff.mp hlookup, he', by rw [hspent, hprevout], ?_⟩
    rw [hasset, assetAmount_of_prevout_eq doc hids hinp'.spendInputOf hinp.spendInputOf hprevout]
  | _ => cases hkind

end

/-! ### The lists -/

/-- The spent outputs are the prevouts of the spend inputs, and the gas inputs are the entries of
the spend inputs of the native asset. None of them stands twice. -/
structure ReportsExactly (api : EntryApi) (tx : TxData) (btx : Bc.Tx) : Prop where
  mem_spentOutputIDs : ∀ id, id ∈ btx.spentOutputIDs ↔
    ∃ k inp, SpendInputAt tx k inp ∧ id = prevoutID api inp
  nodup_spentOutputIDs : btx.spentOutputIDs.Nodup
  mem_gasInputIDs : ∀ id, id ∈ btx.gasInputIDs ↔
    ∃ k inp, SpendInputAt tx k inp ∧
      inp.spendCommitment.assetAmount.assetId = some btmAssetID ∧
      id = api.entryID (.spend (mapSpend api k inp))
  nodup_gasInputIDs : btx.gasInputIDs.Nodup

section
variable {api : EntryApi} {sha3 : List UInt8 → FixedBytes 32} {tx : TxData}
  {x : Hash × TxHeader × EntryMap}

theorem spentOutput?_eq_some {e : Entry} {id : Hash} :
    spentOutput? e = some id ↔ ∃ sp, e = .spend sp ∧ sp.spentOutputId = some id := by
  cases e <;> simp [spentOutput?]

theorem isGasInput_eq_true {e : Entry} :
    isGasInput e = true ↔ ∃ sp, e = .spend sp ∧ destinationAsset sp = some btmAssetID := by
  cases e <;> simp [isGasInput]

theorem gasSpend_of_any {heap : List Entry} {p : Nat} (h : heap[p]?.any isGasInput = true) :
    ∃ sp, heap[p]? = some (.spend sp) ∧ destinationAsset sp = some btmAssetID := by
  cases he : heap[p]? with
  | none =>
    rw [he] at h
    cases h
  | some e =>
    rw [he, Option.any_some] at h
    obtain ⟨sp, rfl, hbtm⟩ := isGasInput_eq_true.mp h
    exact ⟨sp, rfl, hbtm⟩

/-- The spends in the map spend the prevouts of the spend inputs. -/
theorem MapTxResult.spentOutput_iff (doc : api.Documented) (hids : CollisionFree api sha3 tx)
    (h : MapTxResult api sha3 tx x) (id : Hash) :
    (∃ y ∈ x.2.2.index.entries, x.2.2.heap[y.2]?.bind spentOutput? = some id) ↔
      ∃ k inp, SpendInputAt tx k inp ∧ id = prevoutID api inp := by
  constructor
  · rintro ⟨⟨key, p⟩, hmem, hy⟩
    obtain ⟨e, he, hid⟩ := Option.bind_eq_some_iff.mp hy
    obtain ⟨sp, rfl, hsp⟩ := spentOutput?_eq_some.mp hid
    obtain ⟨k, inp, hinp, -, hprevout, -⟩ := h.spendInput_of_key doc hids hmem he
    exact ⟨k, inp, hinp, Option.some.inj (hsp.symm.trans hprevout)⟩
  · rintro ⟨k, inp, hinp, rfl⟩
    obtain ⟨p, sp, hmem, hsp, hprevout, -⟩ := h.spend_at_key doc hids hinp
    refine ⟨_, hmem, ?_⟩
    rw [hsp]
    exact hprevout

/-- The gas inputs in the map are the entries of the spend inputs of the native asset. -/
theorem MapTxResult.gasInput_iff (doc : api.Documented) (hids : CollisionFree api sha3 tx)
    (h : MapTxResult api sha3 tx x) (id : Hash) :
    (∃ y ∈ x.2.2.index.entries, x.2.2.heap[y.2]?.any isGasInput = true ∧ y.1 = id) ↔
      ∃ k inp, SpendInputAt tx k inp ∧
        inp.spendCommitment.assetAmount.assetId = some btmAssetID ∧
        id = api.entryID (.spend (mapSpend api k inp)) := by
  constructor
  · rintro ⟨⟨key, p⟩, hmem, hany, rfl⟩
    obtain ⟨sp, he, hbtm⟩ := gasSpend_of_any hany
    obtain ⟨k, inp, hinp, hkey, -, hasset⟩ := h.spendInput_of_key doc hids hmem he
    exact ⟨k, inp, hinp, hasset.symm.trans hbtm, hkey⟩
  · rintro ⟨k, inp, hinp, hbtm, rfl⟩
    obtain ⟨p, sp, hmem, hsp, -, hasset⟩ := h.spend_at_key doc hids hinp
    refine ⟨⟨_, p⟩, hmem, ?_, rfl⟩
    rw [hsp, Option.any_some, isGasInput_eq_true]
    exact ⟨sp, rfl, hasset.trans hbtm⟩

/-- What `MapTx` returns, from the loop over the entries. -/
theorem MapTx_loop {orders : MapTxOrders} {btx : Bc.Tx} (hx : mapTx api sha3 tx = .ok x)
    (h : MapTx api sha3 orders tx = .ok btx) :
    ∃ s, mapTxLoop x.2.2.heap (orders.entries.apply x.2.2.index.entries)
        ⟨List.replicate tx.inputs.length Hash.zero, [], []⟩ = .ok s ∧
      btx.spentOutputIDs = orders.spentOutputIDs.apply s.spentOutputIDs ∧
      btx.gasInputIDs = s.gasInputIDs := by
  obtain ⟨y, hy, hrest⟩ := bind_eq_ok_iff.mp h
  cases hx.symm.trans hy
  obtain ⟨s, hs, hbtx⟩ := bind_eq_ok_iff.mp hrest
  cases hbtx
  exact ⟨s, hs, rfl, rfl⟩

/-- If `MapTx` returns, its lists are exact, and every spend input names its asset. -/
theorem reportsExactly_of_MapTx (doc : api.Documented) (hids : CollisionFree api sha3 tx)
    (hx : mapTx api sha3 tx = .ok x) {orders : MapTxOrders} {btx : Bc.Tx}
    (h : MapTx api sha3 orders tx = .ok btx) :
    ReportsExactly api tx btx ∧ ∀ k inp, SpendInputAt tx k inp →
      ∃ assetId, inp.spendCommitment.assetAmount.assetId = some assetId := by
  have hresult := mapTx_result doc hx
  obtain ⟨s, hs, hspentIDs, hgasIDs⟩ := MapTx_loop hx h
  obtain ⟨hreads, hspent, hnodup, hgas⟩ := mapTxLoop_lists hs
  have hperm := orders.entries.perm x.2.2.index.entries
  have hkeys : ((orders.entries.apply x.2.2.index.entries).map Sigma.fst).Nodup :=
    (hperm.map Sigma.fst).nodup_iff.mpr x.2.2.index.nodupKeys
  refine ⟨⟨fun id => ?_, ?_, fun id => ?_, ?_⟩, fun k inp hinp => ?_⟩
  · rw [hspentIDs, (orders.spentOutputIDs.perm _).mem_iff, hspent,
      ← hresult.spentOutput_iff doc hids, or_iff_right List.not_mem_nil]
    exact exists_congr fun y => and_congr_left fun _ => hperm.mem_iff
  · rw [hspentIDs]
    exact (orders.spentOutputIDs.perm _).nodup_iff.mpr (hnodup List.nodup_nil)
  · rw [hgasIDs, hgas, List.nil_append, List.mem_map, ← hresult.gasInput_iff doc hids]
    refine exists_congr fun y => ?_
    rw [List.mem_filter, hperm.mem_iff, and_assoc]
  · rw [hgasIDs, hgas, List.nil_append]
    exact (List.filter_sublist.map Sigma.fst).nodup hkeys
  · -- The loop has read the asset of the spend under the ID of this input.
    obtain ⟨p, sp, hmem, hsp, -, hasset⟩ := hresult.spend_at_key doc hids hinp
    obtain ⟨e, he, hread⟩ := hreads _ (hperm.mem_iff.mpr hmem)
    cases hsp.symm.trans he
    obtain ⟨-, dest, value, assetId, hdest, hvalue, hid⟩ := hread
    refine ⟨assetId, ?_⟩
    rw [← hasset, destinationAsset, hdest, Option.bind_some, hvalue, Option.bind_some, hid]

/-- For every transaction for which `mapTx` returns, in every order of iteration: `MapTx` returns
with exact lists if and only if every spend input names its asset. If some spend input has a
nil asset ID, `MapTx` panics. -/
theorem spentOutputs_reported_iff (doc : api.Documented) (hids : CollisionFree api sha3 tx)
    (hx : mapTx api sha3 tx = .ok x) (orders : MapTxOrders) :
    ((∃ btx, MapTx api sha3 orders tx = .ok btx ∧ ReportsExactly api tx btx) ↔
      ∀ k inp, SpendInputAt tx k inp →
        ∃ assetId, inp.spendCommitment.assetAmount.assetId = some assetId) ∧
    ∀ k inp, SpendInputAt tx k inp → inp.spendCommitment.assetAmount.assetId = none →
      ∃ panic, MapTx api sha3 orders tx = .error panic := by
  refine ⟨⟨?_, ?_⟩, ?_⟩
  · rintro ⟨btx, hbtx, -⟩
    exact (reportsExactly_of_MapTx doc hids hx hbtx).2
  · intro hasset
    obtain ⟨btx, hbtx, -⟩ := MapTx_ok_of_assets doc (fun inp hinp => by
      obtain ⟨k, hk⟩ := hinp.exists_at
      exact hasset k inp hk) hx orders
    exact ⟨btx, hbtx, (reportsExactly_of_MapTx doc hids hx hbtx).1⟩
  · intro k inp hinp hnil
    cases hbtx : MapTx api sha3 orders tx with
    | error panic => exact ⟨panic, rfl⟩
    | ok btx =>
      obtain ⟨assetId, hasset⟩ := (reportsExactly_of_MapTx doc hids hx hbtx).2 k inp hinp
      cases hnil.symm.trans hasset

end

/-! ### Two spends of one output, and a spend without an asset -/

/-- Two inputs spend one output of the native asset, and a third one spends another asset. -/
def gasTx : TxData :=
  let gasInput := newSpendInput [] ⟨1, 0, 0, 0⟩ btmAssetID 5 0 [1]
  ⟨1, 0, 0, [gasInput, gasInput, newSpendInput [] ⟨2, 0, 0, 0⟩ ⟨Hash.zero⟩ 7 0 [1]], []⟩

/-- The output that is spent twice is reported once, as is the entry of the two inputs. -/
theorem gasTx_reported :
    (∃ btx, MapTx bodyApi zeroSha3 idOrders gasTx = .ok btx ∧ ReportsExactly bodyApi gasTx btx) ∧
      (MapTx bodyApi zeroSha3 idOrders gasTx).map (fun btx =>
        (btx.spentOutputIDs.length, btx.gasInputIDs)) = .ok (2, [⟨6, 1, 5, 0⟩]) := by
  have hids : CollisionFree bodyApi zeroSha3 gasTx := by
    unfold CollisionFree
    decide
  refine ⟨(spentOutputs_reported_iff bodyApi_documented hids rfl idOrders).1.mpr ?_, by rfl⟩
  rintro k inp ⟨input, hk, ht⟩
  have hmem := List.mem_of_getElem? hk
  simp only [gasTx, List.mem_cons, List.not_mem_nil, or_false] at hmem
  rcases hmem with rfl | rfl | rfl <;> cases ht <;> exact ⟨_, rfl⟩

/-- A spend whose asset ID is nil. -/
def namelessSpend : TxInput :=
  ⟨1, some (.spend ⟨[], [], ⟨⟨none, 5⟩, ⟨1, 0, 0, 0⟩, 0, 1, [1]⟩⟩), [], []⟩

/-- `mapTx` returns, and `MapTx` panics. -/
theorem namelessSpend_panics :
    bodyApi.Documented ∧ CollisionFree bodyApi zeroSha3 ⟨1, 0, 0, [namelessSpend], []⟩ ∧
      (∃ x, mapTx bodyApi zeroSha3 ⟨1, 0, 0, [namelessSpend], []⟩ = .ok x) ∧
      MapTx bodyApi zeroSha3 idOrders ⟨1, 0, 0, [namelessSpend], []⟩ = .error .nilDereference := by
  refine ⟨bodyApi_documented, ?_, ⟨_, rfl⟩, by rfl⟩
  unfold CollisionFree
  decide

end BtmStats.Proofs.Types
