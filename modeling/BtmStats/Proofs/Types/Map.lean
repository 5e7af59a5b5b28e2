import BtmStats.Lib.Writes
import BtmStats.Proofs.Types.Transaction
import BtmStats.Spec.Types.Map

/-!
# `BtmStats.Proofs.Types.Map`: what `mapTx` builds

`mapTx` adds the entries of the inputs, the mux, the results and the header to one
map. `inputEntries` and `resultEntries` are the entries as they are added. The loops
are followed with one invariant each:

* `InputsInv`: the loop over the inputs has added `inputEntries` and nothing else,
  and its lists of pointers are exactly the places of the spends and the issuances.
* `connectSpends_eq`, `connectIssuances_eq`: the two loops that connect the inputs
  write to these places only.
* `mapOutputs_spec`: the loop over the outputs adds `resultEntries` and writes to
  the mux only.

`MapTx.lean` puts the loops together.
-/

set_option autoImplicit false

namespace BtmStats.Proofs.Types

open Lib Spec Spec.Bc Spec.Types

section
variable (api : EntryApi) (sha3 : List UInt8 → FixedBytes 32)

/-! ### The entries as they are added -/

/-- The entry that stands for an input. -/
def inputEntry (i : Nat) (input : TxInput) : Option Entry :=
  match input.typedInput with
  | some (.issuance inp) => some (.issuance (mapIssuance api sha3 i input inp))
  | some (.spend inp) => some (.spend (mapSpend api i inp))
  | some (.coinbase inp) => some (.coinbase (api.newCoinbase inp.arbitrary))
  | none => none

/-- All entries of an input: a spend comes after its prevout. -/
def inputEntries (i : Nat) (input : TxInput) : List Entry :=
  match input.typedInput with
  | some (.spend inp) => [.output (mapPrevout api inp), .spend (mapSpend api i inp)]
  | _ => (inputEntry api sha3 i input).toList

/-- The entries of the inputs from input `i` on. -/
def inputsEntries : Nat → List TxInput → List Entry
  | _, [] => []
  | i, input :: rest => inputEntries api sha3 i input ++ inputsEntries (i + 1) rest

/-- The mux source of an input. -/
def inputSource (tx : TxData) (i : Nat) (input : TxInput) : Option ValueSource :=
  match input.typedInput with
  | some (.issuance inp) =>
    some ⟨some (api.entryID (.issuance (mapIssuance api sha3 i input inp))),
      some (api.inputAssetAmount input), 0⟩
  | some (.spend inp) =>
    some ⟨some (api.entryID (.spend (mapSpend api i inp))),
      some inp.spendCommitment.assetAmount, 0⟩
  | some (.coinbase inp) =>
    tx.outputs.head?.map fun out =>
      ⟨some (api.entryID (.coinbase (api.newCoinbase inp.arbitrary))),
        some out.outputCommitment.assetAmount, 0⟩
  | none => none

/-- The mux sources of the inputs from input `i` on. -/
def inputsSources (tx : TxData) : Nat → List TxInput → List (Option ValueSource)
  | _, [] => []
  | i, input :: rest => inputSource api sha3 tx i input :: inputsSources tx (i + 1) rest

/-- The entries of the outputs from output `i` on. -/
def resultEntries (muxID : Hash) : Nat → List TxOutput → List Entry
  | _, [] => []
  | i, out :: rest => mapResult api muxID i out :: resultEntries muxID (i + 1) rest

/-- A coinbase input. -/
def IsCoinbase (input : TxInput) : Prop := ∃ ci, input.typedInput = some (.coinbase ci)

/-! ### The loop over the inputs -/

/-- The loop has added the entries `added`, and the pointers are the places of the
spends, the issuances and a coinbase. -/
structure InputsInv (s : InputsState) (added : List Entry) : Prop where
  heap_eq : s.entryMap.heap = added
  adds : s.entryMap.Adds api.entryID added
  mem_spends : ∀ p sp, (p, sp) ∈ s.spends ↔ added[p]? = some (.spend sp)
  mem_issuances : ∀ p iss, (p, iss) ∈ s.issuances ↔ added[p]? = some (.issuance iss)
  of_coinbase : ∀ p c, s.coinbase = some (p, c) → added[p]? = some (.coinbase c)
  coinbase_none : s.coinbase = none → ∀ c, Entry.coinbase c ∉ added

variable {api sha3}

/-- One more entry. The pointers gain its place if it is of their type. -/
theorem InputsInv.concat {s s' : InputsState} {added : List Entry} (h : InputsInv api s added)
    (e : Entry) (hmap : s'.entryMap = addEntry api e s.entryMap)
    (hspends : ∀ p sp, (p, sp) ∈ s'.spends ↔
      (p, sp) ∈ s.spends ∨ (p = added.length ∧ e = .spend sp))
    (hissuances : ∀ p iss, (p, iss) ∈ s'.issuances ↔
      (p, iss) ∈ s.issuances ∨ (p = added.length ∧ e = .issuance iss))
    (hcoinbase : (s'.coinbase = s.coinbase ∧ ∀ c, e ≠ .coinbase c) ∨
      ∃ c, e = .coinbase c ∧ s'.coinbase = some (added.length, c)) :
    InputsInv api s' (added ++ [e]) := by
  refine ⟨?_, ?_, fun p sp => ?_, fun p iss => ?_, fun p c hc => ?_, fun hnone c hmem => ?_⟩
  · rw [hmap, addEntry, Arena.add, h.heap_eq]
  · rw [hmap]
    exact h.adds.add e
  · rw [hspends, h.mem_spends, getElem?_concat_eq_some]
  · rw [hissuances, h.mem_issuances, getElem?_concat_eq_some]
  · rw [getElem?_concat_eq_some]
    rcases hcoinbase with ⟨hsame, -⟩ | ⟨c', rfl, hc'⟩
    · exact .inl (h.of_coinbase p c (hsame ▸ hc))
    · rw [hc'] at hc
      -- A later coinbase replaces the pointer to an earlier one.
      obtain ⟨rfl, rfl⟩ := Prod.mk.inj (Option.some.inj hc)
      exact .inr ⟨rfl, rfl⟩
  · rcases hcoinbase with ⟨hsame, hne⟩ | ⟨c', -, hc'⟩
    · rcases List.mem_append.mp hmem with hmem | hmem
      · exact h.coinbase_none (hsame ▸ hnone) c hmem
      · exact hne c (List.mem_singleton.mp hmem).symm
    · rw [hc'] at hnone
      exact absurd hnone (by simp)

variable (api sha3) in
/-- The loop body returns unless a coinbase meets a transaction without outputs. -/
theorem mapInput_ok_iff (tx : TxData) (s : InputsState) (i : Nat) (input : TxInput) :
    (∃ s', mapInput api sha3 tx s i input = .ok s') ↔ (IsCoinbase input → tx.outputs ≠ []) := by
  rw [mapInput, IsCoinbase]
  rcases input.typedInput with _ | (inp | inp | inp)
  · simp
  · simp
  · simp
  · rcases tx.outputs with _ | ⟨out, outs⟩
    · simp [bind, Except.bind]
    · simp [bind, Except.bind]

variable {tx : TxData} {input : TxInput} {e : Entry} {i : Nat}

/-- One step of the loop adds the entries of its input. -/
theorem mapInput_inv {s s' : InputsState} {added : List Entry} (h : InputsInv api s added)
    (hs' : mapInput api sha3 tx s i input = .ok s') :
    InputsInv api s' (added ++ inputEntries api sha3 i input) ∧
      s'.muxSources = s.muxSources ++ [inputSource api sha3 tx i input] := by
  have hnext : s.entryMap.next = added.length := congrArg List.length h.heap_eq
  obtain ⟨assetVersion, typedInput, commitmentSuffix, witnessSuffix⟩ := input
  rcases typedInput with _ | (inp | inp | inp)
  · injection hs' with hs'
    subst hs'
    -- An input without a type adds a nil source and no entry.
    show InputsInv api _ (added ++ []) ∧ _
    rw [List.append_nil]
    exact ⟨⟨h.heap_eq, h.adds, h.mem_spends, h.mem_issuances, h.of_coinbase, h.coinbase_none⟩,
      rfl⟩
  · injection hs' with hs'
    subst hs'
    -- An issuance: its place is the next one.
    refine ⟨h.concat _ rfl ?_ ?_ (.inl ⟨rfl, by simp⟩), rfl⟩
    · intro p sp
      simp
    · intro p iss
      simp [hnext, eq_comm]
  · injection hs' with hs'
    subst hs'
    -- The prevout comes first, and no pointer to it is kept.
    have hprev : InputsInv api
        { s with entryMap := addEntry api (.output (mapPrevout api inp)) s.entryMap }
        (added ++ [.output (mapPrevout api inp)]) :=
      h.concat _ rfl (by simp) (by simp) (.inl ⟨rfl, by simp⟩)
    have hnext' : (addEntry api (.output (mapPrevout api inp)) s.entryMap).next =
        (added ++ [Entry.output (mapPrevout api inp)]).length :=
      congrArg List.length hprev.heap_eq
    show InputsInv api _
      (added ++ [Entry.output (mapPrevout api inp), Entry.spend (mapSpend api i inp)]) ∧ _
    rw [List.append_cons added]
    refine ⟨hprev.concat _ rfl ?_ ?_ (.inl ⟨rfl, by simp⟩), rfl⟩
    · intro p sp
      rw [List.mem_append, hnext', List.mem_singleton, Prod.mk.injEq, Entry.spend.injEq,
        eq_comm (a := sp)]
    · intro p iss
      simp
  · -- A coinbase reads `tx.Outputs[0]`, so it needs an output.
    rcases hout : tx.outputs with _ | ⟨out, outs⟩
    · simp [mapInput, hout, bind, Except.bind] at hs'
    · simp only [mapInput, hout, List.head?_cons, orPanic_some, bind, Except.bind,
        Except.ok.injEq] at hs'
      subst hs'
      refine ⟨h.concat _ rfl (by simp) (by simp) (.inr ⟨_, rfl, ?_⟩), ?_⟩
      · rw [hnext]
      · simp [inputSource, hout]

variable (api sha3) in
/-- The whole loop over the inputs returns when a coinbase comes with an output. -/
theorem mapInputs_ok_iff (tx : TxData) :
    ∀ (inputs : List TxInput) (i : Nat) (s : InputsState),
      (∃ s', mapInputs api sha3 tx i inputs s = .ok s') ↔
        ∀ input ∈ inputs, IsCoinbase input → tx.outputs ≠ [] := by
  intro inputs
  induction inputs with
  | nil => simp [mapInputs]
  | cons input rest ih =>
    intro i s
    rw [mapInputs, List.forall_mem_cons, ← mapInput_ok_iff api sha3 tx s i]
    cases h : mapInput api sha3 tx s i input with
    | error err => simp [bind, Except.bind]
    | ok s' =>
      simp only [bind, Except.bind, Except.ok.injEq, exists_eq', true_and]
      exact ih (i + 1) s'

/-- The whole loop adds the entries of all inputs. Induction on the inputs. -/
theorem mapInputs_inv :
    ∀ (inputs : List TxInput) (i : Nat) (s s' : InputsState) (added : List Entry),
      InputsInv api s added → mapInputs api sha3 tx i inputs s = .ok s' →
        InputsInv api s' (added ++ inputsEntries api sha3 i inputs) ∧
          s'.muxSources = s.muxSources ++ inputsSources api sha3 tx i inputs := by
  intro inputs
  induction inputs with
  | nil =>
    intro i s s' added h hs'
    injection hs' with hs'
    subst hs'
    rw [inputsEntries, inputsSources, List.append_nil, List.append_nil]
    exact ⟨h, rfl⟩
  | cons input rest ih =>
    intro i s s' added h hs'
    rw [mapInputs] at hs'
    cases hstep : mapInput api sha3 tx s i input with
    | error err =>
      rw [hstep] at hs'
      simp [bind, Except.bind] at hs'
    | ok s₁ =>
      rw [hstep] at hs'
      obtain ⟨hinv, hsources⟩ := mapInput_inv h hstep
      obtain ⟨hinv', hsources'⟩ := ih (i + 1) s₁ s' _ hinv hs'
      rw [inputsEntries, inputsSources, ← List.append_assoc, hsources', hsources,
        List.append_assoc s.muxSources]
      exact ⟨hinv', rfl⟩

/-! ### Connecting the inputs -/

/-- The value of the output that a spend spends, as the map has it. -/
def spentValue (m : EntryMap) (sp : Spend) : Option AssetAmount :=
  match sp.spentOutputId.bind m.find? with
  | some (.output o) => o.source.bind (·.value)
  | _ => none

/-- The write that connects a spend. -/
def spendWrite (api : EntryApi) (m : EntryMap) (muxID : Hash) (x : Nat × Spend) : Nat × Entry :=
  (x.1, .spend (api.setSpendDestination x.2 muxID (spentValue m x.2) x.2.ordinal))

/-- The write that connects an issuance. -/
def issuanceWrite (api : EntryApi) (muxID : Hash) (x : Nat × Issuance) : Nat × Entry :=
  (x.1, .issuance (api.setIssuanceDestination x.2 muxID x.2.value x.2.ordinal))

/-- The spends can be connected: their places hold spends, and the map has an output
with a source for what they spend. -/
structure Connectable (m : EntryMap) (spends : List (Nat × Spend)) : Prop where
  place : ∀ x ∈ spends, ∃ sp, m.heap[x.1]? = some (.spend sp)
  output : ∀ x ∈ spends, ∃ id o src, x.2.spentOutputId = some id ∧
    m.find? id = some (.output o) ∧ o.source = some src

/-- Writing a spend to the place of a spend changes no output. -/
theorem find?_set_spend {m : EntryMap} {p : Nat} {sp sp' : Spend} {id : Hash} {o : Output}
    (hp : m.heap[p]? = some (.spend sp)) (ho : m.find? id = some (.output o)) :
    (m.set p (.spend sp')).find? id = some (.output o) :=
  Arena.find?_set ho hp (by simp)

/-- The loop over the spends does not panic, and performs the writes of all spends.
Induction on the spends: a write leaves the outputs alone, so that what the later
spends read is what the map had at the start. -/
theorem connectSpends_eq (muxID : Hash) :
    ∀ (spends : List (Nat × Spend)) (m : EntryMap), Connectable m spends →
      connectSpends api muxID spends m =
        .ok ⟨writeAll m.heap (spends.map (spendWrite api m muxID)), m.index⟩ := by
  intro spends
  induction spends with
  | nil => exact fun _ _ => rfl
  | cons x rest ih =>
    intro m hm
    obtain ⟨p, spend⟩ := x
    obtain ⟨sp₀, hp⟩ : ∃ sp, m.heap[p]? = some (.spend sp) := hm.place _ List.mem_cons_self
    obtain ⟨id, o, src, hid, ho, hsrc⟩ : ∃ id o src, spend.spentOutputId = some id ∧
      m.find? id = some (.output o) ∧ o.source = some src := hm.output _ List.mem_cons_self
    have hvalue : spentValue m spend = src.value := by
      simp only [spentValue, hid, Option.bind_some, ho, hsrc]
    have hassert : assertOutput m id = .ok o := by
      rw [assertOutput, ho]
    -- What the loop writes for this spend, and that the rest can still be connected after
    -- it.
    let write := Entry.spend (api.setSpendDestination spend muxID src.value spend.ordinal)
    have hset : ∀ {id o}, m.find? id = some (.output o) →
        (m.set p write).find? id = some (.output o) := fun ho => find?_set_spend hp ho
    have hm' : Connectable (m.set p write) rest := by
      refine ⟨fun y hy => ?_, fun y hy => ?_⟩
      · obtain ⟨sp, hsp⟩ := hm.place y (List.mem_cons_of_mem _ hy)
        by_cases hpy : p = y.1
        · rw [← hpy]
          exact ⟨_, getElem?_set_of_some hp _⟩
        · exact ⟨sp, (List.getElem?_set_ne hpy).trans hsp⟩
      · obtain ⟨id', o', src', hid', ho', hsrc'⟩ := hm.output y (List.mem_cons_of_mem _ hy)
        exact ⟨id', o', src', hid', hset ho', hsrc'⟩
    -- The later writes read outputs only, and these are as before.
    have hwrites : rest.map (spendWrite api (m.set p write) muxID) =
        rest.map (spendWrite api m muxID) := by
      refine List.map_congr_left fun y hy => ?_
      obtain ⟨id', o', src', hid', ho', hsrc'⟩ := hm.output y (List.mem_cons_of_mem _ hy)
      simp only [spendWrite, spentValue, hid', Option.bind_some, ho', hset ho']
    rw [connectSpends]
    simp only [hid, orPanic_some, hassert, hsrc, bind, Except.bind]
    rw [ih _ hm', hwrites, List.map_cons, spendWrite, hvalue]
    rfl

/-- The loop over the issuances performs the writes of all issuances. -/
theorem connectIssuances_eq (muxID : Hash) :
    ∀ (issuances : List (Nat × Issuance)) (m : EntryMap),
      connectIssuances api muxID issuances m =
        ⟨writeAll m.heap (issuances.map (issuanceWrite api muxID)), m.index⟩ := by
  intro issuances
  induction issuances with
  | nil => exact fun _ => rfl
  | cons x rest ih =>
    intro m
    obtain ⟨p, issuance⟩ := x
    rw [connectIssuances, ih]
    rfl

variable (api) in
/-- The coinbase is connected when the first mux source is there. -/
theorem connectCoinbase_ok_iff (muxID : Hash) (mux : Mux) (p : Nat) (c : Coinbase)
    (m : EntryMap) :
    (∃ m', connectCoinbase api muxID mux (some (p, c)) m = .ok m') ↔
      ∃ src, mux.sources.head? = some (some src) := by
  rcases h : mux.sources.head? with _ | (_ | src)
  · simp [connectCoinbase, h, bind, Except.bind]
  · simp [connectCoinbase, h, bind, Except.bind]
  · simp [connectCoinbase, h, bind, Except.bind]

/-! ### The loop over the outputs -/

/-- The destinations that the mux is given for the outputs from output `i` on. -/
def resultDestinations (api : EntryApi) (muxID : Hash) :
    Nat → List TxOutput → List (Option ValueDestination)
  | _, [] => []
  | i, out :: rest =>
    some ⟨some (api.entryID (mapResult api muxID i out)),
      some out.outputCommitment.assetAmount, 0⟩ :: resultDestinations api muxID (i + 1) rest

/-- The loop over the outputs adds their results, collects their IDs, and changes the
mux and no other entry. Induction on the outputs. -/
theorem mapOutputs_spec (muxID : Hash) (p : Nat) :
    ∀ (outs : List TxOutput) (i : Nat) (mux : Mux) (ids : List (Option Hash)) (m : EntryMap)
      (added : List Entry), m.heap[p]? = some (.mux mux) → m.Adds api.entryID added →
      ∃ m', mapOutputs api muxID p i outs mux ids m =
          (ids ++ (resultEntries api muxID i outs).map (some ∘ api.entryID), m') ∧
        m'.Adds api.entryID (added ++ resultEntries api muxID i outs) ∧
        m'.heap = (m.heap ++ resultEntries api muxID i outs).set p (.mux { mux with
          witnessDestinations :=
            mux.witnessDestinations ++ resultDestinations api muxID i outs }) := by
  intro outs
  induction outs with
  | nil =>
    intro i mux ids m added hp hadds
    refine ⟨m, ?_, ?_, ?_⟩
    · rw [mapOutputs, resultEntries, List.map_nil, List.append_nil]
    · rw [resultEntries, List.append_nil]
      exact hadds
    · rw [resultEntries, resultDestinations, List.append_nil, List.append_nil]
      -- No output is left, and writing the mux back changes nothing.
      obtain ⟨hlt, hget⟩ := List.getElem?_eq_some_iff.mp hp
      show m.heap = m.heap.set p (.mux mux)
      rw [← hget, List.set_getElem_self]
  | cons out rest ih =>
    intro i mux ids m added hp hadds
    have hlt : p < m.heap.length := (List.getElem?_eq_some_iff.mp hp).1
    let result := mapResult api muxID i out
    let dest : ValueDestination :=
      ⟨some (api.entryID result), some out.outputCommitment.assetAmount, 0⟩
    let mux₁ : Mux :=
      { mux with witnessDestinations := mux.witnessDestinations ++ [some dest] }
    let m₁ := (addEntry api result m).set p (.mux mux₁)
    have hp₁ : m₁.heap[p]? = some (.mux mux₁) := by
      refine List.getElem?_set_self ?_
      rw [addEntry, Arena.add, List.length_append]
      omega
    obtain ⟨m', hrun, hadds', hheap⟩ := ih (i + 1) mux₁ (ids ++ [some (api.entryID result)]) m₁
      (added ++ [result]) hp₁ ((hadds.add result).set p _)
    refine ⟨m', ?_, ?_, ?_⟩
    · rw [mapOutputs, resultEntries, List.map_cons]
      rw [List.append_assoc] at hrun
      exact hrun
    · rw [resultEntries]
      rw [List.append_assoc] at hadds'
      exact hadds'
    · rw [hheap, resultEntries, resultDestinations]
      show (((m.heap ++ [result]).set p _ ++ _).set p _) = _
      -- The mux was written before and is overwritten now: the two writes to its place
      -- are one.
      rw [List.set_append_left _ _ (by rw [List.length_set, List.length_append]; omega),
        List.set_set, ← List.set_append_left _ _ (by rw [List.length_append]; omega),
        List.append_assoc]
      simp only [mux₁, List.append_assoc, List.singleton_append]
      rfl

/-! ### `mapTx` -/

/-- The spend inputs of a transaction. -/
def SpendInputOf (tx : TxData) (inp : SpendInput) : Prop :=
  ∃ input ∈ tx.inputs, input.typedInput = some (.spend inp)

/-- `mapTx` returns for these transactions: a coinbase input comes with an output,
and with a first input that is typed. -/
def Mappable (tx : TxData) : Prop :=
  ∀ input ∈ tx.inputs, IsCoinbase input →
    tx.outputs ≠ [] ∧ ∃ first, tx.inputs.head? = some first ∧ first.typedInput ≠ none

/-- The entry of an input, by the type of the input. -/
theorem inputEntry_cases (h : inputEntry api sha3 i input = some e) :
    (∃ inp, input.typedInput = some (.issuance inp) ∧
        e = .issuance (mapIssuance api sha3 i input inp)) ∨
      (∃ inp, input.typedInput = some (.spend inp) ∧ e = .spend (mapSpend api i inp)) ∨
      ∃ inp, input.typedInput = some (.coinbase inp) ∧
        e = .coinbase (api.newCoinbase inp.arbitrary) := by
  rw [inputEntry] at h
  split at h
  · exact .inl ⟨_, ‹_›, (Option.some.inj h).symm⟩
  · exact .inr (.inl ⟨_, ‹_›, (Option.some.inj h).symm⟩)
  · exact .inr (.inr ⟨_, ‹_›, (Option.some.inj h).symm⟩)
  · exact absurd h (by simp)

/-- An input is typed exactly when it has an entry. -/
theorem inputEntry_eq_none : inputEntry api sha3 i input = none ↔ input.typedInput = none := by
  rw [inputEntry]
  split <;> simp_all

/-- The entries of an input are its own and, for a spend, the prevout. -/
theorem mem_inputEntries :
    e ∈ inputEntries api sha3 i input ↔
      (∃ inp, input.typedInput = some (.spend inp) ∧ e = .output (mapPrevout api inp)) ∨
        inputEntry api sha3 i input = some e := by
  rw [inputEntries, inputEntry]
  split
  · rename_i inp ht
    simp [ht, eq_comm]
  · rename_i hne
    have hno : ¬ ∃ inp, input.typedInput = some (.spend inp) ∧
        e = .output (mapPrevout api inp) := fun ⟨inp, ht, _⟩ => hne inp ht
    rw [Option.mem_toList]
    simp only [hno, false_or]

/-- The entries of the inputs, input by input. -/
theorem mem_inputsEntries :
    ∀ (inputs : List TxInput) (i : Nat), e ∈ inputsEntries api sha3 i inputs ↔
      ∃ k input, inputs[k]? = some input ∧ e ∈ inputEntries api sha3 (i + k) input := by
  intro inputs
  induction inputs with
  | nil => simp [inputsEntries]
  | cons input rest ih =>
    intro i
    rw [inputsEntries, List.mem_append, ih (i + 1)]
    constructor
    · rintro (he | ⟨k, input', hk, he⟩)
      · exact ⟨0, input, rfl, he⟩
      · exact ⟨k + 1, input', hk, by rwa [← Nat.add_right_comm i k 1, Nat.add_assoc] at he⟩
    · rintro ⟨k, input', hk, he⟩
      cases k with
      | zero =>
        obtain rfl := Option.some.inj hk
        exact .inl he
      | succ k => exact .inr ⟨k, input', hk, by rwa [Nat.add_right_comm]⟩

/-- An entry of the inputs is a prevout or the entry of an input. -/
theorem inputsEntries_cases (h : e ∈ inputsEntries api sha3 0 tx.inputs) :
    (∃ inp, SpendInputOf tx inp ∧ e = .output (mapPrevout api inp)) ∨
      ∃ k input, tx.inputs[k]? = some input ∧ inputEntry api sha3 k input = some e := by
  obtain ⟨k, input, hk, he⟩ := (mem_inputsEntries tx.inputs 0).mp h
  rw [Nat.zero_add] at he
  rcases mem_inputEntries.mp he with ⟨inp, ht, rfl⟩ | he
  · exact .inl ⟨inp, ⟨input, List.mem_of_getElem? hk, ht⟩, rfl⟩
  · exact .inr ⟨k, input, hk, he⟩

/-- The entry of an input is among the entries of the inputs. -/
theorem inputEntry_mem {k : Nat} (hk : tx.inputs[k]? = some input)
    (he : inputEntry api sha3 k input = some e) : e ∈ inputsEntries api sha3 0 tx.inputs :=
  (mem_inputsEntries tx.inputs 0).mpr
    ⟨k, input, hk, mem_inputEntries.mpr (.inr (by rwa [Nat.zero_add]))⟩

/-- The outputs among the entries of the inputs are prevouts. -/
theorem output_mem_inputsEntries {o : Output} :
    Entry.output o ∈ inputsEntries api sha3 0 tx.inputs ↔
      ∃ inp, SpendInputOf tx inp ∧ o = mapPrevout api inp := by
  constructor
  · intro h
    rcases inputsEntries_cases h with ⟨inp, hinp, ho⟩ | ⟨k, input, hk, he⟩
    · exact ⟨inp, hinp, Entry.output.inj ho⟩
    · rcases inputEntry_cases he with ⟨_, _, he⟩ | ⟨_, _, he⟩ | ⟨_, _, he⟩ <;> simp at he
  · rintro ⟨inp, ⟨input, hmem, ht⟩, rfl⟩
    obtain ⟨k, hk⟩ := List.mem_iff_getElem?.mp hmem
    exact (mem_inputsEntries tx.inputs 0).mpr
      ⟨k, input, hk, mem_inputEntries.mpr (.inl ⟨inp, ht, rfl⟩)⟩

/-- The spends among the entries of the inputs are those of the spend inputs. -/
theorem spend_mem_inputsEntries {sp : Spend}
    (h : Entry.spend sp ∈ inputsEntries api sha3 0 tx.inputs) :
    ∃ k inp, SpendInputOf tx inp ∧ sp = mapSpend api k inp := by
  rcases inputsEntries_cases h with ⟨_, _, he⟩ | ⟨k, input, hk, he⟩
  · simp at he
  · rcases inputEntry_cases he with ⟨_, _, he⟩ | ⟨inp, ht, he⟩ | ⟨_, _, he⟩
    · simp at he
    · exact ⟨k, inp, ⟨input, List.mem_of_getElem? hk, ht⟩, Entry.spend.inj he⟩
    · simp at he

variable (api sha3) in
/-- There is a coinbase entry exactly when there is a coinbase input. -/
theorem coinbase_mem_inputsEntries (tx : TxData) :
    (∃ c, Entry.coinbase c ∈ inputsEntries api sha3 0 tx.inputs) ↔
      ∃ input ∈ tx.inputs, IsCoinbase input := by
  constructor
  · rintro ⟨c, hc⟩
    rcases inputsEntries_cases hc with ⟨_, _, he⟩ | ⟨k, input, hk, he⟩
    · simp at he
    · rcases inputEntry_cases he with ⟨_, _, he⟩ | ⟨_, _, he⟩ | ⟨inp, ht, _⟩
      · simp at he
      · simp at he
      · exact ⟨input, List.mem_of_getElem? hk, inp, ht⟩
  · rintro ⟨input, hmem, ci, ht⟩
    obtain ⟨k, hk⟩ := List.mem_iff_getElem?.mp hmem
    exact ⟨api.newCoinbase ci.arbitrary, inputEntry_mem hk (by simp [inputEntry, ht])⟩

end

end BtmStats.Proofs.Types
