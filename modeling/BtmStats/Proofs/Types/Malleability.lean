import BtmStats.Proofs.Encoding.Shortest
import BtmStats.Proofs.Types.Transaction

/-!
# `BtmStats.Proofs.Types.Malleability`: which bytes of a transaction are free

Two byte strings may be read as one transaction: an integer may be padded in one place
or in another, and the witness of an output is read and dropped
(`transaction_malleable`). There is no other freedom. The asset ID of an issuance is
recomputed, the counts and the lengths are those of what follows, and all other bytes are
stored.

`tightBytes` writes a transaction with no padding and with empty output witnesses. It is the
shortest string with the fields, and every other one can be made shorter by a byte: the proof
takes the grammar of transactions apart with the rules of `Lib.Shrinks`. So a string which is
not tight has a byte to give away. The version and the time range may both be padded, and
thus the byte can be given back elsewhere, unless every place is full. `bytes_determined_iff`
states the result: a transaction determines the bytes that it was read from exactly if they
are tight, or else longer than all others with the same fields.

The size of a transaction is the length of its bytes in 64 bits. Strings with the same fields
differ in length by less than `2 ^ 64` (`fields_spread`), so nothing is lost in the size.
-/

set_option autoImplicit false

namespace BtmStats.Proofs.Types

open Lib Spec Spec.Blockchain Spec.Types Proofs.Blockchain
open Spec.Bc (Hash AssetID AssetAmount)

/-! ### The bytes without padding -/

/-- Nothing is written for a nil asset ID, which no string stands for. -/
def tightAssetAmount (aa : AssetAmount) : List UInt8 :=
  (aa.assetId.elim [] AssetID.bytes) ++ putUvarint aa.amount.toNat

def tightSpendCommitment (sc : SpendCommitment) : List UInt8 :=
  sc.sourceID.bytes ++ (tightAssetAmount sc.assetAmount ++
    (putUvarint sc.sourcePosition.toNat ++ (putUvarint sc.vmVersion.toNat ++
      tightVarstr sc.controlProgram)))

def tightOutputCommitment (assetVersion : UInt64) (oc : OutputCommitment) : List UInt8 :=
  if assetVersion = 1 then
    tightAssetAmount oc.assetAmount ++
      (putUvarint oc.vmVersion.toNat ++ tightVarstr oc.controlProgram)
  else []

/-- The witness of an issuance or a spend; a coinbase has none. -/
def tightWitness : Option TypedInput → List UInt8
  | some (.issuance ii) =>
    tightVarstr ii.assetDefinition ++ (putUvarint ii.vmVersion.toNat ++
      (tightVarstr ii.issuanceProgram ++ tightVarstrList ii.arguments))
  | some (.spend si) => tightVarstrList si.arguments
  | some (.coinbase _) => []
  | none => []

/-- The witness of an output is the empty string. -/
def tightOutput (output : TxOutput) : List UInt8 :=
  putUvarint output.assetVersion.toNat ++
    (tightVarstr (tightOutputCommitment output.assetVersion output.outputCommitment ++
      output.commitmentSuffix) ++ tightVarstr [])

section
variable (sha3 : List UInt8 → FixedBytes 32)

/-- The commitment of an input behind the byte for its type. The asset ID of an issuance is
the recomputed one. -/
def tightCommitment : Option TypedInput → List UInt8
  | some (.issuance ii) =>
    [0] ++ (tightVarstr ii.nonce ++ ((ii.assetID sha3).bytes ++ putUvarint ii.amount.toNat))
  | some (.spend si) =>
    [1] ++ tightVarstr (tightSpendCommitment si.spendCommitment ++ si.spendCommitmentSuffix)
  | some (.coinbase ci) => [2] ++ tightVarstr ci.arbitrary
  | none => []

def tightInput (input : TxInput) : List UInt8 :=
  putUvarint input.assetVersion.toNat ++
    (tightVarstr (tightCommitment sha3 input.typedInput ++ input.commitmentSuffix) ++
      tightVarstr (tightWitness input.typedInput ++ input.witnessSuffix))

/-- The inputs and the outputs, each behind their number. -/
def tightLists (tx : TxData) : List UInt8 :=
  putUvarint tx.inputs.length ++ (tx.inputs.flatMap (tightInput sha3) ++
    (putUvarint tx.outputs.length ++ tx.outputs.flatMap tightOutput))

/-- A transaction with every integer as `binary.PutUvarint` writes it, that is without padding,
and with empty output witnesses. -/
def tightBytes (tx : TxData) : List UInt8 :=
  ([0x07] ++ putUvarint tx.version.toNat) ++
    (putUvarint tx.timeRange.toNat ++ tightLists sha3 tx)

end

/-! ### Amounts and commitments -/

theorem assetAmount_shrinks : Shrinks IsAssetAmount tightAssetAmount := by
  have hid : Shrinks (fun s (aa : AssetAmount) => ∃ id, aa.assetId = some id ∧ s = id.bytes)
      (fun aa => aa.assetId.elim [] AssetID.bytes) := by
    refine shrinks_of_eq ?_
    rintro _ aa ⟨id, hid, rfl⟩
    rw [hid]
    rfl
  refine (hid.cat (varint63_shrinks.part AssetAmount.amount)).congr fun s aa => ?_
  constructor
  · rintro ⟨_, amount, rfl, ⟨id, hid, rfl⟩, hamount⟩
    exact ⟨id, amount, rfl, hid, hamount⟩
  · rintro ⟨id, amount, rfl, hid, hamount⟩
    exact ⟨_, amount, rfl, ⟨id, hid, rfl⟩, hamount⟩

theorem spendCommitment_shrinks : Shrinks IsSpendCommitment tightSpendCommitment := by
  have hbody := ((assetAmount_shrinks.part SpendCommitment.assetAmount).cat
    ((varint63_shrinks.part SpendCommitment.sourcePosition).cat
    ((varint63_shrinks.part SpendCommitment.vmVersion).cat
    (varstr31_shrinks.part SpendCommitment.controlProgram)))).after fun sc => sc.sourceID.bytes
  refine (hbody.guard fun sc => sc.vmVersion = 1).congr fun s sc => ?_
  constructor
  · rintro ⟨hone, _, rfl, aa, _, rfl, haa, pos, _, rfl, hpos, vm, program, rfl, hvm, hprogram⟩
    exact ⟨aa, pos, vm, program, rfl, haa, hpos, hvm, hone, hprogram⟩
  · rintro ⟨aa, pos, vm, program, rfl, haa, hpos, hvm, hone, hprogram⟩
    exact ⟨hone, _, rfl, aa, _, rfl, haa, pos, _, rfl, hpos, vm, program, rfl, hvm, hprogram⟩

/-- An amount, a VM version and a program, as in the commitment of an output. -/
theorem isOutputCommitment_one (s : List UInt8) (oc : OutputCommitment) :
    (oc.vmVersion = 1 ∧ Cat (fun s oc => IsAssetAmount s oc.assetAmount)
      (Cat (fun s oc => IsVarint63 s oc.vmVersion) fun s oc => IsVarstr31 s oc.controlProgram)
      s oc) ↔ IsOutputCommitment 1 s oc := by
  rw [IsOutputCommitment, if_pos rfl]
  constructor
  · rintro ⟨hone, aa, _, rfl, haa, vm, program, rfl, hvm, hprogram⟩
    exact ⟨aa, vm, program, rfl, haa, hvm, hone, hprogram⟩
  · rintro ⟨aa, vm, program, rfl, haa, hvm, hone, hprogram⟩
    exact ⟨hone, aa, _, rfl, haa, vm, program, rfl, hvm, hprogram⟩

theorem outputCommitment_shrinks (assetVersion : UInt64) :
    Shrinks (IsOutputCommitment assetVersion) (tightOutputCommitment assetVersion) := by
  by_cases hversion : assetVersion = 1
  · subst hversion
    have hbody := (assetAmount_shrinks.part OutputCommitment.assetAmount).cat
      ((varint63_shrinks.part OutputCommitment.vmVersion).cat
      (varstr31_shrinks.part OutputCommitment.controlProgram))
    exact (hbody.guard fun oc => oc.vmVersion = 1).congr isOutputCommitment_one
  · refine shrinks_of_eq fun s oc hs => ?_
    rw [IsOutputCommitment, if_neg hversion] at hs
    rw [hs.1, tightOutputCommitment, if_neg hversion]

/-! ### Inputs -/

section
variable (sha3 : List UInt8 → FixedBytes 32)

/-- The commitment body of an input, without its witness. -/
def IsCommitmentBody (p : List UInt8) : Option TypedInput → Prop
  | some (.issuance ii) =>
    ∃ nonce amount, p = 0 :: (nonce ++ ((ii.assetID sha3).bytes ++ amount)) ∧
      IsVarstr31 nonce ii.nonce ∧ IsVarint63 amount ii.amount
  | some (.spend si) =>
    ∃ spend, p = 1 :: spend ∧ IsExtensibleString IsSpendCommitment spend
      (si.spendCommitment, si.spendCommitmentSuffix)
  | some (.coinbase ci) => ∃ arbitrary, p = 2 :: arbitrary ∧ IsVarstr31 arbitrary ci.arbitrary
  | none => p = []

/-- The witness body of an input, without its commitment. -/
def IsWitnessBody (p : List UInt8) : Option TypedInput → Prop
  | some (.issuance ii) =>
    ∃ definition vmVersion program arguments,
      p = definition ++ (vmVersion ++ (program ++ arguments)) ∧
      IsVarstr31 definition ii.assetDefinition ∧ IsVarint63 vmVersion ii.vmVersion ∧
      IsVarstr31 program ii.issuanceProgram ∧ IsVarstrList arguments ii.arguments
  | some (.spend si) => IsVarstrList p si.arguments
  | some (.coinbase _) => p = []
  | none => p = []

/-- The two bodies of an input say nothing about each other. -/
theorem isInputBodies_iff (assetVersion : UInt64) (commitment witness : List UInt8)
    (t : Option TypedInput) :
    IsInputBodies sha3 assetVersion commitment witness t ↔
      (t.isSome ↔ assetVersion = 1) ∧ IsCommitmentBody sha3 commitment t ∧
        IsWitnessBody witness t := by
  cases t with
  | none => simp [IsInputBodies, IsCommitmentBody, IsWitnessBody]
  | some t =>
    cases t <;> simp [IsInputBodies, IsTypedInput, IsCommitmentBody, IsWitnessBody]

theorem issuanceCommitment_shrinks :
    Shrinks (fun p ii => IsCommitmentBody sha3 p (some (.issuance ii)))
      (fun ii => tightCommitment sha3 (some (.issuance ii))) := by
  have hbody := ((varstr31_shrinks.part IssuanceInput.nonce).cat
    ((varint63_shrinks.part IssuanceInput.amount).after fun ii =>
      (ii.assetID sha3).bytes)).after fun _ => [0]
  refine hbody.congr fun s ii => ?_
  constructor
  · rintro ⟨_, rfl, nonce, _, rfl, hnonce, amount, rfl, hamount⟩
    exact ⟨nonce, amount, rfl, hnonce, hamount⟩
  · rintro ⟨nonce, amount, rfl, hnonce, hamount⟩
    exact ⟨_, rfl, nonce, _, rfl, hnonce, amount, rfl, hamount⟩

theorem commitmentBody_shrinks : Shrinks (IsCommitmentBody sha3) (tightCommitment sha3) := by
  have hspend := ((extensibleString_shrinks spendCommitment_shrinks).part
    fun si : SpendInput => (si.spendCommitment, si.spendCommitmentSuffix)).after fun _ => [1]
  have hcoinbase := (varstr31_shrinks.part CoinbaseInput.arbitrary).after fun _ => [2]
  intro s t hs
  cases t with
  | none => exact .inl hs
  | some t =>
    cases t with
    | issuance ii =>
      exact (issuanceCommitment_shrinks sha3).of_iff (a := ii) (fun _ => Iff.rfl) hs
    | spend si => exact hspend.of_iff (a := si) (fun _ => Iff.rfl) hs
    | coinbase ci => exact hcoinbase.of_iff (a := ci) (fun _ => Iff.rfl) hs

theorem issuanceWitness_shrinks :
    Shrinks (fun p ii => IsWitnessBody p (some (.issuance ii)))
      (fun ii => tightWitness (some (.issuance ii))) := by
  refine ((varstr31_shrinks.part IssuanceInput.assetDefinition).cat
    ((varint63_shrinks.part IssuanceInput.vmVersion).cat
    ((varstr31_shrinks.part IssuanceInput.issuanceProgram).cat
    (varstrList_shrinks.part IssuanceInput.arguments)))).congr fun s ii => ?_
  constructor
  · rintro ⟨definition, _, rfl, hdef, vm, _, rfl, hvm, program, arguments, rfl, hprogram, hargs⟩
    exact ⟨definition, vm, program, arguments, rfl, hdef, hvm, hprogram, hargs⟩
  · rintro ⟨definition, vm, program, arguments, rfl, hdef, hvm, hprogram, hargs⟩
    exact ⟨definition, _, rfl, hdef, vm, _, rfl, hvm, program, arguments, rfl, hprogram, hargs⟩

theorem witnessBody_shrinks : Shrinks IsWitnessBody tightWitness := by
  have hspend := varstrList_shrinks.part SpendInput.arguments
  intro s t hs
  cases t with
  | none => exact .inl hs
  | some t =>
    cases t with
    | issuance ii => exact issuanceWitness_shrinks.of_iff (a := ii) (fun _ => Iff.rfl) hs
    | spend si => exact hspend.of_iff (a := si) (fun _ => Iff.rfl) hs
    | coinbase ci => exact .inl hs

theorem txInput_shrinks : Shrinks (IsTxInput sha3) (tightInput sha3) := by
  have hbody := (varint63_shrinks.part TxInput.assetVersion).cat
    (((extensibleString_shrinks (commitmentBody_shrinks sha3)).part
      fun input : TxInput => (input.typedInput, input.commitmentSuffix)).cat
    ((extensibleString_shrinks witnessBody_shrinks).part
      fun input : TxInput => (input.typedInput, input.witnessSuffix)))
  refine (hbody.guard fun input => input.typedInput.isSome ↔ input.assetVersion = 1).congr
    fun s input => ?_
  constructor
  · rintro ⟨hsome, version, _, rfl, hversion, commitmentStr, witnessStr, rfl,
      ⟨commitment, hcs, hc⟩, witness, hws, hw⟩
    exact ⟨version, commitmentStr, witnessStr, commitment, witness, rfl, hversion, hcs, hws,
      (isInputBodies_iff sha3 _ _ _ _).mpr ⟨hsome, hc, hw⟩⟩
  · rintro ⟨version, commitmentStr, witnessStr, commitment, witness, rfl, hversion, hcs, hws,
      hbodies⟩
    obtain ⟨hsome, hc, hw⟩ := (isInputBodies_iff sha3 _ _ _ _).mp hbodies
    exact ⟨hsome, version, _, rfl, hversion, commitmentStr, witnessStr, rfl,
      ⟨commitment, hcs, hc⟩, witness, hws, hw⟩

theorem txInput_spread : Spread (IsTxInput sha3) (2 ^ 32 + 25) := by
  have hbetween : ∀ s input, IsTxInput sha3 s input → 3 ≤ s.length ∧ s.length ≤ 2 ^ 32 + 28 := by
    rintro _ input ⟨version, commitmentStr, witnessStr, commitment, witness, rfl, hversion, hcs,
      hws, -⟩
    have hv := length_uvarint_between hversion.1
    have hc := length_varstr31_between hcs
    have hw := length_varstr31_between hws
    rw [maxInt32] at hc hw
    simp only [List.length_append]
    omega
  exact spread_of_between hbetween

end

/-! ### Outputs -/

/-- The shortest witness of an output is the empty one. -/
theorem outputWitness_shrinks :
    Shrinks (fun s (_ : TxOutput) => ∃ witness, IsVarstr31 s witness)
      (fun _ => tightVarstr []) := by
  rintro _ output ⟨witness, len, rfl, hlen⟩
  cases witness with
  | nil =>
    rcases varint31_shrinks len _ hlen with rfl | ⟨len', hlen', hone⟩
    · exact .inl rfl
    · refine .inr ⟨len', ⟨[], len', (List.append_nil _).symm, hlen'⟩, ?_⟩
      rw [hone, List.append_nil]
  | cons b witness =>
    obtain ⟨len', hlen', hsame⟩ := varint31_lower hlen (Nat.le_succ witness.length)
    refine .inr ⟨_, ⟨witness, len', rfl, hlen'⟩, ?_⟩
    rw [List.length_append, List.length_append, hsame]
    rfl

/-- The parts of an output: the commitment in an extensible string, then any witness. -/
theorem isTxOutput_iff (s : List UInt8) (output : TxOutput) :
    Cat (fun s (output : TxOutput) => IsVarint63 s output.assetVersion)
      (Cat (fun s (output : TxOutput) => IsExtensibleString
          (IsOutputCommitment output.assetVersion) s
          (output.outputCommitment, output.commitmentSuffix))
        (fun s _ => ∃ witness, IsVarstr31 s witness)) s output ↔ IsTxOutput s output := by
  constructor
  · rintro ⟨version, _, rfl, hversion, commitment, witnessStr, rfl, hcommitment, witness, hw⟩
    exact ⟨version, commitment, witnessStr, witness, rfl, hversion, hcommitment, hw⟩
  · rintro ⟨version, commitment, witnessStr, witness, rfl, hversion, hcommitment, hw⟩
    exact ⟨version, _, rfl, hversion, commitment, witnessStr, rfl, hcommitment, witness, hw⟩

theorem txOutput_shrinks : Shrinks IsTxOutput tightOutput := by
  have hcommitment := Shrinks.comap (fun output : TxOutput =>
    extensibleString_shrinks (outputCommitment_shrinks output.assetVersion))
    fun output => (output.outputCommitment, output.commitmentSuffix)
  exact ((varint63_shrinks.part TxOutput.assetVersion).cat
    (hcommitment.cat outputWitness_shrinks)).congr isTxOutput_iff

theorem outputCommitment_spread (assetVersion : UInt64) :
    Spread (IsOutputCommitment assetVersion) 27 := by
  intro s t oc hs ht
  by_cases hversion : assetVersion = 1
  · subst hversion
    have hamount : Spread (fun s (oc : OutputCommitment) => IsAssetAmount s oc.assetAmount) 9 := by
      rintro _ _ oc ⟨id, amount, rfl, hid, hamount⟩ ⟨id', amount', rfl, hid', hamount'⟩
      obtain rfl : id = id' := Option.some.inj (hid.symm.trans hid')
      have := varint63_spread amount amount' _ hamount hamount'
      rw [List.length_append, List.length_append]
      omega
    have hbody := hamount.cat (Spread.cat
      (fun s t (oc : OutputCommitment) => varint63_spread s t oc.vmVersion)
      fun s t oc => varstr31_spread s t oc.controlProgram)
    exact hbody s t oc ((isOutputCommitment_one s oc).mpr hs).2
      ((isOutputCommitment_one t oc).mpr ht).2
  · rw [IsOutputCommitment, if_neg hversion] at hs ht
    rw [hs.1, ht.1]
    exact Nat.zero_le _

theorem txOutput_spread : Spread IsTxOutput (2 ^ 31 + 53) := by
  have hwitness : Spread (fun s (_ : TxOutput) => ∃ witness, IsVarstr31 s witness)
      (10 + maxInt32 - 1) := by
    refine spread_of_between ?_
    rintro s _ ⟨witness, hw⟩
    exact length_varstr31_between hw
  have hbody := Spread.cat
    (fun s t (output : TxOutput) => varint63_spread s t output.assetVersion) (Spread.cat
    (fun s t (output : TxOutput) => extensibleString_spread
      (outputCommitment_spread output.assetVersion) s t
      (output.outputCommitment, output.commitmentSuffix)) hwitness)
  exact fun s t output hs ht => hbody s t output ((isTxOutput_iff s output).mpr hs)
    ((isTxOutput_iff t output).mpr ht)

/-- No string is the longest of an output: a byte of the witness may be changed, and an empty
witness may be given a byte. -/
theorem not_longest_txOutput {s : List UInt8} {output : TxOutput} (hs : IsTxOutput s output) :
    ¬ Longest IsTxOutput output s := by
  intro hlongest
  obtain ⟨version, commitment, _, witness, rfl, hversion, hcommitment, len, rfl, hlen⟩ := hs
  have hother : ∀ witness' len', IsVarint31 len' witness'.length → len'.length = len.length →
      witness.length ≤ witness'.length → witness' = witness := by
    intro witness' len' hlen' hsame hle
    have hmem : IsTxOutput (version ++ (commitment ++ (len' ++ witness'))) output :=
      ⟨version, commitment, _, witness', rfl, hversion, hcommitment, len', rfl, hlen'⟩
    rcases hlongest _ hmem with heq | hlt
    · have heq := List.append_cancel_left (List.append_cancel_left heq)
      exact (List.append_inj heq hsame).2
    · simp only [List.length_append] at hlt
      omega
  cases witness with
  | nil =>
    have hten := length_uvarint_between hlen.1
    obtain ⟨len', hlen', hsame⟩ := varint31_exists (v := 1) (by decide)
      (by rw [putUvarint_of_lt (by decide)]; exact hten.1) hten.2
    exact absurd (hother [0] len' hlen' hsame (Nat.zero_le _)) (List.cons_ne_nil _ _)
  | cons b witness =>
    have heq := hother ((b + 1) :: witness) len hlen rfl (Nat.le_refl _)
    exact absurd (List.cons.inj heq).1 (by simp)

/-- A list of outputs with a longest string is empty. -/
theorem outputs_eq_nil_of_longest {s : List UInt8} {outputs : List TxOutput}
    (hs : Many IsTxOutput outputs.length s outputs)
    (hlongest : ∀ t, Many IsTxOutput outputs.length t outputs → t = s ∨ t.length < s.length) :
    outputs = [] := by
  obtain ⟨-, parts, rfl, hparts⟩ := hs
  cases hparts with
  | nil => rfl
  | @cons s output parts outputs hs hrest =>
    refine absurd (fun t ht => ?_) (not_longest_txOutput hs)
    rcases hlongest (t ++ parts.flatten) ⟨rfl, t :: parts, rfl, .cons ht hrest⟩ with heq | hlt
    · exact .inl (List.append_cancel_right heq)
    · rw [List.flatten_cons, List.length_append, List.length_append] at hlt
      exact .inr (Nat.lt_of_add_lt_add_right hlt)

/-! ### Transactions -/

section
variable (sha3 : List UInt8 → FixedBytes 32)

/-- The bytes of a transaction, apart from its size. -/
def HasFields (p : List UInt8) (tx : TxData) : Prop :=
  ∃ version timeRange n inputs m outputs,
    p = 0x07 :: (version ++ (timeRange ++ (n ++ (inputs ++ (m ++ outputs))))) ∧
    IsVarint63 version tx.version ∧ IsVarint63 timeRange tx.timeRange ∧
    IsVarint31 n tx.inputs.length ∧ Many (IsTxInput sha3) tx.inputs.length inputs tx.inputs ∧
    IsVarint31 m tx.outputs.length ∧ Many IsTxOutput tx.outputs.length outputs tx.outputs

/-- The serialization flags and the version. -/
def IsFront (p : List UInt8) (tx : TxData) : Prop :=
  ∃ version, p = [0x07] ++ version ∧ IsVarint63 version tx.version

/-- What follows the version. -/
def IsRest : List UInt8 → TxData → Prop :=
  Cat (fun s tx => IsVarint63 s tx.timeRange)
    (Cat (fun s tx => IsVarint31 s tx.inputs.length)
      (Cat (fun s tx => Many (IsTxInput sha3) tx.inputs.length s tx.inputs)
        (Cat (fun s tx => IsVarint31 s tx.outputs.length)
          (fun s tx => Many IsTxOutput tx.outputs.length s tx.outputs))))

theorem hasFields_iff (p : List UInt8) (tx : TxData) :
    Cat IsFront (IsRest sha3) p tx ↔ HasFields sha3 p tx := by
  constructor
  · rintro ⟨_, _, rfl, ⟨version, rfl, hversion⟩, timeRange, _, rfl, htime, n, _, rfl, hn, inputs,
      _, rfl, hinputs, m, outputs, rfl, hm, houtputs⟩
    exact ⟨version, timeRange, n, inputs, m, outputs, rfl, hversion, htime, hn, hinputs, hm,
      houtputs⟩
  · rintro ⟨version, timeRange, n, inputs, m, outputs, rfl, hversion, htime, hn, hinputs, hm,
      houtputs⟩
    exact ⟨_, _, rfl, ⟨version, rfl, hversion⟩, timeRange, _, rfl, htime, n, _, rfl, hn, inputs,
      _, rfl, hinputs, m, outputs, rfl, hm, houtputs⟩

theorem front_shrinks : Shrinks IsFront (fun tx => [0x07] ++ putUvarint tx.version.toNat) :=
  (varint63_shrinks.part TxData.version).after fun _ => [0x07]

theorem lists_shrinks : Shrinks
    (Cat (fun s tx => IsVarint31 s tx.inputs.length)
      (Cat (fun s tx => Many (IsTxInput sha3) tx.inputs.length s tx.inputs)
        (Cat (fun s tx => IsVarint31 s tx.outputs.length)
          (fun s tx => Many IsTxOutput tx.outputs.length s tx.outputs)))) (tightLists sha3) :=
  (varint31_shrinks.part fun tx : TxData => tx.inputs.length).cat
    (((txInput_shrinks sha3).many.part TxData.inputs).cat
    ((varint31_shrinks.part fun tx : TxData => tx.outputs.length).cat
    (txOutput_shrinks.many.part TxData.outputs)))

theorem rest_shrinks : Shrinks (IsRest sha3)
    (fun tx => putUvarint tx.timeRange.toNat ++ tightLists sha3 tx) :=
  (varint63_shrinks.part TxData.timeRange).cat (lists_shrinks sha3)

/-- The time range may be padded. -/
theorem rest_stretches : Stretches (IsRest sha3)
    (fun tx => putUvarint tx.timeRange.toNat ++ tightLists sha3 tx) :=
  (varint63_stretches.part TxData.timeRange).cat (varint63_shrinks.part TxData.timeRange)
    (lists_shrinks sha3)

/-- The tight bytes are the shortest ones, and all others can be made shorter by a byte. -/
theorem fields_shrinks : Shrinks (HasFields sha3) (tightBytes sha3) :=
  (front_shrinks.cat (rest_shrinks sha3)).congr (hasFields_iff sha3)

variable {p : List UInt8} {tx : TxData}

/-- The only string of its length: the shortest one or the longest one. -/
theorem alone_iff (h : HasFields sha3 p tx) :
    Alone (HasFields sha3) tx p ↔
      p = tightBytes sha3 tx ∨ Longest (HasFields sha3) tx p := by
  have hcat : Cat IsFront (IsRest sha3) = HasFields sha3 := by
    funext p tx
    exact propext (hasFields_iff sha3 p tx)
  have hfree : PrefixFree IsFront := PrefixFree.after (fun tx s t r r' hs ht heq =>
    (readVarint63_reads.delimits s tx.version t tx.version r r' hs ht heq).1) fun _ => [0x07]
  have hfront := (varint63_stretches.part TxData.version).after fun _ => [0x07]
  rw [← hcat] at h ⊢
  exact alone_cat_iff hfree front_shrinks (rest_shrinks sha3) hfront (rest_stretches sha3) h

/-- Strings with the same fields differ in length by less than `2 ^ 64`, since there are fewer
than `2 ^ 31` inputs and outputs. -/
theorem fields_spread {q : List UInt8} (hp : HasFields sha3 p tx) (hq : HasFields sha3 q tx) :
    p.length < q.length + 2 ^ 64 := by
  obtain ⟨v, t, n, inputs, m, outputs, rfl, hv, ht, hn, hinputs, hm, houtputs⟩ := hp
  obtain ⟨v', t', n', inputs', m', outputs', rfl, hv', ht', hn', hinputs', hm', houtputs'⟩ := hq
  have hversion := varint63_spread v v' _ hv hv'
  have htime := varint63_spread t t' _ ht ht'
  have hcount := length_uvarint_between hn.1
  have hcount' := length_uvarint_between hm.1
  have hin := (txInput_spread sha3).many hinputs hinputs'
  have hout := txOutput_spread.many houtputs houtputs'
  have hinmax : tx.inputs.length * (2 ^ 32 + 25) ≤ 2147483647 * (2 ^ 32 + 25) :=
    Nat.mul_le_mul_right _ hn.2
  have houtmax : tx.outputs.length * (2 ^ 31 + 53) ≤ 2147483647 * (2 ^ 31 + 53) :=
    Nat.mul_le_mul_right _ hm.2
  simp only [List.length_cons, List.length_append]
  omega

/-- In the longest string the version, the time range and the two counts take ten bytes each,
and there are no outputs. -/
theorem longest_shape (h : HasFields sha3 p tx) (hlongest : Longest (HasFields sha3) tx p) :
    tx.outputs = [] ∧ 41 ≤ p.length := by
  obtain ⟨v, t, n, inputs, m, outputs, rfl, hv, ht, hn, hinputs, hm, houtputs⟩ := h
  have htail : Cat (fun s (tx : TxData) => IsVarint31 s tx.outputs.length)
      (fun s tx => Many IsTxOutput tx.outputs.length s tx.outputs) (m ++ outputs) tx :=
    ⟨m, outputs, rfl, hm, houtputs⟩
  have hrest : IsRest sha3 (t ++ (n ++ (inputs ++ (m ++ outputs)))) tx :=
    ⟨t, _, rfl, ht, n, _, rfl, hn, inputs, _, rfl, hinputs, htail⟩
  have hall : Longest (Cat IsFront (IsRest sha3)) tx
      (([0x07] ++ v) ++ (t ++ (n ++ (inputs ++ (m ++ outputs))))) :=
    fun q hq => hlongest q ((hasFields_iff sha3 q tx).mp hq)
  -- Each part is the longest one of its own.
  have hafter := hall.right ⟨v, rfl, hv⟩
  have hcounts := hafter.right ht
  have hlast := (hcounts.right hn).right hinputs
  refine ⟨outputs_eq_nil_of_longest houtputs (hlast.right hm), ?_⟩
  obtain ⟨v', hv', hvlen⟩ := exists_ten_bytes hv.1
  obtain ⟨t', ht', htlen⟩ := exists_ten_bytes ht.1
  obtain ⟨n', hn', hnlen⟩ := exists_ten_bytes hn.1
  obtain ⟨m', hm', hmlen⟩ := exists_ten_bytes hm.1
  have hversion := (hall.left hrest).length_le ⟨v', rfl, hv', hv.2⟩
  have htime := (hafter.left ⟨n, _, rfl, hn, inputs, _, rfl, hinputs, htail⟩).length_le
    ⟨ht', ht.2⟩
  have hin := (hcounts.left ⟨inputs, _, rfl, hinputs, htail⟩).length_le ⟨hn', hn.2⟩
  have hout := (hlast.left houtputs).length_le ⟨hm', hm.2⟩
  simp only [List.length_append, List.length_cons] at hversion ⊢
  omega

/-! ### Which strings are determined by their transaction -/

/-- `TxData.readFrom` takes a string in full exactly when it has the fields and the size. -/
theorem readFrom_full_iff :
    (TxData.readFrom sha3).run p = .ok (tx, []) ↔
      HasFields sha3 p tx ∧ tx.serializedSize = UInt64.ofNat p.length := by
  rw [TxData.readFrom_reads sha3 p tx []]
  constructor
  · rintro ⟨s, rfl, hs⟩
    rw [List.append_nil]
    exact hs
  · intro h
    exact ⟨p, (List.append_nil p).symm, h⟩

/-- A string determines its fields. -/
theorem hasFields_unique {tx' : TxData} (h : HasFields sha3 p tx) (h' : HasFields sha3 p tx') :
    tx' = { tx with serializedSize := tx'.serializedSize } := by
  have hread : (TxData.readFrom sha3).run p =
      .ok ({ tx with serializedSize := UInt64.ofNat p.length }, []) :=
    (readFrom_full_iff sha3).mpr ⟨h, rfl⟩
  have hread' : (TxData.readFrom sha3).run p =
      .ok ({ tx' with serializedSize := UInt64.ofNat p.length }, []) :=
    (readFrom_full_iff sha3).mpr ⟨h', rfl⟩
  have heq := (Prod.mk.inj (Except.ok.inj (hread'.symm.trans hread))).1
  cases tx
  cases tx'
  simp only [TxData.mk.injEq] at heq ⊢
  exact ⟨heq.1, trivial, heq.2.2⟩

/-- No integer of the string is padded, and the witnesses of its outputs are empty. -/
def Tight (p : List UInt8) : Prop := ∃ tx, HasFields sha3 p tx ∧ p = tightBytes sha3 tx

/-- All other strings with the same fields are shorter. -/
def Stretched (p : List UInt8) : Prop :=
  ∃ tx, HasFields sha3 p tx ∧ Longest (HasFields sha3) tx p

theorem tight_iff (h : HasFields sha3 p tx) : Tight sha3 p ↔ p = tightBytes sha3 tx := by
  constructor
  · rintro ⟨tx', h', heq⟩
    rw [hasFields_unique sha3 h h'] at heq
    exact heq
  · intro heq
    exact ⟨tx, h, heq⟩

theorem stretched_iff (h : HasFields sha3 p tx) :
    Stretched sha3 p ↔ Longest (HasFields sha3) tx p := by
  constructor
  · rintro ⟨tx', h', hlongest⟩
    rw [hasFields_unique sha3 h h'] at hlongest
    exact hlongest
  · intro hlongest
    exact ⟨tx, h, hlongest⟩

/-- The transaction that a string is read as determines the string exactly if it is tight or
stretched: no integer is padded and the output witnesses are empty, or else all other strings
with these fields are shorter. Every string has a tight one with its fields. A stretched
string has no outputs, and its version, time range and counts fill ten bytes each. -/
theorem bytes_determined_iff {p : List UInt8} {tx : TxData}
    (hp : (TxData.readFrom sha3).run p = .ok (tx, [])) :
    ((∀ q, (TxData.readFrom sha3).run q = .ok (tx, []) → q = p) ↔
      Tight sha3 p ∨ Stretched sha3 p) ∧
    (∃ c, Tight sha3 c ∧ (TxData.readFrom sha3).run c =
      .ok ({ tx with serializedSize := UInt64.ofNat c.length }, [])) ∧
    (Stretched sha3 p → tx.outputs = [] ∧ 41 ≤ p.length) := by
  obtain ⟨hfields, hsize⟩ := (readFrom_full_iff sha3).mp hp
  have hmem := (fields_shrinks sha3).mem hfields
  refine ⟨?_, ⟨_, ⟨tx, hmem, rfl⟩, (readFrom_full_iff sha3).mpr ⟨hmem, rfl⟩⟩, fun h => ?_⟩
  · -- The size tells the length, so the property says that `p` is the only one of its length.
    have halone : (∀ q, (TxData.readFrom sha3).run q = .ok (tx, []) → q = p) ↔
        Alone (HasFields sha3) tx p := by
      constructor
      · intro h q hq hlen
        exact h q ((readFrom_full_iff sha3).mpr ⟨hq, by rw [hlen]; exact hsize⟩)
      · intro h q hq
        obtain ⟨hq, hqsize⟩ := (readFrom_full_iff sha3).mp hq
        refine h q hq ?_
        have hle := fields_spread sha3 hfields hq
        have hge := fields_spread sha3 hq hfields
        have hnat := congrArg UInt64.toNat (hsize.symm.trans hqsize)
        rw [UInt64.toNat_ofNat', UInt64.toNat_ofNat'] at hnat
        omega
    rw [halone, alone_iff sha3 hfields, tight_iff sha3 hfields, stretched_iff sha3 hfields]
  · exact longest_shape sha3 hfields ((stretched_iff sha3 hfields).mp h)

end

/-- A transaction without inputs and outputs: its tight bytes are the only ones of its size,
and bytes with a padded version are neither tight nor stretched. -/
theorem bytes_determined_empty :
    let read := (TxData.readFrom fun _ => Hash.zero.byte32).run
    (read [7, 1, 0, 0, 0] = .ok (⟨1, 5, 0, [], []⟩, []) ∧
      ∀ q, read q = .ok (⟨1, 5, 0, [], []⟩, []) → q = [7, 1, 0, 0, 0]) ∧
    (read [7, 0x81, 0, 0, 0, 0] = .ok (⟨1, 6, 0, [], []⟩, []) ∧
      ¬ Tight (fun _ => Hash.zero.byte32) [7, 0x81, 0, 0, 0, 0] ∧
      ¬ Stretched (fun _ => Hash.zero.byte32) [7, 0x81, 0, 0, 0, 0]) := by
  intro read
  have htight : read [7, 1, 0, 0, 0] = .ok (⟨1, 5, 0, [], []⟩, []) := by rfl
  have hpadded : read [7, 0x81, 0, 0, 0, 0] = .ok (⟨1, 6, 0, [], []⟩, []) := by rfl
  have hother : read [7, 1, 0x80, 0, 0, 0] = .ok (⟨1, 6, 0, [], []⟩, []) := by rfl
  have hfields := ((readFrom_full_iff _).mp htight).1
  have hbytes : [7, 1, 0, 0, 0] = tightBytes (fun _ => Hash.zero.byte32) ⟨1, 5, 0, [], []⟩ := by
    simp [tightBytes, tightLists, putUvarint]
  refine ⟨⟨htight, (bytes_determined_iff _ htight).1.mpr (.inl ⟨_, hfields, hbytes⟩)⟩, hpadded, ?_⟩
  have hnot := mt (bytes_determined_iff _ hpadded).1.mpr fun h => absurd (h _ hother) (by decide)
  exact not_or.mp hnot

/-- Two strings with one transaction: the padding is in the version or in the time range.
And two more: they differ in the witness of an output. -/
theorem transaction_malleable :
    let read := (TxData.readFrom fun _ => Hash.zero.byte32).run
    (read [7, 0x81, 0, 0, 0, 0] = .ok (⟨1, 6, 0, [], []⟩, []) ∧
      read [7, 1, 0x80, 0, 0, 0] = .ok (⟨1, 6, 0, [], []⟩, [])) ∧
    (read [7, 1, 0, 0, 1, 2, 0, 1, 0xaa] = .ok (⟨1, 9, 0, [], [⟨2, .zero, []⟩]⟩, []) ∧
      read [7, 1, 0, 0, 1, 2, 0, 1, 0xbb] = .ok (⟨1, 9, 0, [], [⟨2, .zero, []⟩]⟩, [])) := by
  exact ⟨⟨by rfl, by rfl⟩, by rfl, by rfl⟩

end BtmStats.Proofs.Types
