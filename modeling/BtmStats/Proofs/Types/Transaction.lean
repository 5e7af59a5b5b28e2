import BtmStats.Proofs.Bc.Hash
import BtmStats.Proofs.Encoding.Blockchain
import BtmStats.Spec.Types.Transaction

/-!
# `BtmStats.Proofs.Types.Transaction`: the grammar of transactions

The grammar of serialized transactions, over the grammars of the primitive
encodings, and the theorem that `TxData.readFrom` accepts exactly this grammar.

A grammar relates a byte string to the value that it stands for: every field of
the value is pinned down by a part of the string. An input has a commitment body
and a witness body, each at the front of an extensible string. For asset version 1
the two bodies together are an issuance, a spend or a coinbase (`IsTypedInput`).
For another version both bodies are empty, so that the strings are all suffix.
-/

set_option autoImplicit false

namespace BtmStats.Proofs.Types

open Lib Spec.Blockchain Spec.Types Proofs.Blockchain
open Spec.Bc (Hash AssetID AssetAmount newHash)
open Proofs.Bc (newHash_byte32 byte32_newHash)

/-! ### The grammar -/

/-- An asset ID and an amount. -/
def IsAssetAmount (p : List UInt8) (aa : AssetAmount) : Prop :=
  ∃ assetID amount, p = assetID.bytes ++ amount ∧
    aa.assetId = some assetID ∧ IsVarint63 amount aa.amount

/-- A spend commitment of asset version 1: it has VM version 1. -/
def IsSpendCommitment (p : List UInt8) (sc : SpendCommitment) : Prop :=
  ∃ assetAmount position vmVersion program,
    p = sc.sourceID.bytes ++ (assetAmount ++ (position ++ (vmVersion ++ program))) ∧
    IsAssetAmount assetAmount sc.assetAmount ∧ IsVarint63 position sc.sourcePosition ∧
    IsVarint63 vmVersion sc.vmVersion ∧ sc.vmVersion = 1 ∧ IsVarstr31 program sc.controlProgram

section
variable (sha3 : List UInt8 → FixedBytes 32)

/-- The commitment body and the witness body of an input of asset version 1. The
asset ID in the commitment of an issuance is the one that the witness gives. -/
def IsTypedInput (commitment witness : List UInt8) : TypedInput → Prop
  | .issuance ii =>
    (∃ nonce amount, commitment = 0 :: (nonce ++ ((ii.assetID sha3).bytes ++ amount)) ∧
      IsVarstr31 nonce ii.nonce ∧ IsVarint63 amount ii.amount) ∧
    ∃ definition vmVersion program arguments,
      witness = definition ++ (vmVersion ++ (program ++ arguments)) ∧
      IsVarstr31 definition ii.assetDefinition ∧ IsVarint63 vmVersion ii.vmVersion ∧
      IsVarstr31 program ii.issuanceProgram ∧ IsVarstrList arguments ii.arguments
  | .spend si =>
    (∃ spend, commitment = 1 :: spend ∧
      IsExtensibleString IsSpendCommitment spend
        (si.spendCommitment, si.spendCommitmentSuffix)) ∧
    IsVarstrList witness si.arguments
  | .coinbase ci =>
    (∃ arbitrary, commitment = 2 :: arbitrary ∧ IsVarstr31 arbitrary ci.arbitrary) ∧
    witness = []

/-- The two bodies of an input of any asset version. -/
def IsInputBodies (assetVersion : UInt64) (commitment witness : List UInt8) :
    Option TypedInput → Prop
  | none => assetVersion ≠ 1 ∧ commitment = [] ∧ witness = []
  | some t => assetVersion = 1 ∧ IsTypedInput sha3 commitment witness t

def IsTxInput (p : List UInt8) (input : TxInput) : Prop :=
  ∃ version commitmentStr witnessStr commitment witness,
    p = version ++ (commitmentStr ++ witnessStr) ∧
    IsVarint63 version input.assetVersion ∧
    IsVarstr31 commitmentStr (commitment ++ input.commitmentSuffix) ∧
    IsVarstr31 witnessStr (witness ++ input.witnessSuffix) ∧
    IsInputBodies sha3 input.assetVersion commitment witness input.typedInput

/-- The commitment body of an output: VM version 1 for asset version 1, and empty
for another version. -/
def IsOutputCommitment (assetVersion : UInt64) (p : List UInt8) (oc : OutputCommitment) : Prop :=
  if assetVersion = 1 then
    ∃ assetAmount vmVersion program, p = assetAmount ++ (vmVersion ++ program) ∧
      IsAssetAmount assetAmount oc.assetAmount ∧ IsVarint63 vmVersion oc.vmVersion ∧
      oc.vmVersion = 1 ∧ IsVarstr31 program oc.controlProgram
  else p = [] ∧ oc = .zero

/-- The witness of an output is any byte string. -/
def IsTxOutput (p : List UInt8) (output : TxOutput) : Prop :=
  ∃ version commitment witnessStr witness,
    p = version ++ (commitment ++ witnessStr) ∧
    IsVarint63 version output.assetVersion ∧
    IsExtensibleString (IsOutputCommitment output.assetVersion) commitment
      (output.outputCommitment, output.commitmentSuffix) ∧
    IsVarstr31 witnessStr witness

/-- A serialized transaction. The two counts are the numbers of inputs and outputs,
and the size is that of the whole string. -/
def IsTxData (p : List UInt8) (tx : TxData) : Prop :=
  (∃ version timeRange n inputs m outputs,
    p = 0x07 :: (version ++ (timeRange ++ (n ++ (inputs ++ (m ++ outputs))))) ∧
    IsVarint63 version tx.version ∧ IsVarint63 timeRange tx.timeRange ∧
    IsVarint31 n tx.inputs.length ∧ Many (IsTxInput sha3) tx.inputs.length inputs tx.inputs ∧
    IsVarint31 m tx.outputs.length ∧ Many IsTxOutput tx.outputs.length outputs tx.outputs) ∧
  tx.serializedSize = UInt64.ofNat p.length

end

/-! ### Hashes and amounts -/

theorem readHash_reads : Reads readHash (fun s h => s = h.bytes) := by
  refine (reads_bind (readFull_reads 32) fun b32 => reads_pure (newHash b32)).congr fun s h => ?_
  constructor
  · rintro ⟨s₁, s₂, b32, rfl, rfl, rfl, rfl⟩
    show b32.1 ++ [] = (newHash b32).byte32.1
    rw [byte32_newHash, List.append_nil]
  · rintro rfl
    exact ⟨h.bytes, [], h.byte32, (List.append_nil _).symm, rfl, rfl, (newHash_byte32 h).symm⟩

theorem readAssetID_reads : Reads readAssetID (fun s a => s = a.bytes) := by
  refine (reads_bind readHash_reads fun h => reads_pure (AssetID.mk h)).congr fun s a => ?_
  constructor
  · rintro ⟨s₁, s₂, h, rfl, rfl, rfl, rfl⟩
    exact List.append_nil _
  · rintro rfl
    exact ⟨a.bytes, [], a.hash, (List.append_nil _).symm, rfl, rfl, rfl⟩

theorem readAssetAmount_reads : Reads readAssetAmount IsAssetAmount := by
  refine (reads_bind readAssetID_reads fun assetID => reads_bind readVarint63_reads fun amount =>
    reads_pure (AssetAmount.mk (some assetID) amount)).congr fun s aa => ?_
  constructor
  · rintro ⟨s₁, _, assetID, rfl, rfl, s₂, _, amount, rfl, hamount, rfl, rfl⟩
    exact ⟨assetID, s₂, by rw [List.append_nil], rfl, hamount⟩
  · rintro ⟨assetID, s₂, rfl, hid, hamount⟩
    refine ⟨assetID.bytes, s₂, assetID, rfl, rfl, s₂, [], aa.amount, by simp, hamount, rfl, ?_⟩
    rw [← hid]

/-! ### Inputs -/

theorem SpendCommitment.readBody_reads :
    Reads (SpendCommitment.readBody 1) IsSpendCommitment := by
  refine (reads_bind (wrapErr_reads _ readHash_reads) fun sourceID =>
    reads_bind (wrapErr_reads _ readAssetAmount_reads) fun assetAmount =>
    reads_bind (wrapErr_reads _ readVarint63_reads) fun sourcePosition =>
    reads_bind (wrapErr_reads _ readVarint63_reads) fun vmVersion =>
    reads_guard _ (reads_bind (wrapErr_reads _ readVarstr31_reads)
      fun controlProgram => reads_pure _)).congr fun s sc => ?_
  constructor
  · rintro ⟨s₁, _, sourceID, rfl, rfl, s₂, _, assetAmount, rfl, hamount, s₃, _, position, rfl,
      hposition, s₄, _, vmVersion, rfl, hvm, hone, s₅, _, program, rfl, hprogram, rfl, rfl⟩
    exact ⟨s₂, s₃, s₄, s₅, by rw [List.append_nil], hamount, hposition, hvm,
      not_not.mp hone, hprogram⟩
  · rintro ⟨s₂, s₃, s₄, s₅, rfl, hamount, hposition, hvm, hone, hprogram⟩
    exact ⟨_, _, sc.sourceID, rfl, rfl, s₂, _, _, rfl, hamount, s₃, _, _, rfl, hposition,
      s₄, _, _, rfl, hvm, not_not.mpr hone, s₅, [], _, (List.append_nil s₅).symm, hprogram,
      rfl, rfl⟩

/-- What the commitment closure makes for each type of input. The fields of the
witness are zero, and the asset ID matters only for an issuance. -/
def IsMadeInput : List UInt8 → TypedInput × AssetID → Prop
  | p, (.issuance ii, assetID) =>
    ∃ nonce amount, p = 0 :: (nonce ++ (assetID.bytes ++ amount)) ∧
      IsVarstr31 nonce ii.nonce ∧ IsVarint63 amount ii.amount ∧
      ii = ⟨ii.nonce, ii.amount, [], 0, [], []⟩
  | p, (.spend si, assetID) =>
    ∃ spend, p = 1 :: spend ∧
      IsExtensibleString IsSpendCommitment spend
        (si.spendCommitment, si.spendCommitmentSuffix) ∧
      si.arguments = [] ∧ assetID = default
  | p, (.coinbase ci, assetID) =>
    ∃ arbitrary, p = 2 :: arbitrary ∧ IsVarstr31 arbitrary ci.arbitrary ∧ assetID = default

theorem readIssuanceCommitment_reads :
    Reads readIssuanceCommitment
      (fun s x => (∃ ii, x.1 = .issuance ii) ∧ IsMadeInput (0 :: s) x) := by
  refine (reads_bind readVarstr31_reads fun nonce => reads_bind readAssetID_reads fun assetID =>
    reads_bind readVarint63_reads fun amount => reads_pure _).congr fun s x => ?_
  constructor
  · rintro ⟨s₁, _, nonce, rfl, hnonce, _, _, assetID, rfl, rfl, s₂, _, amount, rfl, hamount,
      rfl, rfl⟩
    exact ⟨⟨_, rfl⟩, s₁, s₂, by rw [List.append_nil], hnonce, hamount, rfl⟩
  · obtain ⟨t, assetID⟩ := x
    rintro ⟨⟨ii, rfl⟩, s₁, s₂, hp, hnonce, hamount, hii⟩
    obtain rfl := (List.cons.inj hp).2
    refine ⟨s₁, _, ii.nonce, rfl, hnonce, _, _, assetID, rfl, rfl, s₂, [], ii.amount,
      (List.append_nil s₂).symm, hamount, rfl, ?_⟩
    rw [hii]

theorem readSpendCommitment_reads :
    Reads readSpendCommitment (fun s x => (∃ si, x.1 = .spend si) ∧ IsMadeInput (1 :: s) x) := by
  refine (reads_bind (readExtensibleString_reads SpendCommitment.readBody_reads) fun y =>
    reads_pure (TypedInput.spend ⟨y.2, [], y.1⟩, default)).congr fun s x => ?_
  constructor
  · rintro ⟨s₁, _, ⟨sc, suffix⟩, rfl, hsc, rfl, rfl⟩
    exact ⟨⟨_, rfl⟩, s₁, by rw [List.append_nil], hsc, rfl, rfl⟩
  · obtain ⟨t, assetID⟩ := x
    rintro ⟨⟨⟨suffix, arguments, sc⟩, rfl⟩, s₁, hp, hsc, rfl, rfl⟩
    obtain rfl := (List.cons.inj hp).2
    exact ⟨s, [], (sc, suffix), (List.append_nil s).symm, hsc, rfl, rfl⟩

theorem readCoinbaseCommitment_reads :
    Reads readCoinbaseCommitment
      (fun s x => (∃ ci, x.1 = .coinbase ci) ∧ IsMadeInput (2 :: s) x) := by
  refine (reads_bind readVarstr31_reads fun arbitrary => reads_pure _).congr fun s x => ?_
  constructor
  · rintro ⟨s₁, _, arbitrary, rfl, harbitrary, rfl, rfl⟩
    exact ⟨⟨_, rfl⟩, s₁, by rw [List.append_nil], harbitrary, rfl⟩
  · obtain ⟨t, assetID⟩ := x
    rintro ⟨⟨⟨arbitrary⟩, rfl⟩, s₁, hp, harbitrary, rfl⟩
    obtain rfl := (List.cons.inj hp).2
    exact ⟨s, [], arbitrary, (List.append_nil s).symm, harbitrary, rfl, rfl⟩

/-- The commitment closure for asset version 1: the first byte chooses the type. -/
theorem readInputCommitment_reads_one :
    Reads (readInputCommitment 1) (fun s made => ∃ x, made = some x ∧ IsMadeInput s x) := by
  refine (reads_bind (wrapErr_reads _ (readFull_reads 1)) fun icType =>
    reads_ite (reads_map some readIssuanceCommitment_reads)
      (reads_ite (reads_map some readSpendCommitment_reads)
        (reads_ite (reads_map some readCoinbaseCommitment_reads)
          (reads_throw _)))).congr fun s made => ?_
  constructor
  · rintro ⟨_, s₂, icType, rfl, rfl, hmade⟩
    -- One case for each type of input. Another type is an error, so nothing is read.
    split at hmade
    · rename_i htype
      obtain ⟨x, rfl, -, hx⟩ := hmade
      exact ⟨x, rfl, by rw [htype]; exact hx⟩
    · split at hmade
      · rename_i htype
        obtain ⟨x, rfl, -, hx⟩ := hmade
        exact ⟨x, rfl, by rw [htype]; exact hx⟩
      · split at hmade
        · rename_i htype
          obtain ⟨x, rfl, -, hx⟩ := hmade
          exact ⟨x, rfl, by rw [htype]; exact hx⟩
        · exact hmade.elim
  · rintro ⟨⟨t, assetID⟩, rfl, hx⟩
    cases t with
    | issuance ii =>
      obtain ⟨nonce, amount, rfl, hrest⟩ := hx
      exact ⟨[0], _, ⟨[0], rfl⟩, rfl, rfl, _, rfl, ⟨ii, rfl⟩, nonce, amount, rfl, hrest⟩
    | spend si =>
      obtain ⟨spend, rfl, hrest⟩ := hx
      exact ⟨[1], _, ⟨[1], rfl⟩, rfl, rfl, _, rfl, ⟨si, rfl⟩, spend, rfl, hrest⟩
    | coinbase ci =>
      obtain ⟨arbitrary, rfl, hrest⟩ := hx
      exact ⟨[2], _, ⟨[2], rfl⟩, rfl, rfl, _, rfl, ⟨ci, rfl⟩, arbitrary, rfl, hrest⟩

/-- The commitment closure. For another asset version it consumes nothing, so that
the whole commitment is the suffix. -/
theorem readInputCommitment_reads (assetVersion : UInt64) :
    Reads (readInputCommitment assetVersion) (fun s made =>
      (assetVersion ≠ 1 ∧ s = [] ∧ made = none) ∨
        (assetVersion = 1 ∧ ∃ x, made = some x ∧ IsMadeInput s x)) := by
  by_cases hv : assetVersion = 1
  · subst hv
    exact readInputCommitment_reads_one.congr fun s made => by simp
  · rw [readInputCommitment, if_pos hv]
    -- The closure returns at once, and the extensible string keeps all as the suffix.
    exact (reads_pure none).congr fun s made => by simp [hv]

section
variable (sha3 : List UInt8 → FixedBytes 32)

/-- What the witness closure reads for an input that the commitment closure made,
and the input that it ends with. -/
def IsWitnessOf (made : Option (TypedInput × AssetID)) (p : List UInt8)
    (t : Option TypedInput) : Prop :=
  match made with
  | some (.issuance ii, assetID) =>
    ∃ ii' definition vmVersion program arguments, t = some (.issuance ii') ∧
      p = definition ++ (vmVersion ++ (program ++ arguments)) ∧
      IsVarstr31 definition ii'.assetDefinition ∧ IsVarint63 vmVersion ii'.vmVersion ∧
      IsVarstr31 program ii'.issuanceProgram ∧ IsVarstrList arguments ii'.arguments ∧
      ii'.nonce = ii.nonce ∧ ii'.amount = ii.amount ∧ ii'.assetID sha3 = assetID
  | some (.spend si, _) =>
    ∃ arguments, t = some (.spend { si with arguments := arguments }) ∧
      IsVarstrList p arguments
  | some (.coinbase ci, _) => t = some (.coinbase ci) ∧ p = []
  | none => t = none ∧ p = []

theorem readInputWitness_reads (made : Option (TypedInput × AssetID)) :
    Reads (readInputWitness sha3 made) (IsWitnessOf sha3 made) := by
  match made with
  | some (.issuance ii, assetID) =>
    refine (reads_bind readVarstr31_reads fun definition =>
      reads_bind readVarint63_reads fun vmVersion =>
      reads_bind readVarstr31_reads fun program =>
      reads_guard _ (reads_bind readVarstrListM_reads fun arguments =>
        reads_pure _)).congr fun s t => ?_
    constructor
    · rintro ⟨s₁, _, definition, rfl, hdef, s₂, _, vmVersion, rfl, hvm, s₃, _, program, rfl,
        hprogram, hid, s₄, _, arguments, rfl, harguments, rfl, rfl⟩
      exact ⟨_, s₁, s₂, s₃, s₄, rfl, by rw [List.append_nil], hdef, hvm, hprogram, harguments,
        rfl, rfl, not_not.mp hid⟩
    · rintro ⟨⟨_, _, _, _, _, _⟩, s₁, s₂, s₃, s₄, rfl, rfl, hdef, hvm, hprogram, harguments,
        rfl, rfl, hid⟩
      exact ⟨s₁, _, _, rfl, hdef, s₂, _, _, rfl, hvm, s₃, _, _, rfl, hprogram,
        not_not.mpr hid, s₄, [], _, (List.append_nil s₄).symm, harguments, rfl, rfl⟩
  | some (.spend si, assetID) =>
    refine (reads_bind readVarstrListM_reads fun arguments => reads_pure _).congr fun s t => ?_
    constructor
    · rintro ⟨s₁, _, arguments, rfl, harguments, rfl, rfl⟩
      exact ⟨arguments, rfl, by rw [List.append_nil]; exact harguments⟩
    · rintro ⟨arguments, rfl, harguments⟩
      exact ⟨s, [], arguments, (List.append_nil s).symm, harguments, rfl, rfl⟩
  | some (.coinbase ci, assetID) =>
    exact (reads_pure _).congr fun s t => and_comm
  | none => exact (reads_pure _).congr fun s t => and_comm

/-- The two closures together read the two bodies of a typed input. -/
theorem isWitnessOf_made (commitment witness : List UInt8) (t : Option TypedInput) :
    (∃ x, IsMadeInput commitment x ∧ IsWitnessOf sha3 (some x) witness t) ↔
      ∃ t', t = some t' ∧ IsTypedInput sha3 commitment witness t' := by
  constructor
  · rintro ⟨⟨made, assetID⟩, hmade, hwitness⟩
    cases made with
    | issuance ii =>
      obtain ⟨nonce, amount, hp, hnonce, hamount, -⟩ := hmade
      obtain ⟨ii', s₁, s₂, s₃, s₄, rfl, hw, hdef, hvm, hprogram, harguments, hn, ha, rfl⟩ :=
        hwitness
      refine ⟨.issuance ii', rfl, ⟨nonce, amount, hp, ?_, ?_⟩, s₁, s₂, s₃, s₄, hw, hdef, hvm,
        hprogram, harguments⟩
      · rw [hn]
        exact hnonce
      · rw [ha]
        exact hamount
    | spend si =>
      obtain ⟨spend, hp, hspend, -, -⟩ := hmade
      obtain ⟨arguments, rfl, harguments⟩ := hwitness
      exact ⟨_, rfl, ⟨spend, hp, hspend⟩, harguments⟩
    | coinbase ci =>
      obtain ⟨arbitrary, hp, harbitrary, -⟩ := hmade
      obtain ⟨rfl, hw⟩ := hwitness
      exact ⟨_, rfl, ⟨arbitrary, hp, harbitrary⟩, hw⟩
  · rintro ⟨t', rfl, ht⟩
    cases t' with
    | issuance ii =>
      obtain ⟨⟨nonce, amount, hp, hnonce, hamount⟩, s₁, s₂, s₃, s₄, hw, hdef, hvm, hprogram,
        harguments⟩ := ht
      -- The closure leaves the witness fields zero and remembers the asset ID, which the
      -- witness is checked against.
      exact ⟨(.issuance ⟨ii.nonce, ii.amount, [], 0, [], []⟩, ii.assetID sha3),
        ⟨nonce, amount, hp, hnonce, hamount, rfl⟩,
        ii, s₁, s₂, s₃, s₄, rfl, hw, hdef, hvm, hprogram, harguments, rfl, rfl, rfl⟩
    | spend si =>
      obtain ⟨⟨spend, hp, hspend⟩, harguments⟩ := ht
      exact ⟨(.spend { si with arguments := [] }, default), ⟨spend, hp, hspend, rfl, rfl⟩,
        si.arguments, rfl, harguments⟩
    | coinbase ci =>
      obtain ⟨⟨arbitrary, hp, harbitrary⟩, hw⟩ := ht
      exact ⟨(.coinbase ci, default), ⟨arbitrary, hp, harbitrary, rfl⟩, rfl, hw⟩

/-- An input is read exactly from its grammar. -/
theorem TxInput.readFrom_reads : Reads (TxInput.readFrom sha3) (IsTxInput sha3) := by
  refine (reads_bind readVarint63_reads fun assetVersion =>
    reads_bind (readExtensibleString_reads (readInputCommitment_reads assetVersion)) fun x =>
    reads_bind (readExtensibleString_reads (readInputWitness_reads sha3 x.1)) fun y =>
    reads_pure (TxInput.mk assetVersion y.1 x.2 y.2)).congr fun s input => ?_
  constructor
  · rintro ⟨s₁, _, assetVersion, rfl, hversion, s₂, _, ⟨made, suffix⟩, rfl,
      ⟨commitment, hcommitment, hmade⟩, s₃, _, ⟨t, wsuffix⟩, rfl,
      ⟨witness, hwitness, hof⟩, rfl, rfl⟩
    refine ⟨s₁, s₂, s₃, commitment, witness, by rw [List.append_nil], hversion, hcommitment,
      hwitness, ?_⟩
    -- Another asset version has no typed input, and neither closure reads anything.
    rcases hmade with ⟨hother, rfl, rfl⟩ | ⟨rfl, x, rfl, hx⟩
    · obtain ⟨rfl, rfl⟩ := hof
      exact ⟨hother, rfl, rfl⟩
    · obtain ⟨t', rfl, ht⟩ := (isWitnessOf_made sha3 commitment witness t).mp ⟨x, hx, hof⟩
      exact ⟨rfl, ht⟩
  · obtain ⟨assetVersion, t, suffix, wsuffix⟩ := input
    rintro ⟨s₁, s₂, s₃, commitment, witness, rfl, hversion, hcommitment, hwitness, hbodies⟩
    -- What the commitment closure made is not in the input: it is chosen here.
    have hmade : ∃ made, ((assetVersion ≠ 1 ∧ commitment = [] ∧ made = none) ∨
        (assetVersion = 1 ∧ ∃ x, made = some x ∧ IsMadeInput commitment x)) ∧
        IsWitnessOf sha3 made witness t := by
      cases t with
      | none =>
        obtain ⟨hother, rfl, rfl⟩ := hbodies
        exact ⟨none, .inl ⟨hother, rfl, rfl⟩, rfl, rfl⟩
      | some t' =>
        obtain ⟨rfl, ht⟩ := hbodies
        obtain ⟨x, hx, hof⟩ := (isWitnessOf_made sha3 commitment witness _).mpr ⟨t', rfl, ht⟩
        exact ⟨some x, .inr ⟨rfl, x, rfl, hx⟩, hof⟩
    obtain ⟨made, hcom, hof⟩ := hmade
    exact ⟨s₁, _, assetVersion, rfl, hversion, s₂, _, (made, suffix), rfl,
      ⟨commitment, hcommitment, hcom⟩, s₃, [], (t, wsuffix), (List.append_nil s₃).symm,
      ⟨witness, hwitness, hof⟩, rfl, rfl⟩

end

/-! ### Outputs -/

theorem OutputCommitment.readBody_reads (assetVersion : UInt64) :
    Reads (OutputCommitment.readBody assetVersion) (IsOutputCommitment assetVersion) := by
  refine (reads_ite (reads_bind (wrapErr_reads _ readAssetAmount_reads) fun assetAmount =>
    reads_bind (wrapErr_reads _ readVarint63_reads) fun vmVersion =>
    reads_guard _ (reads_bind (wrapErr_reads _ readVarstr31_reads) fun controlProgram =>
      reads_pure _)) (reads_pure _)).congr fun s oc => ?_
  rw [IsOutputCommitment]
  by_cases hv : assetVersion = 1
  · rw [if_pos hv, if_pos hv]
    constructor
    · rintro ⟨s₁, _, assetAmount, rfl, hamount, s₂, _, vmVersion, rfl, hvm, hone,
        s₃, _, program, rfl, hprogram, rfl, rfl⟩
      exact ⟨s₁, s₂, s₃, by rw [List.append_nil], hamount, hvm, not_not.mp hone, hprogram⟩
    · rintro ⟨s₁, s₂, s₃, rfl, hamount, hvm, hone, hprogram⟩
      exact ⟨s₁, _, _, rfl, hamount, s₂, _, _, rfl, hvm, not_not.mpr hone, s₃, [], _,
        (List.append_nil s₃).symm, hprogram, rfl, rfl⟩
  · rw [if_neg hv, if_neg hv]

/-- An output is read exactly from its grammar. -/
theorem TxOutput.readFrom_reads : Reads TxOutput.readFrom IsTxOutput := by
  refine (reads_bind (wrapErr_reads _ readVarint63_reads) fun assetVersion =>
    reads_bind (wrapErr_reads _
      (readExtensibleString_reads (OutputCommitment.readBody_reads assetVersion))) fun x =>
    reads_bind (wrapErr_reads _ readVarstr31_reads) fun _ =>
    reads_pure (TxOutput.mk assetVersion x.1 x.2)).congr fun s output => ?_
  constructor
  · rintro ⟨s₁, _, assetVersion, rfl, hversion, s₂, _, ⟨oc, suffix⟩, rfl, hcommitment,
      s₃, _, witness, rfl, hwitness, rfl, rfl⟩
    exact ⟨s₁, s₂, s₃, witness, by rw [List.append_nil], hversion, hcommitment, hwitness⟩
  · rintro ⟨s₁, s₂, s₃, witness, rfl, hversion, hcommitment, hwitness⟩
    exact ⟨s₁, _, _, rfl, hversion, s₂, _, _, rfl, hcommitment, s₃, [], witness,
      (List.append_nil s₃).symm, hwitness, rfl, rfl⟩

/-! ### Transactions -/

section
variable (sha3 : List UInt8 → FixedBytes 32)

/-- The fields, before the size is set. -/
def IsTxFields (p : List UInt8) (tx : TxData) : Prop :=
  ∃ tx', IsTxData sha3 p tx' ∧ tx = { tx' with serializedSize := 0 }

/-- The fields are read exactly from their grammar. -/
theorem TxData.readFields_reads : Reads (TxData.readFields sha3) (IsTxFields sha3) := by
  refine (reads_bind (wrapErr_reads _ (readFull_reads 1)) fun serflags =>
    reads_guard _ (reads_bind (wrapErr_reads _ readVarint63_reads) fun version =>
    reads_bind readVarint63_reads fun timeRange =>
    reads_bind (wrapErr_reads _ readVarint31_reads) fun n =>
    reads_bind (reads_many (fun _ => wrapErr_reads _ (TxInput.readFrom_reads sha3)) n [])
      fun inputs =>
    reads_bind (wrapErr_reads _ readVarint31_reads) fun m =>
    reads_bind (reads_many (fun _ => wrapErr_reads _ TxOutput.readFrom_reads) m []) fun outputs =>
    reads_pure _)).congr fun s tx => ?_
  constructor
  · rintro ⟨_, _, serflags, rfl, rfl, hflags, s₁, _, version, rfl, hversion, s₂, _, timeRange,
      rfl, htime, s₃, _, n, rfl, hn, s₄, _, inputs, rfl, ⟨_, rfl, hinputs⟩, s₅, _, m, rfl, hm,
      s₆, _, outputs, rfl, ⟨_, rfl, houtputs⟩, rfl, rfl⟩
    -- The two counts are the lengths of the lists that the loops built.
    obtain rfl := hinputs.1
    obtain rfl := houtputs.1
    refine ⟨⟨version, UInt64.ofNat _, timeRange, inputs, outputs⟩,
      ⟨⟨s₁, s₂, s₃, s₄, s₅, s₆, ?_, hversion, htime, hn, hinputs, hm, houtputs⟩, rfl⟩, rfl⟩
    -- The check of the flags leaves one value for the first byte.
    rw [not_not.mp hflags, List.append_nil]
    rfl
  · rintro ⟨tx', ⟨⟨s₁, s₂, s₃, s₄, s₅, s₆, rfl, hversion, htime, hn, hinputs, hm, houtputs⟩, -⟩,
      rfl⟩
    exact ⟨[serRequired], _, ⟨[serRequired], rfl⟩, rfl, rfl, not_not.mpr rfl,
      s₁, _, _, rfl, hversion, s₂, _, _, rfl, htime, s₃, _, _, rfl, hn,
      s₄, _, _, rfl, ⟨_, rfl, hinputs⟩, s₅, _, _, rfl, hm,
      s₆, [], _, (List.append_nil s₆).symm, ⟨_, rfl, houtputs⟩, rfl, rfl⟩

/-- `TxData.readFrom` reads the fields and sets the size to the number of bytes that
they took. -/
theorem TxData.run_readFrom (b r : List UInt8) (tx : TxData) :
    (TxData.readFrom sha3).run b = .ok (tx, r) ↔
      ∃ tx', (TxData.readFields sha3).run b = .ok (tx', r) ∧
        tx = { tx' with serializedSize := UInt64.ofNat (b.length - r.length) } := by
  rw [TxData.readFrom, run_bind_eq_ok]
  constructor
  · rintro ⟨_, _, hlen, h⟩
    obtain ⟨rfl, rfl⟩ : _ = b.length ∧ _ = b := by
      injection hlen with hlen
      exact ⟨(Prod.mk.inj hlen).1.symm, (Prod.mk.inj hlen).2.symm⟩
    rw [run_bind_eq_ok] at h
    obtain ⟨tx', t, hfields, h⟩ := h
    injection h with h
    obtain ⟨rfl, rfl⟩ := Prod.mk.inj h
    exact ⟨tx', hfields, rfl⟩
  · rintro ⟨tx', hfields, rfl⟩
    refine ⟨b.length, b, rfl, ?_⟩
    rw [run_bind_eq_ok]
    exact ⟨tx', r, hfields, rfl⟩

/-- `TxData.readFrom` reads exactly the grammar of transactions. -/
theorem TxData.readFrom_reads : Reads (TxData.readFrom sha3) (IsTxData sha3) := by
  intro b tx r
  rw [TxData.run_readFrom]
  constructor
  · rintro ⟨_, hfields, rfl⟩
    obtain ⟨p, rfl, tx', htx, rfl⟩ := (TxData.readFields_reads sha3).split hfields
    refine ⟨p, rfl, htx.1, ?_⟩
    -- The bytes consumed are those of the string, whatever follows it.
    rw [List.length_append, Nat.add_sub_cancel]
  · rintro ⟨p, rfl, htx⟩
    refine ⟨_, (TxData.readFields_reads sha3).append ⟨tx, htx, rfl⟩ r, ?_⟩
    rw [List.length_append, Nat.add_sub_cancel, ← htx.2]

/-- `TxData.readFrom` accepts exactly its grammar: it succeeds with `tx` and leaves
`r` if and only if the input is a serialized `tx` followed by `r`. It is
self-delimiting: the same bytes give the same transaction whatever follows, and
`SerializedSize` is their number. -/
theorem readFrom_accepts_grammar :
    (∀ (b r : List UInt8) (tx : TxData),
      (TxData.readFrom sha3).run b = .ok (tx, r) ↔ ∃ p, b = p ++ r ∧ IsTxData sha3 p tx) ∧
    ∀ (p : List UInt8) (tx : TxData), IsTxData sha3 p tx →
      (∀ s, (TxData.readFrom sha3).run (p ++ s) = .ok (tx, s)) ∧
      (p.length < 2 ^ 64 → tx.serializedSize.toNat = p.length) := by
  refine ⟨fun b r tx => TxData.readFrom_reads sha3 b tx r, fun p tx htx => ⟨fun s => ?_, ?_⟩⟩
  · exact (TxData.readFrom_reads sha3).append htx s
  · intro hlt
    rw [htx.2, UInt64.toNat_ofNat', Nat.mod_eq_of_lt hlt]

end

/-- A coinbase transaction with one input and no output. The input's commitment
ends with the unconsumed byte 5. -/
theorem readFrom_accepts_coinbase :
    ∃ tx, IsTxData (fun _ => Hash.zero.byte32) [7, 1, 0, 1, 1, 4, 2, 1, 9, 5, 0, 0] tx ∧
      tx.inputs = [⟨1, some (.coinbase ⟨[9]⟩), [5], []⟩] ∧ tx.serializedSize.toNat = 12 := by
  have hrun : (TxData.readFrom fun _ => Hash.zero.byte32).run
      [7, 1, 0, 1, 1, 4, 2, 1, 9, 5, 0, 0] =
      .ok (⟨1, 12, 0, [⟨1, some (.coinbase ⟨[9]⟩), [5], []⟩], []⟩, []) := by rfl
  obtain ⟨p, hp, htx⟩ := ((readFrom_accepts_grammar _).1 _ _ _).mp hrun
  rw [List.append_nil] at hp
  subst hp
  exact ⟨_, htx, rfl, ((readFrom_accepts_grammar _).2 _ _ htx).2 (by decide)⟩

end BtmStats.Proofs.Types
