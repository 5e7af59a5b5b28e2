import BtmStats.Proofs.Bc.Hash
import BtmStats.Proofs.Encoding.Writers
import BtmStats.Spec.Bc.WriteForHash

/-!
# `BtmStats.Proofs.Bc.WriteForHash`: the hashed bytes determine the value

`writeForHash` writes no types, so two values of different types may have the same
bytes. Among the values of one type the bytes determine the value, and no value's bytes
begin those of another (`writeForHash_delimits`): every layout shows where it ends, by
its width, its length or its count, and the fields of a struct follow each other. The
proof is an induction over the type.

This holds for writes that return no error. A struct with an unexported field is refused,
and so is a byte string that is too long; then the bytes say less
(`writeForHash_refused`). `ComputeAssetID` hashes them all the same.
-/

set_option autoImplicit false

namespace BtmStats.Proofs.Bc

open Lib Spec Spec.Bc Spec.Blockchain Proofs.Blockchain

/-! ### Types -/

mutual

/-- The types that `writeForHash` takes. -/
inductive GoType where
  | byte
  | uint64
  | bytes
  | byteSlices
  | string
  | hashPtr
  | assetIDPtr
  | hash
  | assetID
  | ptr (elem : GoType)
  | slice (elem : GoType)
  | struct (name : String) (fields : GoFields)

/-- The fields of a struct: the name, whether the field is exported, and the type. -/
inductive GoFields where
  | nil
  | cons (name : String) (exported : Bool) (typ : GoType) (rest : GoFields)

end

mutual

/-- A value of a type, without nil pointers and with all lengths at most `MaxInt32`. -/
def IsValue : GoType → GoValue → Prop
  | .byte, c => ∃ v, c = .byte v
  | .uint64, c => ∃ v, c = .uint64 v
  | .bytes, c => ∃ v, c = .bytes v ∧ v.length ≤ maxInt32
  | .byteSlices, c =>
    ∃ v, c = .byteSlices v ∧ v.length ≤ maxInt32 ∧ ∀ s ∈ v, s.length ≤ maxInt32
  | .string, c => ∃ v, c = .string v ∧ v.length ≤ maxInt32
  | .hashPtr, c => ∃ v, c = .hashPtr (some v)
  | .assetIDPtr, c => ∃ v, c = .assetIDPtr (some v)
  | .hash, c => ∃ v, c = .hash v
  | .assetID, c => ∃ v, c = .assetID v
  | .ptr t, c => ∃ v, c = .ptr (some v) ∧ IsValue t v
  | .slice t, c => ∃ vs, c = .slice vs ∧ vs.length ≤ maxInt32 ∧ ∀ v ∈ vs, IsValue t v
  | .struct name ts, c => ∃ fs, c = .struct name fs ∧ AreFields ts fs

def AreFields : GoFields → List (String × Bool × GoValue) → Prop
  | .nil, fs => fs = []
  | .cons name exported t ts, fs =>
    ∃ v rest, fs = (name, exported, v) :: rest ∧ IsValue t v ∧ AreFields ts rest

end

mutual

/-- All fields of all structs are exported. -/
def Exported : GoType → Prop
  | .ptr t | .slice t => Exported t
  | .struct _ ts => ExportedFields ts
  | _ => True

def ExportedFields : GoFields → Prop
  | .nil => True
  | .cons _ exported t ts => exported = true ∧ Exported t ∧ ExportedFields ts

end

/-! ### One type, one layout -/

/-- The bytes that `writeForHash` writes for a value of a type. -/
def WrittenAs (t : GoType) (s : List UInt8) (c : GoValue) : Prop :=
  IsValue t c ∧ writeForHash c = (s, none)

theorem putUint64LE_inj {v v' : UInt64} (h : putUint64LE v = putUint64LE v') : v = v' := by
  have hlt : ∀ v : UInt64, v.toNat < 256 ^ 8 := fun v => v.toNat_lt
  have hbytes : toBytesBE 8 v.toNat = toBytesBE 8 v'.toNat := List.reverse_injective h
  have hval := congrArg ofBytesBE hbytes
  rw [ofBytesBE_toBytesBE_of_lt (hlt v), ofBytesBE_toBytesBE_of_lt (hlt v')] at hval
  exact UInt64.toNat_inj.mp hval

/-- The elements of a slice are written one after the other. -/
theorem writeElements_many {t : GoType} {vs : List GoValue} :
    ∀ {i : Nat} {s : List UInt8}, (∀ v ∈ vs, IsValue t v) → writeElements i vs = (s, none) →
      Many (WrittenAs t) vs.length s vs := by
  induction vs with
  | nil =>
    intro i s _ h
    rw [writeElements] at h
    cases h
    exact ⟨rfl, [], rfl, .nil⟩
  | cons v vs ih =>
    intro i s hvs h
    obtain ⟨hv, hvs⟩ := List.forall_mem_cons.mp hvs
    rw [writeElements] at h
    obtain ⟨s₁, s₂, rfl, h₁, h₂⟩ := andThen_eq_ok_iff.mp h
    obtain ⟨-, parts, rfl, hparts⟩ := ih hvs h₂
    exact ⟨rfl, s₁ :: parts, rfl, .cons ⟨hv, wrap_eq_ok_iff.mp h₁⟩ hparts⟩

theorem bytes_delimits : Delimits (fun s (h : Hash) => s = h.bytes) :=
  delimits_of_width length_bytes fun _ _ => bytes_inj

theorem assetID_delimits : Delimits (fun s (a : AssetID) => s = a.bytes) :=
  delimits_of_width (fun a => length_bytes a.hash) fun a a' h => by
    cases a
    cases a'
    exact congrArg AssetID.mk (bytes_inj h)

/-- A layout of one width. -/
theorem writtenAs_delimits {α : Type} {t : GoType} {make : α → GoValue} {f : α → List UInt8}
    (hf : Delimits (fun s v => s = f v)) (hvalue : ∀ c, IsValue t c → ∃ v, c = make v)
    (hwrite : ∀ v, writeForHash (make v) = .ok (f v)) : Delimits (WrittenAs t) := by
  refine (hf.map make).mono ?_
  rintro s c ⟨hc, h⟩
  obtain ⟨v, rfl⟩ := hvalue c hc
  rw [hwrite] at h
  cases h
  exact ⟨v, rfl, rfl⟩

mutual

/-- Among the values of one type, the written bytes show where they end and which value
they are. -/
theorem writeForHash_delimits (t : GoType) : Delimits (WrittenAs t) := by
  cases t with
  | byte =>
    have hbyte : Delimits (fun s (v : UInt8) => s = [v]) :=
      delimits_of_width (fun _ => rfl) fun _ _ h => List.singleton_inj.mp h
    exact writtenAs_delimits hbyte (fun _ h => h) fun v => by rw [writeForHash]
  | uint64 =>
    have huint : Delimits (fun s (v : UInt64) => s = putUint64LE v) :=
      delimits_of_width (n := 8) (fun v => by simp [putUint64LE]) fun _ _ => putUint64LE_inj
    exact writtenAs_delimits huint (fun _ h => h) fun v => by rw [writeForHash]
  | hashPtr | hash =>
    exact writtenAs_delimits bytes_delimits (fun _ h => h) fun v => by rw [writeForHash]
  | assetIDPtr | assetID =>
    exact writtenAs_delimits assetID_delimits (fun _ h => h) fun v => by rw [writeForHash]
  | bytes =>
    refine (readVarstr31_reads.delimits.map GoValue.bytes).mono ?_
    rintro s _ ⟨⟨v, rfl, -⟩, h⟩
    rw [writeForHash, wrap_eq_ok_iff] at h
    exact ⟨v, rfl, writeVarstr31_spec h⟩
  | byteSlices =>
    refine (readVarstrListM_reads.delimits.map GoValue.byteSlices).mono ?_
    rintro s _ ⟨⟨v, rfl, -⟩, h⟩
    rw [writeForHash, wrap_eq_ok_iff] at h
    exact ⟨v, rfl, writeVarstrList_spec h⟩
  | string =>
    refine (readVarstr31_reads.delimits.map GoValue.string).mono ?_
    rintro s _ ⟨⟨v, rfl, -⟩, h⟩
    rw [writeForHash, wrap_eq_ok_iff] at h
    exact ⟨v, rfl, writeVarstr31_spec h⟩
  | ptr t =>
    refine ((writeForHash_delimits t).map fun v => GoValue.ptr (some v)).mono ?_
    rintro s _ ⟨⟨v, rfl, hv⟩, h⟩
    rw [writeForHash] at h
    exact ⟨v, rfl, hv, h⟩
  | slice t =>
    -- The count comes first, so that two slices have the same number of elements.
    have hslice : Delimits (Seq IsVarint31 (Many (WrittenAs t))) :=
      readVarint31_reads.delimits.seq (writeForHash_delimits t).many
    refine (hslice.map GoValue.slice).mono ?_
    rintro s _ ⟨⟨vs, rfl, -, hvs⟩, h⟩
    rw [writeForHash] at h
    obtain ⟨s₁, s₂, rfl, h₁, h₂⟩ := andThen_eq_ok_iff.mp h
    exact ⟨vs, rfl, s₁, s₂, vs.length, rfl, writeVarint31_spec (wrap_eq_ok_iff.mp h₁),
      writeElements_many hvs h₂⟩
  | struct name ts =>
    refine ((writeFields_delimits ts name 0).map (GoValue.struct name)).mono ?_
    rintro s _ ⟨⟨fs, rfl, hfs⟩, h⟩
    rw [writeForHash] at h
    exact ⟨fs, rfl, hfs, h⟩

/-- The fields of a struct, from field `i` on. -/
theorem writeFields_delimits (ts : GoFields) (name : String) (i : Nat) :
    Delimits (fun s fs => AreFields ts fs ∧ writeFields name i fs = (s, none)) := by
  cases ts with
  | nil =>
    rintro s _ s' _ r r' ⟨rfl, h⟩ ⟨rfl, h'⟩ heq
    rw [writeFields] at h h'
    cases h
    cases h'
    exact ⟨rfl, rfl, heq⟩
  | cons field exported t ts =>
    have hseq := (writeForHash_delimits t).seq fun v =>
      (writeFields_delimits ts name (i + 1)).map ((field, exported, v) :: ·)
    refine hseq.mono ?_
    rintro s _ ⟨⟨v, rest, rfl, hv, hrest⟩, h⟩
    rw [writeFields] at h
    split at h
    · obtain ⟨s₁, s₂, rfl, h₁, h₂⟩ := andThen_eq_ok_iff.mp h
      exact ⟨s₁, s₂, v, rfl, ⟨hv, wrap_eq_ok_iff.mp h₁⟩, rest, rfl, hrest, h₂⟩
    · cases h

end

/-! ### Writes without an error -/

theorem writeElements_succeeds {vs : List GoValue} (h : ∀ v ∈ vs, (writeForHash v).2 = none) :
    ∀ i, (writeElements i vs).2 = none := by
  induction vs with
  | nil =>
    intro i
    rw [writeElements]
    rfl
  | cons v vs ih =>
    intro i
    obtain ⟨hv, hvs⟩ := List.forall_mem_cons.mp h
    rw [writeElements]
    simp [hv, ih hvs]

mutual

/-- A value with exported fields is written without an error. -/
theorem writeForHash_succeeds (t : GoType) (ht : Exported t) {c : GoValue} (hc : IsValue t c) :
    (writeForHash c).2 = none := by
  cases t with
  | byte | uint64 | hashPtr | assetIDPtr | hash | assetID =>
    obtain ⟨v, rfl⟩ := hc
    rw [writeForHash]
    rfl
  | bytes | string =>
    obtain ⟨v, rfl, hlen⟩ := hc
    rw [writeForHash, wrap_snd_eq_none_iff]
    exact writeVarstr31_of_le hlen
  | byteSlices =>
    obtain ⟨v, rfl, hcount, hlens⟩ := hc
    rw [writeForHash, wrap_snd_eq_none_iff]
    exact writeVarstrList_of_le hcount hlens
  | ptr t =>
    obtain ⟨v, rfl, hv⟩ := hc
    rw [writeForHash]
    exact writeForHash_succeeds t ht hv
  | slice t =>
    obtain ⟨vs, rfl, hcount, hvs⟩ := hc
    rw [writeForHash, andThen_snd_eq_none_iff, wrap_snd_eq_none_iff, writeVarint31_of_le hcount]
    exact ⟨rfl, writeElements_succeeds (fun v hv => writeForHash_succeeds t ht (hvs v hv)) 0⟩
  | struct name ts =>
    obtain ⟨fs, rfl, hfs⟩ := hc
    rw [writeForHash]
    exact writeFields_succeeds ts ht hfs name 0

theorem writeFields_succeeds (ts : GoFields) (hts : ExportedFields ts)
    {fs : List (String × Bool × GoValue)} (hfs : AreFields ts fs) (name : String) (i : Nat) :
    (writeFields name i fs).2 = none := by
  cases ts with
  | nil =>
    obtain rfl := hfs
    rw [writeFields]
    rfl
  | cons field exported t ts =>
    obtain ⟨v, rest, rfl, hv, hrest⟩ := hfs
    obtain ⟨rfl, ht, hts⟩ := hts
    rw [writeFields, if_pos rfl, andThen_snd_eq_none_iff, wrap_snd_eq_none_iff]
    exact ⟨writeForHash_succeeds t ht hv, writeFields_succeeds ts hts hrest name (i + 1)⟩

end

/-! ### Asset IDs -/

def programType : GoType :=
  .struct "Program" (.cons "VmVersion" true .uint64 (.cons "Code" true .bytes .nil))

def assetDefinitionType : GoType :=
  .struct "AssetDefinition"
    (.cons "IssuanceProgram" true (.ptr programType) (.cons "Data" true .hashPtr .nil))

/-- The definition that `ComputeAssetID` makes of its arguments. -/
def assetDefinition (prog : List UInt8) (vmVersion : UInt64) (data : Hash) : AssetDefinition :=
  ⟨some ⟨vmVersion, prog⟩, some data⟩

/-- The bytes that `ComputeAssetID` hashes. -/
def hashedBytes (prog : List UInt8) (vmVersion : UInt64) (data : Hash) : List UInt8 :=
  (writeForHash (assetDefinition prog vmVersion data).goValue).1

theorem assetDefinition_isValue {prog : List UInt8} (h : prog.length ≤ maxInt32)
    (vmVersion : UInt64) (data : Hash) :
    IsValue assetDefinitionType (assetDefinition prog vmVersion data).goValue :=
  ⟨_, rfl, _, _, rfl, ⟨_, rfl, _, rfl, _, _, rfl, ⟨_, rfl⟩, _, _, rfl, ⟨_, rfl, h⟩, rfl⟩,
    _, _, rfl, ⟨_, rfl⟩, rfl⟩

theorem assetDefinition_exported : Exported assetDefinitionType :=
  ⟨rfl, ⟨rfl, trivial, rfl, trivial, trivial⟩, rfl, trivial, trivial⟩

/-- A value whose bytes begin those of another value of its type is this value. -/
theorem eq_of_begins {t : GoType} (ht : Exported t) {v v' : GoValue} (hv : IsValue t v)
    (hv' : IsValue t v') (h : (writeForHash v).1 <+: (writeForHash v').1) : v = v' := by
  obtain ⟨r, hr⟩ := h
  exact (writeForHash_delimits t _ _ _ _ r [] ⟨hv, Prod.ext rfl (writeForHash_succeeds t ht hv)⟩
    ⟨hv', Prod.ext rfl (writeForHash_succeeds t ht hv')⟩ (by rw [hr, List.append_nil])).2.1

/-- `writeForHash` at every type with exported fields: it returns no error, and a value
whose bytes begin those of another value is this value. So two triples with one asset ID
are the same, unless the hash collides on the bytes written for them. -/
theorem writeForHash_uniquely_decodable :
    (∀ t, Exported t → ∀ v v', IsValue t v → IsValue t v' →
      (writeForHash v).2 = none ∧ ((writeForHash v).1 <+: (writeForHash v').1 → v = v')) ∧
    ∀ (sha3 : List UInt8 → FixedBytes 32) (prog prog' : List UInt8) (vmVersion vmVersion' : UInt64)
      (data data' : Hash), prog.length ≤ maxInt32 → prog'.length ≤ maxInt32 →
      (sha3 (hashedBytes prog vmVersion data) = sha3 (hashedBytes prog' vmVersion' data') →
        hashedBytes prog vmVersion data = hashedBytes prog' vmVersion' data') →
      computeAssetID sha3 prog vmVersion data = computeAssetID sha3 prog' vmVersion' data' →
      prog = prog' ∧ vmVersion = vmVersion' ∧ data = data' := by
  refine ⟨fun t ht v v' hv hv' => ⟨writeForHash_succeeds t ht hv, eq_of_begins ht hv hv'⟩, ?_⟩
  intro sha3 prog prog' vmVersion vmVersion' data data' hprog hprog' hinj hid
  have hbytes := hinj (newHash_inj (AssetID.mk.inj hid))
  have hbegins : hashedBytes prog vmVersion data <+: hashedBytes prog' vmVersion' data' :=
    ⟨[], (List.append_nil _).trans hbytes⟩
  have hvalue := eq_of_begins assetDefinition_exported
    (assetDefinition_isValue hprog vmVersion data) (assetDefinition_isValue hprog' vmVersion' data')
    hbegins
  cases hvalue
  exact ⟨rfl, rfl, rfl⟩

/-- The first 32 bytes, padded with zeros. -/
def firstBytes (p : List UInt8) : FixedBytes 32 :=
  ⟨(p ++ List.replicate 32 0).take 32, by simp⟩

/-- Two slices of integers, and two programs. -/
theorem writeForHash_uniquely_decodable_two :
    ¬ (writeForHash (.slice [.uint64 1])).1 <+: (writeForHash (.slice [.uint64 2])).1 ∧
      computeAssetID firstBytes [1] 1 Hash.zero ≠ computeAssetID firstBytes [2] 1 Hash.zero := by
  have hone : 1 ≤ maxInt32 := by decide
  have hvalue : ∀ n, IsValue (.slice .uint64) (.slice [.uint64 n]) := by
    intro n
    exact ⟨_, rfl, hone, fun v hv => ⟨n, List.mem_singleton.mp hv⟩⟩
  constructor
  · intro hbegins
    have heq := (writeForHash_uniquely_decodable.1 (.slice .uint64) trivial _ _ (hvalue 1)
      (hvalue 2)).2 hbegins
    cases heq
  · intro hid
    have heq := writeForHash_uniquely_decodable.2 firstBytes [1] [2] 1 1 Hash.zero Hash.zero
      (by decide) (by decide) (fun h => absurd h (by decide +kernel)) hid
    exact absurd heq.1 (by decide)

/-! ### Refused values -/

/-- Of a definition with a program that is too long only the version is hashed. -/
theorem hashedBytes_of_long {prog : List UInt8} (h : maxInt32 < prog.length) (vmVersion : UInt64)
    (data : Hash) : hashedBytes prog vmVersion data = putUint64LE vmVersion := by
  have hlong : writeVarstr31 prog = ([], some RootErr.errRange.err) := by
    rw [writeVarstr31, writeVarint31, if_pos h]
    rfl
  simp [hashedBytes, assetDefinition, AssetDefinition.goValue, Program.goValue, writeForHash,
    writeFields, hlong, Written.ok, Written.wrap, Written.andThen]

/-- Two values of a struct type with an unexported field: nothing is written for them. And
two programs of one length above `MaxInt32`: they give one asset ID, whatever the hash
is. -/
theorem writeForHash_refused :
    (let t := GoType.struct "T" (.cons "x" false .uint64 .nil)
      let v := fun n => GoValue.struct "T" [("x", false, .uint64 n)]
      IsValue t (v 1) ∧ IsValue t (v 2) ∧ (writeForHash (v 1)).1 <+: (writeForHash (v 2)).1 ∧
        v 1 ≠ v 2) ∧
    ∀ n, maxInt32 < n → List.replicate n (0 : UInt8) ≠ List.replicate n 1 ∧
      ∀ sha3 vmVersion data, computeAssetID sha3 (List.replicate n 0) vmVersion data =
        computeAssetID sha3 (List.replicate n 1) vmVersion data := by
  constructor
  · intro t v
    have hvalue : ∀ n, IsValue t (v n) := fun n => ⟨_, rfl, _, _, rfl, ⟨n, rfl⟩, rfl⟩
    refine ⟨hvalue 1, hvalue 2, ?_, fun h => ?_⟩
    · simp [v, writeForHash, writeFields]
    · cases h
  · intro n hn
    have hlen : ∀ b : UInt8, maxInt32 < (List.replicate n b).length := by
      intro b
      rw [List.length_replicate]
      exact hn
    constructor
    · intro heq
      have hbyte := (List.replicate_right_inj (Nat.ne_zero_of_lt hn)).mp heq
      exact absurd hbyte (by decide)
    · intro sha3 vmVersion data
      show newAssetID (sha3 (hashedBytes (List.replicate n 0) vmVersion data)) =
        newAssetID (sha3 (hashedBytes (List.replicate n 1) vmVersion data))
      rw [hashedBytes_of_long (hlen 0), hashedBytes_of_long (hlen 1)]

end BtmStats.Proofs.Bc
