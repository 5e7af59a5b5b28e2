import Mathlib.Algebra.Ring.Nat
import BtmStats.Spec.Wire.Binary

/-!
# `BtmStats.Proofs.Wire.Binary`: what the readers of go-wire take for an encoding

Each reader is a scanner of `Lib.Scanner`, and the theorems say which bytes leave it without an
error. For fixed-size values these are the bytes that the writer writes. A length is different:
`WriteVarint` uses the shortest form, and `ReadVarint` takes the number with leading zero bytes as
well, and with the sign of a number that wraps around (`VarintForm`).
-/

set_option autoImplicit false

namespace BtmStats.Proofs.Wire

open Lib Lib.Scanner Spec Spec.Wire

/-! ### Values of a fixed size -/

theorem scans_readFull (k : Nat) : Scans (readFull k) (fun _ s a => s = a.1) := by
  refine ⟨err_of_unlessErr, fun b n a r m => ?_⟩
  by_cases hk : k ≤ b.length
  · have hrun : (readFull k).run ⟨b, n, none⟩ =
        (⟨b.take k, List.length_take_of_le hk⟩, ⟨b.drop k, n + k, none⟩) := dif_pos hk
    rw [hrun]
    constructor
    · intro h
      obtain ⟨rfl, hcursor⟩ := Prod.mk.inj h
      obtain ⟨rfl, rfl, -⟩ := Cursor.mk.inj hcursor
      refine ⟨b.take k, (List.take_append_drop k b).symm, ?_, rfl⟩
      rw [List.length_take_of_le hk]
    · rintro ⟨s, rfl, rfl, rfl⟩
      obtain ⟨s, rfl⟩ := a
      refine Prod.ext (Subtype.ext List.take_left) ?_
      rw [List.drop_left]
  · have hrun : ((readFull k).run ⟨b, n, none⟩).2.err ≠ none := by
      have hshort : (readFull k).run ⟨b, n, none⟩ = _ := dif_neg hk
      rw [hshort]
      exact Option.some_ne_none _
    constructor
    · intro h
      refine absurd ?_ hrun
      rw [h]
    · rintro ⟨s, rfl, -, rfl⟩
      refine absurd ?_ hk
      rw [List.length_append, a.2]
      exact Nat.le_add_right k _

theorem scans_readByte : Scans readByte (fun _ s b => s = [b]) := by
  refine (scans_map (scans_readFull 1) fun buf => buf.1.headD 0).congr fun n s b => ?_
  constructor
  · rintro ⟨⟨_, hbuf⟩, rfl, rfl⟩
    obtain ⟨c, rfl⟩ := List.length_eq_one_iff.mp hbuf
    rfl
  · rintro rfl
    exact ⟨⟨[b], rfl⟩, rfl, rfl⟩

theorem scans_readUint64 : Scans readUint64 (fun _ s i => s = writeUint64 i) := by
  refine (scans_map (scans_readFull 8) fun buf => UInt64.ofNat (ofBytesBE buf.1)).congr
    fun n s i => ?_
  constructor
  · rintro ⟨buf, rfl, rfl⟩
    have hlt : ofBytesBE buf.1 < 2 ^ 64 := by
      have := ofBytesBE_lt buf.1
      rwa [buf.2] at this
    have hbytes := toBytesBE_ofBytesBE buf.1
    rw [buf.2] at hbytes
    rw [writeUint64, UInt64.toNat_ofNat', Nat.mod_eq_of_lt hlt, hbytes]
  · rintro rfl
    refine ⟨⟨writeUint64 i, length_toBytesBE 8 _⟩, rfl, ?_⟩
    show i = UInt64.ofNat (ofBytesBE (toBytesBE 8 i.toNat))
    rw [ofBytesBE_toBytesBE_of_lt (by exact i.toNat_lt), UInt64.ofNat_toNat]

theorem scans_readByteArray (k : Nat) : Scans (readByteArray k) (fun _ s a => s = a.1) := by
  refine (scans_bind (scans_readFull k) fun buf =>
    scans_unlessErr (FixedBytes.replicate k 0) fun _ => scans_pure buf).congr fun n s a => ?_
  constructor
  · rintro ⟨s₁, s₂, buf, rfl, rfl, rfl, rfl⟩
    exact List.append_nil _
  · rintro rfl
    exact ⟨a.1, [], a, (List.append_nil _).symm, rfl, rfl, rfl⟩

/-! ### Lengths -/

/-- The strings that `ReadVarint` reads as `i`: a zero byte, or up to eight digits after a byte
with their number. The digits may start with zeros, and a number over `2 ^ 63` wraps around, in
both forms of the sign. -/
def VarintForm (s : List UInt8) (i : Int64) : Prop :=
  (s = [0] ∧ i = 0) ∨
  ∃ digits : List UInt8, 1 ≤ digits.length ∧ digits.length ≤ 8 ∧
    ((s = UInt8.ofNat digits.length :: digits ∧ i = Int64.ofNat (ofBytesBE digits)) ∨
      (s = UInt8.ofNat (digits.length + 0xf0) :: digits ∧ i = -Int64.ofNat (ofBytesBE digits)))

/-- The number of digits in a first byte of `ReadVarint`. -/
def varintSize (b : UInt8) : UInt8 := if b >>> 4 = 0x0f then b &&& 0x0f else b

theorem varintSize_of_not_negate {b : UInt8} (h : ¬ b >>> 4 = 0x0f) : varintSize b = b :=
  if_neg h

/-- A first byte with a sign is determined by its number of digits. -/
theorem eq_of_negate (b : UInt8) (h : b >>> 4 = 0x0f) :
    b = UInt8.ofNat ((varintSize b).toNat + 0xf0) := by
  have hhigh : b.toNat / 16 = 15 := by
    have hnat := congrArg UInt8.toNat h
    rwa [UInt8.toNat_shiftRight, Nat.shiftRight_eq_div_pow] at hnat
  have hlow : (b &&& 0x0f).toNat = b.toNat % 16 := by
    rw [UInt8.toNat_and]
    exact Nat.and_two_pow_sub_one_eq_mod b.toNat 4
  have hlt : b.toNat < 256 := b.toNat_lt
  rw [varintSize, if_pos h]
  apply UInt8.toNat_inj.mp
  rw [UInt8.toNat_ofNat', hlow]
  omega

theorem varintSize_ofNat {k : Nat} (h : k ≤ 8) :
    ¬ UInt8.ofNat k >>> 4 = 0x0f ∧ varintSize (UInt8.ofNat k) = UInt8.ofNat k := by
  have hall : ∀ k ≤ 8, ¬ UInt8.ofNat k >>> 4 = 0x0f ∧
      varintSize (UInt8.ofNat k) = UInt8.ofNat k := by decide
  exact hall k h

theorem varintSize_ofNat_add {k : Nat} (h : k ≤ 8) :
    UInt8.ofNat (k + 0xf0) >>> 4 = 0x0f ∧
      varintSize (UInt8.ofNat (k + 0xf0)) = UInt8.ofNat k := by
  have hall : ∀ k ≤ 8, UInt8.ofNat (k + 0xf0) >>> 4 = 0x0f ∧
      varintSize (UInt8.ofNat (k + 0xf0)) = UInt8.ofNat k := by decide
  exact hall k h

/-- What `ReadVarint` reads after the first byte. -/
def VarintRest (b : UInt8) (s : List UInt8) (i : Int64) : Prop :=
  varintSize b ≤ 8 ∧ s.length = (varintSize b).toNat ∧ (varintSize b = 0 → ¬ b >>> 4 = 0x0f) ∧
    i = if b >>> 4 = 0x0f then -Int64.ofNat (ofBytesBE s) else Int64.ofNat (ofBytesBE s)

/-- The form of a number, by its first byte. -/
theorem varintForm_iff {s : List UInt8} {i : Int64} :
    VarintForm s i ↔ ∃ b digits, s = b :: digits ∧ VarintRest b digits i := by
  constructor
  · have htoNat : ∀ k ≤ 8, (UInt8.ofNat k).toNat = k := by decide
    rintro (⟨rfl, rfl⟩ | ⟨digits, hpos, hle, ⟨rfl, rfl⟩ | ⟨rfl, rfl⟩⟩)
    · exact ⟨0, [], rfl, by decide, rfl, fun _ => by decide, rfl⟩
    · obtain ⟨hneg, hsize⟩ := varintSize_ofNat hle
      refine ⟨_, digits, rfl, ?_, ?_, fun _ => hneg, (if_neg hneg).symm⟩
      · rw [hsize, UInt8.le_iff_toNat_le, htoNat _ hle]
        exact hle
      · rw [hsize, htoNat _ hle]
    · obtain ⟨hneg, hsize⟩ := varintSize_ofNat_add hle
      refine ⟨_, digits, rfl, ?_, ?_, fun hzero => ?_, (if_pos hneg).symm⟩
      · rw [hsize, UInt8.le_iff_toNat_le, htoNat _ hle]
        exact hle
      · rw [hsize, htoNat _ hle]
      · rw [hsize] at hzero
        have hlen := congrArg UInt8.toNat hzero
        rw [htoNat _ hle] at hlen
        exact absurd hlen (Nat.one_le_iff_ne_zero.mp hpos)
  · rintro ⟨b, digits, rfl, hle, hlen, hsign, rfl⟩
    have hle : digits.length ≤ 8 := hlen ▸ UInt8.le_iff_toNat_le.mp hle
    by_cases hneg : b >>> 4 = 0x0f
    · have hb := eq_of_negate b hneg
      rw [← hlen] at hb
      refine .inr ⟨digits, ?_, hle, .inr ⟨congrArg (· :: digits) hb, if_pos hneg⟩⟩
      -- A sign without digits is refused.
      refine Nat.one_le_iff_ne_zero.mpr fun hzero => hsign ?_ hneg
      apply UInt8.toNat_inj.mp
      rw [← hlen, hzero]
      rfl
    · have hb : b = UInt8.ofNat digits.length := by
        rw [hlen, varintSize_of_not_negate hneg, UInt8.ofNat_toNat]
      rw [if_neg hneg]
      rcases Nat.eq_zero_or_pos digits.length with hzero | hpos
      · obtain rfl := List.length_eq_zero_iff.mp hzero
        exact .inl ⟨congrArg (· :: []) hb, rfl⟩
      · exact .inr ⟨digits, hpos, hle, .inl ⟨congrArg (· :: digits) hb, rfl⟩⟩

theorem scans_readVarint : Scans readVarint (fun _ => VarintForm) := by
  refine (scans_bind (K := fun b _ => VarintRest b) scans_readByte fun b => ?_).congr
    fun n s i => ?_
  · -- The branches of the source, one rule for each.
    refine (scans_ite (c := 8 < varintSize b) (scans_failFirst _ _)
      (scans_ite (c := varintSize b = 0)
        (scans_ite (c := b >>> 4 = 0x0f) (scans_failFirst _ _) (scans_pure 0))
        (scans_map (scans_readFull (varintSize b).toNat) fun buf =>
          if b >>> 4 = 0x0f then -Int64.ofNat (ofBytesBE buf.1)
          else Int64.ofNat (ofBytesBE buf.1)))).congr fun n s i => ?_
    constructor
    · rintro (⟨-, hfalse⟩ | ⟨hle, ⟨hzero, hcase⟩ | ⟨hne, buf, rfl, rfl⟩⟩)
      · exact hfalse.elim
      · rcases hcase with ⟨-, hfalse⟩ | ⟨hneg, rfl, rfl⟩
        · exact hfalse.elim
        · refine ⟨UInt8.not_lt.mp hle, ?_, fun _ => hneg, (if_neg hneg).symm⟩
          rw [hzero]
          rfl
      · exact ⟨UInt8.not_lt.mp hle, buf.2, fun hzero => absurd hzero hne, rfl⟩
    · rintro ⟨hle, hlen, hsign, rfl⟩
      refine .inr ⟨UInt8.not_lt.mpr hle, ?_⟩
      by_cases hzero : varintSize b = 0
      · rw [hzero] at hlen
        obtain rfl := List.length_eq_zero_iff.mp hlen
        exact .inl ⟨hzero, .inr ⟨hsign hzero, rfl, if_neg (hsign hzero)⟩⟩
      · exact .inr ⟨hzero, ⟨s, hlen⟩, rfl, rfl⟩
  · rw [varintForm_iff]
    constructor
    · rintro ⟨s₁, digits, b, rfl, rfl, hrest⟩
      exact ⟨b, digits, rfl, hrest⟩
    · rintro ⟨b, digits, rfl, hrest⟩
      exact ⟨[b], digits, b, rfl, rfl, hrest⟩

/-- The number of digits of `WriteVarint` is enough for the number. -/
theorem lt_pow_uvarintSize (u : UInt64) : u.toNat < 256 ^ uvarintSize u ∧ uvarintSize u ≤ 8 := by
  have hlt : u.toNat < 2 ^ 64 := u.toNat_lt
  unfold uvarintSize
  by_cases h : u = 0
  · subst h
    decide
  · rw [if_neg h]
    repeat' split
    all_goals
      refine ⟨?_, by decide⟩
      omega

/-- Lengths below `2 ^ 16` have at most two digits. -/
theorem uvarintSize_le_two {u : UInt64} (h : u.toNat < 2 ^ 16) : uvarintSize u ≤ 2 := by
  unfold uvarintSize
  rw [if_pos h]
  repeat' split
  all_goals decide

theorem uvarintSize_eq_zero {u : UInt64} (h : uvarintSize u = 0) : u = 0 := by
  have hlt := (lt_pow_uvarintSize u).1
  rw [h] at hlt
  exact UInt64.toNat_inj.mp (Nat.lt_one_iff.mp hlt)

/-- A number that is not negative is written in its digits, without the zeros in front. -/
theorem writeVarint_of_nonneg {i : Int64} (h : ¬ i < 0) :
    writeVarint i = UInt8.ofNat (uvarintSize i.toUInt64) ::
      toBytesBE (uvarintSize i.toUInt64) i.toUInt64.toNat := by
  have hdigits : (toBytesBE 8 i.toUInt64.toNat).drop (8 - uvarintSize i.toUInt64) =
      toBytesBE (uvarintSize i.toUInt64) i.toUInt64.toNat := by
    conv_lhs => rw [← Nat.sub_add_cancel (lt_pow_uvarintSize i.toUInt64).2, toBytesBE_add,
      Nat.add_sub_cancel]
    rw [List.drop_left' (length_toBytesBE _ _)]
  rw [← hdigits]
  simp only [writeVarint, if_neg h]

/-- `WriteVarint` writes one of the forms that `ReadVarint` reads. -/
theorem varintForm_writeVarint {i : Int64} (h : ¬ i < 0) : VarintForm (writeVarint i) i := by
  obtain ⟨hlt, hle⟩ := lt_pow_uvarintSize i.toUInt64
  have hnum : Int64.ofNat i.toUInt64.toNat = i :=
    congrArg Int64.ofUInt64 (UInt64.ofNat_toNat (x := i.toUInt64))
  rw [writeVarint_of_nonneg h]
  rcases Nat.eq_zero_or_pos (uvarintSize i.toUInt64) with hzero | hpos
  · refine .inl ⟨?_, ?_⟩
    · rw [hzero]
      rfl
    · rw [← hnum, uvarintSize_eq_zero hzero]
      rfl
  · refine .inr ⟨toBytesBE (uvarintSize i.toUInt64) i.toUInt64.toNat, ?_, ?_, .inl ⟨?_, ?_⟩⟩
    · rwa [length_toBytesBE]
    · rwa [length_toBytesBE]
    · rw [length_toBytesBE]
    · rw [ofBytesBE_toBytesBE_of_lt hlt, hnum]

/-! ### Byte slices -/

/-- The strings that `ReadByteSlice` reads as `bz`: its length in some form, then its bytes. -/
def SliceForm (s bz : List UInt8) : Prop :=
  ∃ pre, s = pre ++ bz ∧ VarintForm pre (Int64.ofNat bz.length)

/-- A length that `ReadByteSlice` takes is not negative, so it is a number of bytes. -/
theorem eq_ofNat_iff {i : Int64} {k : Nat} (hk : (k : Int) ≤ maxSliceLength) :
    i = Int64.ofNat k ↔ 0 ≤ i.toInt ∧ i.toInt.toNat = k := by
  have hlt : k < 2 ^ 63 := by
    unfold maxSliceLength at hk
    omega
  have htoInt : (Int64.ofNat k).toInt = k := Int64.toInt_ofNat_of_lt hlt
  rw [← Int64.toInt_inj, htoInt]
  omega

theorem scans_readByteSlice {lmt : Nat} (hlmt : lmt ≠ 0) (hmax : (lmt : Int) ≤ maxSliceLength) :
    Scans (readByteSlice lmt) (fun n s bz => SliceForm s bz ∧ n + s.length ≤ lmt) := by
  refine (scans_bind (K := fun i n s bz => s = bz ∧ i = Int64.ofNat bz.length ∧
    n + bz.length ≤ lmt) scans_readVarint fun i => ?_).congr fun n s bz => ?_
  · refine (scans_unlessErr [] fun n => scans_ite (scans_fail _ _) (scans_ite (scans_fail _ _)
      (scans_ite (scans_fail _ _) (scans_map (scans_readFull i.toInt.toNat) fun buf =>
        buf.1)))).congr fun n s bz => ?_
    constructor
    · rintro (⟨-, hfalse⟩ | ⟨hneg, ⟨-, hfalse⟩ | ⟨hsize, ⟨-, hfalse⟩ | ⟨hfits, hread⟩⟩⟩)
      · exact hfalse.elim
      · exact hfalse.elim
      · exact hfalse.elim
      · obtain ⟨⟨buf, hbuf⟩, rfl, rfl⟩ := hread
        refine ⟨rfl, (eq_ofNat_iff ?_).mpr ⟨?_, ?_⟩, ?_⟩
        · omega
        · omega
        · omega
        · omega
    · rintro ⟨rfl, hi, hle⟩
      obtain ⟨hnonneg, hlen⟩ := (eq_ofNat_iff (by omega)).mp hi
      refine .inr ⟨by omega, .inr ⟨by omega, .inr ⟨by omega, ?_⟩⟩⟩
      exact ⟨⟨s, hlen.symm⟩, rfl, rfl⟩
  · constructor
    · rintro ⟨pre, s₂, i, rfl, hform, rfl, rfl, hle⟩
      refine ⟨⟨pre, rfl, hform⟩, ?_⟩
      rwa [List.length_append, ← Nat.add_assoc]
    · rintro ⟨⟨pre, rfl, hform⟩, hle⟩
      rw [List.length_append, ← Nat.add_assoc] at hle
      exact ⟨pre, bz, _, rfl, hform, rfl, rfl, hle⟩

theorem not_ofNat_neg {k : Nat} (h : (k : Int) ≤ maxSliceLength) : ¬ Int64.ofNat k < 0 := by
  rw [Int64.lt_iff_toInt_lt]
  exact Int.not_lt.mpr ((eq_ofNat_iff h).mp rfl).1

/-- `WriteByteSlice` writes one of the forms that `ReadByteSlice` reads. -/
theorem sliceForm_writeByteSlice {bz : List UInt8} (h : (bz.length : Int) ≤ maxSliceLength) :
    SliceForm (writeByteSlice bz) bz :=
  ⟨_, rfl, varintForm_writeVarint (not_ofNat_neg h)⟩

/-- A short byte slice has at most three bytes before it. -/
theorem length_writeByteSlice_le {bz : List UInt8} (h : bz.length < 2 ^ 16) :
    (writeByteSlice bz).length ≤ bz.length + 3 := by
  have hmax : (bz.length : Int) ≤ maxSliceLength := by
    unfold maxSliceLength
    omega
  have hdigits : uvarintSize (Int64.ofNat bz.length).toUInt64 ≤ 2 := by
    apply uvarintSize_le_two
    show bz.length % 2 ^ 64 < 2 ^ 16
    omega
  rw [writeByteSlice, writeVarint_of_nonneg (not_ofNat_neg hmax), List.length_append,
    List.length_cons, length_toBytesBE]
  omega

/-! ### Registered interfaces -/

/-- The type byte, then the fields of the type. `F b` has the fields of the type with the byte
`b`, and nothing for a byte without a type. -/
theorem scans_readInterface {α : Type} (name : String)
    {byteToType : UInt8 → Option (Reader α)} {F : UInt8 → Nat → List UInt8 → α → Prop}
    (hread : ∀ b r, byteToType b = some r → Scans r (F b))
    (hnone : ∀ b n s a, F b n s a → b ≠ 0 ∧ byteToType b ≠ none) :
    Scans (readInterface name byteToType) (fun n s v => (s = [0] ∧ v = none) ∨
      ∃ b fields a, s = b :: fields ∧ v = some a ∧ F b (n + 1) fields a) := by
  refine (scans_bind (K := fun b n s v => (b = 0 ∧ s = [] ∧ v = none) ∨
    ∃ a, v = some a ∧ F b n s a) scans_readByte fun b => ?_).congr fun n s v => ?_
  · by_cases hb : b = 0
    · subst hb
      refine (scans_unlessErr none fun _ => scans_pure none).congr fun n s v => ?_
      constructor
      · exact fun h => .inl ⟨rfl, h⟩
      · rintro (⟨-, h⟩ | ⟨a, -, hF⟩)
        · exact h
        · exact absurd rfl (hnone _ _ _ _ hF).1
    · simp only [if_neg hb]
      cases htype : byteToType b with
      | none =>
        refine (scans_unlessErr none fun _ => scans_fail _ _).congr fun n s v => ?_
        constructor
        · exact False.elim
        · rintro (⟨hzero, -⟩ | ⟨a, -, hF⟩)
          · exact hb hzero
          · exact (hnone _ _ _ _ hF).2 htype
      | some r =>
        refine (scans_unlessErr none fun _ => scans_map (hread b r htype) some).congr
          fun n s v => ?_
        constructor
        · rintro ⟨a, hF, rfl⟩
          exact .inr ⟨a, rfl, hF⟩
        · rintro (⟨hzero, -⟩ | ⟨a, rfl, hF⟩)
          · exact absurd hzero hb
          · exact ⟨a, hF, rfl⟩
  · constructor
    · rintro ⟨s₁, fields, b, rfl, rfl, ⟨rfl, rfl, rfl⟩ | ⟨a, rfl, hF⟩⟩
      · exact .inl ⟨rfl, rfl⟩
      · exact .inr ⟨b, fields, a, rfl, rfl, hF⟩
    · rintro (⟨rfl, rfl⟩ | ⟨b, fields, a, rfl, rfl, hF⟩)
      · exact ⟨[0], [], 0, rfl, rfl, .inl ⟨rfl, rfl, rfl⟩⟩
      · exact ⟨[b], fields, b, rfl, rfl, .inr ⟨a, rfl, hF⟩⟩

end BtmStats.Proofs.Wire
