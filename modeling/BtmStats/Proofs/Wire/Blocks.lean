import BtmStats.Proofs.Wire.Binary
import BtmStats.Spec.Wire.Blocks

/-!
# `BtmStats.Proofs.Wire.Blocks`: go-wire reads in the pieces that it writes

Each reader asks for exactly the blocks that the writer of the same type hands over
(`ReadsFrom`). A limit is kept as long as the bytes read so far and those of the value are within
it.
-/

set_option autoImplicit false

namespace BtmStats.Proofs.Wire.Blocks

open Lib Lib.BlockReader Spec Spec.Wire Spec.Wire.Blocks

variable {α β : Type}

/-- With `n` bytes read before, the blocks of the reader are the pieces, and it counts them. -/
def ReadsFrom (p : Prog α) (n : Nat) (pieces : Pieces) (a : α) : Prop :=
  Reads (p.run n) pieces (a, n + pieces.flatten.length)

theorem readsFrom_pure (a : α) (n : Nat) : ReadsFrom (pure a) n [] a := reads_pure _

theorem readsFrom_get (n : Nat) : ReadsFrom get n [] n := reads_pure _

variable {n lmt : Nat} {a : α} {read : Prog α} {pieces : Pieces}

theorem ReadsFrom.bind {p : Prog α} {q : α → Prog β} {s t : Pieces} {b : β} (hp : ReadsFrom p n s a)
    (hq : ReadsFrom (q a) (n + s.flatten.length) t b) : ReadsFrom (p >>= q) n (s ++ t) b := by
  have h := Reads.bind (q := fun x : α × Nat => (q x.1).run x.2) hp hq
  rw [Nat.add_assoc, ← List.length_append, ← List.flatten_append] at h
  exact h

theorem ReadsFrom.map {p : Prog α} (h : ReadsFrom p n pieces a) (f : α → β) :
    ReadsFrom (p >>= fun x => pure (f x)) n pieces (f a) :=
  Reads.map h fun x => (f x.1, x.2)

theorem readsFrom_readFull (piece : List UInt8) (n : Nat) :
    ReadsFrom (readFull piece.length) n [piece] piece := by
  have h := (reads_block (ε := Err) piece).map fun buf => (buf, n + piece.length)
  rw [ReadsFrom, List.flatten_cons, List.flatten_nil, List.append_nil]
  exact h

theorem readsFrom_readByte (b : UInt8) (n : Nat) : ReadsFrom readByte n [[b]] b :=
  (readsFrom_readFull [b] n).map fun buf => buf.headD 0

theorem readsFrom_readByteArray {k : Nat} (bytes : FixedBytes k) (n : Nat) :
    ReadsFrom (readByteArray k) n [bytes.1] bytes := by
  have hread := readsFrom_readFull bytes.1 n
  rw [bytes.2] at hread
  refine hread.bind (t := []) ?_
  rw [dif_pos bytes.2]
  exact readsFrom_pure bytes _

/-- The pieces of a number that is not negative: the number of its digits, and the digits. -/
theorem writeVarint_of_nonneg {i : Int64} (h : ¬ i < 0) :
    Blocks.writeVarint i = [UInt8.ofNat (uvarintSize i.toUInt64)] ::
      if 0 < uvarintSize i.toUInt64 then
        [toBytesBE (uvarintSize i.toUInt64) i.toUInt64.toNat] else [] := by
  have hdigits := Wire.writeVarint_of_nonneg h
  simp only [Wire.writeVarint, if_neg h, List.cons.injEq] at hdigits
  simp only [Blocks.writeVarint, if_neg h, hdigits.2]

theorem flatten_writeVarint {i : Int64} (h : ¬ i < 0) :
    (Blocks.writeVarint i).flatten = Wire.writeVarint i := by
  rw [writeVarint_of_nonneg h, Wire.writeVarint_of_nonneg h]
  split
  · simp
  · next hzero =>
    rw [Nat.eq_zero_of_not_pos hzero]
    rfl

theorem readsFrom_readVarint {i : Int64} (h : ¬ i < 0) (n : Nat) :
    ReadsFrom Blocks.readVarint n (Blocks.writeVarint i) i := by
  obtain ⟨hlt, hle⟩ := lt_pow_uvarintSize i.toUInt64
  have hnum : Int64.ofNat i.toUInt64.toNat = i :=
    congrArg Int64.ofUInt64 (UInt64.ofNat_toNat (x := i.toUInt64))
  obtain ⟨hneg, hsize⟩ := varintSize_ofNat hle
  have hnat : (UInt8.ofNat (uvarintSize i.toUInt64)).toNat = uvarintSize i.toUInt64 := by
    rw [UInt8.toNat_ofNat']
    omega
  have hnot : ¬ (8 : UInt8) < UInt8.ofNat (uvarintSize i.toUInt64) := by
    rw [UInt8.lt_iff_toNat_lt, hnat]
    exact Nat.not_lt.mpr hle
  rw [writeVarint_of_nonneg h, ← List.singleton_append]
  refine (readsFrom_readByte _ n).bind ?_
  simp only [if_neg hneg, if_neg hnot]
  by_cases hzero : UInt8.ofNat (uvarintSize i.toUInt64) = 0
  · -- The number 0 has no digits.
    have hsize0 : uvarintSize i.toUInt64 = 0 := by
      rw [← hnat, hzero]
      rfl
    have hi : i = 0 := by
      rw [← hnum, uvarintSize_eq_zero hsize0]
      rfl
    rw [if_pos hzero, if_neg (Nat.not_lt.mpr (Nat.le_of_eq hsize0)), hi]
    exact readsFrom_pure 0 _
  · have hpos : 0 < uvarintSize i.toUInt64 := by
      refine Nat.pos_of_ne_zero fun hz => hzero ?_
      rw [hz]
      rfl
    rw [if_neg hzero, if_pos hpos, hnat]
    have hread := readsFrom_readFull (toBytesBE (uvarintSize i.toUInt64) i.toUInt64.toNat)
      (n + [[UInt8.ofNat (uvarintSize i.toUInt64)]].flatten.length)
    rw [length_toBytesBE] at hread
    refine hread.bind (t := []) ?_
    rw [ofBytesBE_toBytesBE_of_lt hlt, hnum]
    exact readsFrom_pure i _

theorem flatten_writeByteSlice {bz : List UInt8} (h : (bz.length : Int) ≤ maxSliceLength) :
    (Blocks.writeByteSlice bz).flatten = Wire.writeByteSlice bz := by
  rw [Blocks.writeByteSlice, List.flatten_append, flatten_writeVarint (not_ofNat_neg h)]
  simp [Wire.writeByteSlice]

theorem readsFrom_readByteSlice {bz : List UInt8} (hlmt : (lmt : Int) ≤ maxSliceLength)
    (h : n + (Blocks.writeByteSlice bz).flatten.length ≤ lmt) :
    ReadsFrom (Blocks.readByteSlice lmt) n (Blocks.writeByteSlice bz) bz := by
  have hle : n + ((Blocks.writeVarint (Int64.ofNat bz.length)).flatten.length + bz.length) ≤
      lmt := by
    rw [Blocks.writeByteSlice, List.flatten_append, List.length_append] at h
    simpa using h
  have hmax : (bz.length : Int) ≤ maxSliceLength := by omega
  obtain ⟨hnonneg, hlen⟩ := (eq_ofNat_iff hmax).mp (rfl : Int64.ofNat bz.length = _)
  refine (readsFrom_readVarint (not_ofNat_neg hmax) n).bind ((readsFrom_get _).bind (s := []) ?_)
  rw [List.flatten_nil, List.length_nil, Nat.add_zero, if_neg (by omega), if_neg (by omega),
    if_neg (by omega), hlen]
  exact readsFrom_readFull bz _

/-- The loop over the elements, with the pieces of each. -/
theorem readsFrom_readElems {write : α → Pieces}
    (hread : ∀ a n, n + (write a).flatten.length ≤ lmt → ReadsFrom read n (write a) a) :
    ∀ (elems : List α) (n : Nat), n + (elems.flatMap write).flatten.length ≤ lmt →
      ReadsFrom (readElems lmt read elems.length) n (elems.flatMap write) elems := by
  intro elems
  induction elems with
  | nil => exact fun n _ => readsFrom_pure [] n
  | cons a elems ih =>
    intro n hle
    rw [List.flatMap_cons, List.flatten_append, List.length_append, ← Nat.add_assoc] at hle
    rw [List.flatMap_cons]
    refine (hread a n (by omega)).bind ((readsFrom_get _).bind (s := []) ?_)
    rw [List.flatten_nil, List.length_nil, Nat.add_zero, if_neg (by omega)]
    exact (ih _ hle).map (a :: ·)

theorem readsFrom_readSlice {write : α → Pieces}
    (hread : ∀ a n, n + (write a).flatten.length ≤ lmt → ReadsFrom read n (write a) a)
    {elems : List α} (hmax : (elems.length : Int) ≤ maxSliceLength)
    (hle : n + (writeSlice write elems).flatten.length ≤ lmt) :
    ReadsFrom (readSlice lmt read) n (writeSlice write elems) elems := by
  obtain ⟨-, hlen⟩ := (eq_ofNat_iff hmax).mp (rfl : Int64.ofNat elems.length = _)
  rw [writeSlice, List.flatten_append, List.length_append, ← Nat.add_assoc] at hle
  refine (readsFrom_readVarint (not_ofNat_neg hmax) n).bind ?_
  rw [hlen]
  exact readsFrom_readElems hread elems _ hle

theorem readsFrom_readPtr {zero : α} (h : ReadsFrom read (n + 1) pieces a) :
    ReadsFrom (readPtr zero read) n ([0x01] :: pieces) a :=
  (readsFrom_readByte 0x01 n).bind h

theorem readsFrom_readBinary (h : ReadsFrom read n pieces a) (hle : n + pieces.flatten.length ≤ lmt)
    : ReadsFrom (Blocks.readBinary lmt read) n pieces a := by
  have hcheck := h.bind (q := fun value => do
    let n ← get
    if lmt ≠ 0 ∧ lmt < n then failWith RootErr.binaryReadOverflow.err else return value)
    (t := []) (b := a) ?_
  · rwa [List.append_nil] at hcheck
  · refine (readsFrom_get _).bind (s := []) (t := []) ?_
    rw [List.flatten_nil, List.length_nil, Nat.add_zero, if_neg (by omega)]
    exact readsFrom_pure a _

end BtmStats.Proofs.Wire.Blocks
