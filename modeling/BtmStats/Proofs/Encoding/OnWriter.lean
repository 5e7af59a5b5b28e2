import BtmStats.Proofs.Encoding.Shortest
import BtmStats.Proofs.Types.Transaction
import BtmStats.Spec.Encoding.OnWriter

/-!
# `BtmStats.Proofs.Encoding.OnWriter`: the encodings on a writer

`PutUvarint` on a buffer that is long enough stores the base-128 digits at the front and
touches nothing behind them (`putUvarint_buffer`). A value of 63 bits has at most nine
digits, so the pooled array is long enough. From there on each writer of
`Spec.Encoding.OnWriter` is one `Write` of the bytes that `Spec.Encoding.Blockchain` gives
for it, or a sequence of such writes (`Lib.Emits`), and the readers read these bytes back.
-/

set_option autoImplicit false

namespace BtmStats.Proofs.Blockchain

open Lib Spec Spec.Blockchain

/-! ### The pooled array -/

/-- `byte(x) | 0x80` is the low digit with the continuation bit. -/
theorem toUInt8_or_0x80 (x : UInt64) :
    x.toUInt8 ||| 0x80 = UInt8.ofNat (x.toNat % 128 + 128) := by
  have h : ∀ n : Fin 256,
      UInt8.ofFin n ||| 0x80 = UInt8.ofNat ((UInt8.ofFin n).toNat % 128 + 128) := by
    decide +kernel
  have hlow : x.toUInt8.toNat % 128 = x.toNat % 128 := by
    rw [UInt64.toNat_toUInt8]
    omega
  rw [← hlow]
  exact h x.toUInt8.toFin

theorem toNat_shiftRight_seven (x : UInt64) : (x >>> 7).toNat = x.toNat / 128 := by
  rw [UInt64.toNat_shiftRight]
  exact Nat.shiftRight_eq_div_pow x.toNat 7

/-- The digits stand at the front of the buffer, and the rest of it is as before. Induction
on the buffer. -/
theorem putUvarint_buffer : ∀ {buf : List UInt8} {x : UInt64},
    (putUvarint x.toNat).length ≤ buf.length →
      OnWriter.putUvarint buf x = .ok (putUvarint x.toNat ++
        buf.drop (putUvarint x.toNat).length, (putUvarint x.toNat).length) := by
  intro buf
  induction buf with
  | nil =>
    intro x h
    exact absurd (List.length_eq_zero_iff.mp (Nat.le_zero.mp h)) (putUvarint_ne_nil _)
  | cons c buf ih =>
    intro x h
    rw [OnWriter.putUvarint]
    by_cases hx : x < 0x80
    · have hdigit : UInt8.ofNat x.toNat = x.toUInt8 := rfl
      rw [if_pos hx, putUvarint_of_lt (UInt64.lt_iff_toNat_lt.mp hx), hdigit]
      rfl
    · have hdiv := toNat_shiftRight_seven x
      rw [putUvarint_of_le (UInt64.lt_iff_toNat_lt.not.mp hx), ← hdiv] at h ⊢
      rw [if_neg hx, ih (Nat.le_of_succ_le_succ h), toUInt8_or_0x80]
      rfl

section
variable {σ : Type} (under : IoWriter σ)

/-- In range, the integer is written by one call. The array of nine bytes holds it. -/
theorem writeVarint_of_le {bound : Nat} (hbound : bound ≤ maxInt64) (pooled : FixedBytes 9)
    {val : UInt64} (h : val.toNat ≤ bound) :
    OnWriter.writeVarint under bound pooled val =
      fun w => .ok (under w (putUvarint val.toNat)) := by
  have hfits : (putUvarint val.toNat).length ≤ pooled.1.length := by
    rw [pooled.2]
    exact length_putUvarint_le_nine (h.trans hbound)
  funext w
  rw [OnWriter.writeVarint, if_neg (Nat.not_lt.mpr h), putUvarint_buffer hfits]
  simp only [bind, Except.bind, List.take_left]

theorem writeVarint_of_lt {bound : Nat} (pooled : FixedBytes 9) {val : UInt64}
    (h : bound < val.toNat) (w : σ) :
    OnWriter.writeVarint under bound pooled val w = .ok (w, 0, some RootErr.errRange.err) :=
  if_pos h

end

/-! ### Integers -/

/-- What a pair of writer and reader for integers up to `bound` does. `decoded` is the
value that the reader returns for a number. -/
structure VarintCodec {α : Type} (bound width : Nat)
    (write : ∀ {σ : Type}, IoWriter σ → FixedBytes 9 → UInt64 → WriteProc Panic Err σ)
    (read : ReaderM α) (decoded : UInt64 → α) : Prop where
  /-- An integer in range is written by one call, whatever the pooled array holds, and read
  back in front of anything. Every other string that reads as this integer is longer. -/
  in_range : ∀ v : UInt64, v.toNat ≤ bound → ∃ out : List UInt8, out.length ≤ width ∧
    (∀ {σ : Type} (under : IoWriter σ) (pooled : FixedBytes 9) (w : σ),
      write under pooled v w = .ok (under w out)) ∧
    (∀ r, read.run (out ++ r) = .ok (decoded v, r)) ∧
    ∀ s rest, read.run s = .ok (decoded v, rest) → s = out ∨ out.length < s.length
  /-- A larger integer is refused before anything is written. -/
  write_refuses : ∀ v : UInt64, bound < v.toNat →
    ∀ {σ : Type} (under : IoWriter σ) (pooled : FixedBytes 9) (w : σ),
      write under pooled v w = .ok (w, 0, some RootErr.errRange.err)
  /-- A larger integer is refused in every one of its encodings. -/
  read_refuses : ∀ s v r, IsUvarint s v → bound < v →
    read.run (s ++ r) = .error RootErr.errRange.err

/-- A reader that checks the bound after `ReadUvarint` makes a codec with `writeVarint`. -/
theorem varintCodec_of_reads {α : Type} {bound width : Nat} {G : List UInt8 → α → Prop}
    {finish : Nat → α} {decoded : UInt64 → α}
    (hreads : Reads (do
      let val ← readUvarint
      if val > bound then fail .errRange else pure (finish val)) G)
    (hG : ∀ s (v : UInt64), G s (decoded v) ↔ IsUvarint s v.toNat ∧ v.toNat ≤ bound)
    (hbound : bound ≤ maxInt64) (hwidth : ∀ v, v ≤ bound → (putUvarint v).length ≤ width) :
    VarintCodec bound width (fun under => OnWriter.writeVarint under bound) (do
      let val ← readUvarint
      if val > bound then fail .errRange else pure (finish val)) decoded where
  in_range v hv := by
    have hput := isUvarint_putUvarint v.toNat_lt
    refine ⟨putUvarint v.toNat, hwidth _ hv, ?_, ?_, ?_⟩
    · intro σ under pooled w
      rw [writeVarint_of_le under hbound pooled hv]
    · exact hreads.append ((hG _ v).mpr ⟨hput, hv⟩)
    · intro s rest hs
      obtain ⟨p, rfl, hp⟩ := hreads.split hs
      rw [List.length_append]
      rcases uvarint_shrinks.eq_or_lt ((hG p v).mp hp).1 with rfl | hlt
      · cases rest with
        | nil => exact .inl (List.append_nil _)
        | cons c rest => exact .inr (Nat.lt_add_of_pos_right (Nat.succ_pos _))
      · exact .inr (Nat.lt_add_right _ hlt)
  write_refuses v hv _ under pooled w := writeVarint_of_lt under pooled hv w
  read_refuses s v r hs hv := by
    rw [StateT.run_bind, readUvarint_reads.append hs r]
    show StateT.run (if v > bound then fail .errRange else pure (finish v)) r = _
    rw [if_pos hv]
    rfl

/-- The two integer codecs. An integer in range is written by one call, in at most 9 or 5 bytes,
and read back in front of anything; its other encodings are longer. An integer out of range is
refused by the writer and, in each of its encodings, by the reader. -/
theorem varint_codec :
    VarintCodec maxInt64 9 OnWriter.writeVarint63 readVarint63 id ∧
      VarintCodec maxInt32 5 OnWriter.writeVarint31 readVarint31 UInt64.toNat :=
  ⟨varintCodec_of_reads readVarint63_reads (fun _ _ => Iff.rfl) (Nat.le_refl _)
      fun _ => length_putUvarint_le_nine,
    varintCodec_of_reads readVarint31_reads (fun _ _ => Iff.rfl) (by decide)
      fun _ => length_putUvarint_le_five⟩

/-! ### Byte strings and lists -/

def varstrBytes (str : List UInt8) : List UInt8 := putUvarint str.length ++ str

theorem writeVarstr31_eq {str : List UInt8} (h : str.length ≤ maxInt32) :
    writeVarstr31 str = .ok (varstrBytes str) := by
  rw [writeVarstr31, writeVarint31_of_le h]
  rfl

/-- The strings of a list are written one after the other, behind their number. -/
theorem writeVarstrList_eq {l : List (List UInt8)} (hcount : l.length ≤ maxInt32)
    (hlens : ∀ str ∈ l, str.length ≤ maxInt32) :
    writeVarstrList l = .ok (putUvarint l.length ++ l.flatMap varstrBytes) := by
  have hloop : ∀ (l : List (List UInt8)) (p : List UInt8), (∀ str ∈ l, str.length ≤ maxInt32) →
      l.foldl (fun (w : Written) s => w.andThen (writeVarstr31 s)) (Written.ok p) =
        Written.ok (p ++ l.flatMap varstrBytes) := by
    intro l
    induction l with
    | nil =>
      intro p _
      exact congrArg Written.ok (List.append_nil p).symm
    | cons str l ih =>
      intro p hlens
      obtain ⟨hstr, hlens⟩ := List.forall_mem_cons.mp hlens
      rw [List.foldl_cons, writeVarstr31_eq hstr, List.flatMap_cons, ← List.append_assoc]
      exact ih (p ++ varstrBytes str) hlens
  rw [writeVarstrList, writeVarint31_of_le hcount]
  exact hloop l _ hlens

/-- A buffer takes everything and keeps it. -/
theorem bufferWrite_lawful : CountedWriter.Lawful bufferWrite id where
  count_le _ _ := Nat.le_refl _
  taken_eq buf _ := congrArg (buf ++ ·) List.take_length.symm
  count_of_ok _ _ _ := rfl

section
variable {σ : Type} {under : IoWriter σ} {taken : σ → List UInt8}

/-- The number of a length in range is written by one call. -/
theorem writeVarint31_emits (law : CountedWriter.Lawful under taken) (pooled : FixedBytes 9)
    {n : Nat} (h : n ≤ maxInt32) :
    Emits under taken (OnWriter.writeVarint31 under pooled (UInt64.ofNat n)) (putUvarint n) := by
  have hn : (UInt64.ofNat n).toNat = n := by
    rw [UInt64.toNat_ofNat', Nat.mod_eq_of_lt (Nat.lt_of_le_of_lt h (by decide))]
  rw [OnWriter.writeVarint31, writeVarint_of_le under (by decide) pooled (hn.le.trans h), hn]
  exact emits_write law _

theorem writeVarstr31_emits (law : CountedWriter.Lawful under taken) (pooled : FixedBytes 9)
    {str : List UInt8} (h : str.length ≤ maxInt32) :
    Emits under taken (OnWriter.writeVarstr31 under pooled str) (varstrBytes str) :=
  (writeVarint31_emits law pooled h).andThen (emits_write law str)

theorem writeVarstrList_emits (law : CountedWriter.Lawful under taken) (pool : Nat → FixedBytes 9)
    {l : List (List UInt8)} (hcount : l.length ≤ maxInt32)
    (hlens : ∀ str ∈ l, str.length ≤ maxInt32) :
    Emits under taken (OnWriter.writeVarstrList under pool l)
      (putUvarint l.length ++ l.flatMap varstrBytes) :=
  (writeVarint31_emits law _ hcount).andThen
    (emits_each fun str hstr _ => writeVarstr31_emits law _ (hlens str hstr))

theorem writeExtensibleString_emits (law : CountedWriter.Lawful under taken)
    (pooled : FixedBytes 9) {body suffix : List UInt8}
    (h : (body ++ suffix).length ≤ maxInt32) :
    Emits under taken (OnWriter.writeExtensibleString under pooled suffix (.ok body))
      (varstrBytes (body ++ suffix)) := by
  -- An empty suffix is not written, which makes no difference.
  have hbuf : (if suffix.length > 0 then body ++ suffix else body) = body ++ suffix := by
    cases suffix with
    | nil => exact (List.append_nil body).symm
    | cons c suffix => rfl
  have hproc : OnWriter.writeExtensibleString under pooled suffix (.ok body) =
      OnWriter.writeVarstr31 under pooled (body ++ suffix) := by
    funext w
    show OnWriter.writeVarstr31 under pooled _ w = _
    rw [hbuf]
  rw [hproc]
  exact writeVarstr31_emits law pooled h

/-! ### Amounts of an asset -/

theorem assetAmount_emits (law : CountedWriter.Lawful under taken) (pooled : FixedBytes 9)
    {a : Bc.AssetAmount} {assetID : Bc.AssetID} (hid : a.assetId = some assetID)
    (hamount : a.amount.toNat ≤ maxInt64) :
    Emits under taken (a.writeTo under pooled) (assetID.bytes ++ putUvarint a.amount.toNat) := by
  rw [Bc.AssetAmount.writeTo, hid, OnWriter.writeVarint63]
  simp only [writeVarint_of_le under (Nat.le_refl _) pooled hamount]
  exact (emits_write law _).andThen (emits_write law _)

/-- Both codecs, on any writer that keeps its contract: the writer takes the front of the
encoding and the count is the number of bytes taken, all of them if there is no error, and
the reader reads the encoding back in front of anything. -/
theorem listAndAmount_roundTrip (law : CountedWriter.Lawful under taken) :
    (∀ (pool : Nat → FixedBytes 9) (l : List (List UInt8)), l.length ≤ maxInt32 →
      (∀ str ∈ l, str.length ≤ maxInt32) →
      ∃ out, Emits under taken (OnWriter.writeVarstrList under pool l) out ∧
        ∀ r, readVarstrList (out ++ r) = (l, .ok r)) ∧
    ∀ (pooled : FixedBytes 9) (a : Bc.AssetAmount), a.assetId ≠ none → a.amount.toNat < 2 ^ 63 →
      ∃ out, Emits under taken (a.writeTo under pooled) out ∧
        ∀ r, Types.readAssetAmount.run (out ++ r) = .ok (a, r) := by
  constructor
  · intro pool l hcount hlens
    refine ⟨_, writeVarstrList_emits law pool hcount hlens, fun r => ?_⟩
    have hlist := writeVarstrList_spec (writeVarstrList_eq hcount hlens)
    exact (readVarstrListM_eq_ok_iff _ _ _).mp (readVarstrListM_reads.append hlist r)
  · intro pooled a hid hamount
    obtain ⟨assetID, hid⟩ := Option.ne_none_iff_exists'.mp hid
    have hle : a.amount.toNat ≤ maxInt64 := Nat.le_pred_of_lt hamount
    refine ⟨_, assetAmount_emits law pooled hid hle, Types.readAssetAmount_reads.append ?_⟩
    exact ⟨assetID, _, rfl, hid, isUvarint_putUvarint a.amount.toNat_lt, hle⟩

end

/-- A list of two strings and an amount, written to a buffer. -/
theorem listAndAmount_roundTrip_buffer :
    (∃ out, Emits bufferWrite id
        (OnWriter.writeVarstrList bufferWrite (fun _ => .replicate 9 0xff) [[1, 2], []]) out ∧
      ∀ r, readVarstrList (out ++ r) = ([[1, 2], []], .ok r)) ∧
    ∃ out, Emits bufferWrite id
        (Bc.AssetAmount.writeTo bufferWrite (.replicate 9 0xff) ⟨some ⟨⟨1, 2, 3, 4⟩⟩, 300⟩) out ∧
      ∀ r, Types.readAssetAmount.run (out ++ r) = .ok (⟨some ⟨⟨1, 2, 3, 4⟩⟩, 300⟩, r) :=
  ⟨(listAndAmount_roundTrip bufferWrite_lawful).1 _ _ (by decide) (by decide),
    (listAndAmount_roundTrip bufferWrite_lawful).2 _ _ (by decide) (by decide)⟩

end BtmStats.Proofs.Blockchain
