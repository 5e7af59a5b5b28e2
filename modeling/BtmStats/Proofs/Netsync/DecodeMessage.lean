import BtmStats.Proofs.Wire.Binary
import BtmStats.Spec.Netsync.DecodeMessage

/-!
# `BtmStats.Proofs.Netsync.DecodeMessage`: which byte strings are taken for a message

`DecodeMessage` should take exactly the encodings of messages. `wire.ReadBinary` reads a message
from the front (`scans_read`), so its error says nothing about the bytes behind it. The check for
bytes left over is made only when there is an error already, so what follows a message is ignored.
The reader itself also takes the nil byte, and a byte slice with its length in a form that
`WriteVarint` does not write.

`decodesExactly_iff` says that these are all cases in which `DecodeMessage` is wrong, together with
the empty string, on which it panics.
-/

set_option autoImplicit false

namespace BtmStats.Proofs.Netsync

open Lib Spec Spec.Netsync Spec.Netsync.BlockchainMessage Spec.Wire Proofs.Wire

/-! ### The forms of a message -/

/-- The strings that are read as the fields of a message. -/
def FieldsForm : BlockchainMessage → List UInt8 → Prop
  | .blockRequest m, s => s = (BlockchainMessage.blockRequest m).writeFields
  | .blockResponse m, s => SliceForm s m.rawBlock
  | .statusRequest, s => s = BlockchainMessage.statusRequest.writeFields
  | .statusResponse m, s => s = (BlockchainMessage.statusResponse m).writeFields
  | .transactionNotify m, s => SliceForm s m.rawTx
  | .mineBlock m, s => SliceForm s m.rawBlock

/-- The strings that are read as a message. -/
def MessageForm (m : BlockchainMessage) (s : List UInt8) : Prop :=
  ∃ fields, s = m.typeByte :: fields ∧ FieldsForm m fields

/-- The limit that `ReadByteSlice` checks on its own. Other fields have no such check. -/
def SliceLimit (lmt n : Nat) (s : List UInt8) : BlockchainMessage → Prop
  | .blockResponse _ | .transactionNotify _ | .mineBlock _ => n + s.length ≤ lmt
  | .blockRequest _ | .statusRequest | .statusResponse _ => True

variable {lmt : Nat} {m : BlockchainMessage}

theorem sliceLimit_of_le {n : Nat} {s : List UInt8} (m : BlockchainMessage)
    (h : n + s.length ≤ lmt) :
    SliceLimit lmt n s m := by
  cases m <;> first | exact h | trivial

/-- The encoding of a message in the limit is one of its forms. -/
theorem messageForm_binaryBytes (h : (m.binaryBytes.length : Int) ≤ maxSliceLength) :
    MessageForm m m.binaryBytes := by
  have hslice : ∀ bz : List UInt8, m.writeFields = writeByteSlice bz →
      SliceForm (writeByteSlice bz) bz := by
    intro bz hbz
    apply sliceForm_writeByteSlice
    rw [binaryBytes, hbz, writeByteSlice, List.length_cons, List.length_append] at h
    omega
  refine ⟨m.writeFields, rfl, ?_⟩
  cases m with
  | blockRequest m => rfl
  | blockResponse m => exact hslice _ rfl
  | statusRequest => rfl
  | statusResponse m => rfl
  | transactionNotify m => exact hslice _ rfl
  | mineBlock m => exact hslice _ rfl

/-! ### Reading a message -/

/-- What is read for the fields of the type with the byte `b`. -/
def TypeForm (lmt : Nat) (b : UInt8) (n : Nat) (s : List UInt8) (m : BlockchainMessage) : Prop :=
  m.typeByte = b ∧ FieldsForm m s ∧ SliceLimit lmt n s m

/-- The message types whose one field is a byte slice. `c` makes the message. -/
theorem scans_sliceMessage (hlmt : lmt ≠ 0) (hmax : (lmt : Int) ≤ maxSliceLength) {b : UInt8}
    {c : List UInt8 → BlockchainMessage} (hb : ∀ bz, (c bz).typeByte = b)
    (hc : ∀ m, m.typeByte = b → ∃ bz, m = c bz)
    (hform : ∀ bz n s, FieldsForm (c bz) s ∧ SliceLimit lmt n s (c bz) ↔ SliceForm s bz ∧ n +
      s.length ≤ lmt) : Scans (readByteSlice lmt >>= fun bz => pure (c bz)) (TypeForm lmt b) := by
  refine (scans_map (scans_readByteSlice hlmt hmax) c).congr fun n s m => ?_
  constructor
  · rintro ⟨bz, hread, rfl⟩
    exact ⟨hb bz, (hform bz n s).mpr hread⟩
  · rintro ⟨htype, hfields⟩
    obtain ⟨bz, rfl⟩ := hc m htype
    exact ⟨bz, (hform bz n s).mp hfields, rfl⟩

theorem scans_blockRequest (lmt : Nat) :
    Scans (readUint64 >>= fun height => readByteArray 32 >>= fun rawHash =>
      pure (.blockRequest ⟨height, rawHash⟩)) (TypeForm lmt blockRequestByte) := by
  refine (scans_bind scans_readUint64 fun height => scans_map (scans_readByteArray 32)
    fun rawHash => BlockchainMessage.blockRequest ⟨height, rawHash⟩).congr fun n s m => ?_
  constructor
  · rintro ⟨_, _, height, rfl, rfl, rawHash, rfl, rfl⟩
    exact ⟨rfl, rfl, trivial⟩
  · rintro ⟨htype, hfields, -⟩
    cases m with
    | blockRequest m => exact ⟨_, _, m.height, hfields, rfl, m.rawHash, rfl, rfl⟩
    | _ =>
      simp only [typeByte] at htype
      exact absurd htype (by decide)

theorem scans_statusRequest (lmt : Nat) :
    Scans (pure .statusRequest : Reader BlockchainMessage) (TypeForm lmt statusRequestByte) := by
  refine (scans_pure BlockchainMessage.statusRequest).congr fun n s m => ?_
  constructor
  · rintro ⟨rfl, rfl⟩
    exact ⟨rfl, rfl, trivial⟩
  · rintro ⟨htype, hfields, -⟩
    cases m with
    | statusRequest => exact ⟨hfields, rfl⟩
    | _ =>
      simp only [typeByte] at htype
      exact absurd htype (by decide)

theorem scans_statusResponse (lmt : Nat) :
    Scans (readUint64 >>= fun height => readByteArray 32 >>= fun rawHash =>
      readByteArray 32 >>= fun genesisHash =>
        pure (.statusResponse ⟨height, rawHash, genesisHash⟩))
      (TypeForm lmt statusResponseByte) := by
  refine (scans_bind scans_readUint64 fun height => scans_bind (scans_readByteArray 32)
    fun rawHash => scans_map (scans_readByteArray 32) fun genesisHash =>
      BlockchainMessage.statusResponse ⟨height, rawHash, genesisHash⟩).congr fun n s m => ?_
  constructor
  · rintro ⟨_, _, height, rfl, rfl, _, _, rawHash, rfl, rfl, genesisHash, rfl, rfl⟩
    exact ⟨rfl, (List.append_assoc _ _ _).symm, trivial⟩
  · rintro ⟨htype, hfields, -⟩
    cases m with
    | statusResponse m =>
      exact ⟨_, _, m.height, hfields.trans (List.append_assoc _ _ _), rfl, _, _, m.rawHash, rfl,
        rfl, m.genesisHash, rfl, rfl⟩
    | _ =>
      simp only [typeByte] at htype
      exact absurd htype (by decide)

/-- The readers of the registered types. -/
theorem scans_byteToType (hlmt : lmt ≠ 0) (hmax : (lmt : Int) ≤ maxSliceLength) (b : UInt8)
    (r : Reader BlockchainMessage) (h : byteToType lmt b = some r) : Scans r (TypeForm lmt b) := by
  unfold byteToType at h
  split_ifs at h with hb hb hb hb hb hb <;> subst hb <;> obtain rfl := Option.some.inj h
  · exact scans_blockRequest lmt
  · refine scans_sliceMessage hlmt hmax (fun _ => rfl) (fun m htype => ?_) fun _ _ _ => Iff.rfl
    cases m with
    | blockResponse m => exact ⟨m.rawBlock, rfl⟩
    | _ =>
      simp only [typeByte] at htype
      exact absurd htype (by decide)
  · exact scans_statusRequest lmt
  · exact scans_statusResponse lmt
  · refine scans_sliceMessage hlmt hmax (fun _ => rfl) (fun m htype => ?_) fun _ _ _ => Iff.rfl
    cases m with
    | transactionNotify m => exact ⟨m.rawTx, rfl⟩
    | _ =>
      simp only [typeByte] at htype
      exact absurd htype (by decide)
  · refine scans_sliceMessage hlmt hmax (fun _ => rfl) (fun m htype => ?_) fun _ _ _ => Iff.rfl
    cases m with
    | mineBlock m => exact ⟨m.rawBlock, rfl⟩
    | _ =>
      simp only [typeByte] at htype
      exact absurd htype (by decide)

theorem typeByte_registered (lmt : Nat) (m : BlockchainMessage) :
    m.typeByte ≠ 0 ∧ byteToType lmt m.typeByte ≠ none := by
  refine ⟨fun htype => ?_, ?_⟩
  · cases m <;> exact absurd htype (by simp only [typeByte]; decide)
  · cases m <;> exact Option.some_ne_none _

/-- What `wire.ReadBinary` reads: the nil byte, or a form of a message. -/
def Readable (s : List UInt8) (v : Option BlockchainMessage) : Prop :=
  (s = [0] ∧ v = none) ∨ ∃ m, v = some m ∧ MessageForm m s

theorem scans_read (hlmt : lmt ≠ 0) (hmax : (lmt : Int) ≤ maxSliceLength) :
    Scans (BlockchainMessage.read lmt) (fun n s v => Readable s v ∧ n + s.length ≤ lmt) := by
  refine (scans_limited (scans_readInterface "netsync.BlockchainMessage"
    (F := TypeForm lmt) (scans_byteToType hlmt hmax) ?_) hlmt _).congr fun n s v => ?_
  · rintro _ n s m ⟨rfl, -⟩
    exact typeByte_registered lmt m
  · refine and_congr_left fun hle => or_congr_right ?_
    constructor
    · rintro ⟨_, fields, m, rfl, rfl, rfl, hfields, -⟩
      exact ⟨m, rfl, fields, rfl, hfields⟩
    · rintro ⟨m, rfl, fields, rfl, hfields⟩
      refine ⟨_, fields, m, rfl, rfl, rfl, hfields, sliceLimit_of_le m ?_⟩
      rw [List.length_cons] at hle
      omega

/-! ### `DecodeMessage` -/

/-- The encoding of a message in the limit, from the first to the last byte. -/
def IsEncoding (bz : List UInt8) : Prop :=
  ∃ m : BlockchainMessage, bz = m.binaryBytes ∧ bz.length ≤ maxBlockchainResponseSize

/-- `DecodeMessage` returns, and without an error exactly for the encodings of messages. -/
def DecodesExactly (bz : List UInt8) : Prop :=
  ∃ d, decodeMessage bz = .ok d ∧ (d.err = none ↔ IsEncoding bz)

/-- An encoding with bytes left over. -/
def HasBytesLeftOver (bz : List UInt8) : Prop :=
  ∃ (m : BlockchainMessage) (rest : List UInt8), bz = m.binaryBytes ++ rest ∧ rest ≠ [] ∧
    m.binaryBytes.length ≤ maxBlockchainResponseSize

/-- A message in the limit whose length field is not in the form of `WriteVarint`, at the front. -/
def HasOtherForm (bz : List UInt8) : Prop :=
  ∃ (m : BlockchainMessage) (s rest : List UInt8), bz = s ++ rest ∧ MessageForm m s ∧
    s ≠ m.binaryBytes ∧ s.length ≤ maxBlockchainResponseSize

/-- What is read stands at the front, and the rest is ignored. -/
def Accepted (bz : List UInt8) : Prop :=
  ∃ s rest v, bz = s ++ rest ∧ Readable s v ∧ s.length ≤ maxBlockchainResponseSize

theorem maxBlockchainResponseSize_le : (maxBlockchainResponseSize : Int) ≤ maxSliceLength := by
  decide

/-- The error of `DecodeMessage`. The check for bytes left over replaces one error by another. -/
theorem decodeMessage_err_iff {bz : List UInt8} (h : bz ≠ []) :
    ∃ d, decodeMessage bz = .ok d ∧ (d.err = none ↔ Accepted bz) := by
  obtain ⟨b, tail, rfl⟩ := List.exists_cons_of_ne_nil h
  have hends := (scans_read (by decide) maxBlockchainResponseSize_le).ends_iff (b :: tail) 0
  obtain ⟨⟨v, c⟩, hrun⟩ : ∃ x : Option BlockchainMessage × Cursor UInt8 Err,
      (BlockchainMessage.read maxBlockchainResponseSize).run ⟨b :: tail, 0, none⟩ = x := ⟨_, rfl⟩
  simp only [hrun, Nat.zero_add] at hends
  have hd : decodeMessage (b :: tail) = .ok ⟨b, v,
      if c.err ≠ none ∧ c.n ≠ (b :: tail).length then
        some (RootErr.errorf "DecodeMessage() had bytes left over").err
      else c.err⟩ := by
    unfold decodeMessage
    rw [hrun]
    rfl
  refine ⟨_, hd, ?_⟩
  rw [Accepted, ← hends]
  dsimp only
  split_ifs with hcheck
  · exact ⟨False.elim, fun herr => absurd herr hcheck.1⟩
  · exact Iff.rfl

/-- An encoding in the limit is read whole. -/
theorem messageForm_of_le (h : m.binaryBytes.length ≤ maxBlockchainResponseSize) :
    MessageForm m m.binaryBytes := by
  have hmax := maxBlockchainResponseSize_le
  exact messageForm_binaryBytes (by omega)

theorem readable_binaryBytes (h : m.binaryBytes.length ≤ maxBlockchainResponseSize) :
    Readable m.binaryBytes (some m) :=
  .inr ⟨m, rfl, messageForm_of_le h⟩

/-- The four kinds of strings that are taken. -/
theorem accepted_iff (bz : List UInt8) :
    Accepted bz ↔ IsEncoding bz ∨ bz.head? = some 0 ∨ HasBytesLeftOver bz ∨ HasOtherForm bz := by
  constructor
  · rintro ⟨s, rest, v, rfl, ⟨rfl, rfl⟩ | ⟨m, rfl, hform⟩, hlen⟩
    · exact .inr (.inl rfl)
    · by_cases hs : s = m.binaryBytes
      · subst hs
        by_cases hrest : rest = []
        · subst hrest
          rw [List.append_nil]
          exact .inl ⟨m, rfl, hlen⟩
        · exact .inr (.inr (.inl ⟨m, rest, rfl, hrest, hlen⟩))
      · exact .inr (.inr (.inr ⟨m, s, rest, rfl, hform, hs, hlen⟩))
  · rintro (⟨m, rfl, hlen⟩ | hzero | ⟨m, rest, rfl, -, hlen⟩ | ⟨m, s, rest, rfl, hform, -, hlen⟩)
    · exact ⟨_, [], _, (List.append_nil _).symm, readable_binaryBytes hlen, hlen⟩
    · obtain ⟨tail, rfl⟩ := List.head?_eq_some_iff.mp hzero
      exact ⟨[0], tail, none, rfl, .inl ⟨rfl, rfl⟩, by decide⟩
    · exact ⟨_, rest, _, rfl, readable_binaryBytes hlen, hlen⟩
    · exact ⟨s, rest, _, rfl, .inr ⟨m, rfl, hform⟩, hlen⟩

/-- Only the encoding itself is read at the front of an encoding. -/
theorem eq_of_append_eq_binaryBytes {m' : BlockchainMessage} {s rest : List UInt8}
    (hform : MessageForm m s) (hlen : s.length ≤ maxBlockchainResponseSize)
    (hlen' : m'.binaryBytes.length ≤ maxBlockchainResponseSize) (heq : s ++ rest = m'.binaryBytes) :
    s = m.binaryBytes ∧ rest = [] := by
  obtain ⟨rfl, rfl, hsame⟩ := (scans_read (by decide) maxBlockchainResponseSize_le).unique (n := 0)
    ⟨.inr ⟨m, rfl, hform⟩, by rwa [Nat.zero_add]⟩
    ⟨readable_binaryBytes hlen', by rwa [Nat.zero_add]⟩ (heq.trans (List.append_nil _).symm)
  exact ⟨(congrArg binaryBytes (Option.some.inj hsame)).symm, rfl⟩

/-- An encoding is none of the other kinds. -/
theorem IsEncoding.exclusive {bz : List UInt8} (h : IsEncoding bz) :
    bz.head? ≠ some 0 ∧ ¬ HasBytesLeftOver bz ∧ ¬ HasOtherForm bz := by
  obtain ⟨m', rfl, hlen'⟩ := h
  refine ⟨fun hzero => (typeByte_registered 0 m').1 (Option.some.inj hzero), ?_, ?_⟩
  · rintro ⟨m, rest, heq, hrest, hlen⟩
    exact hrest (eq_of_append_eq_binaryBytes (messageForm_of_le hlen) hlen hlen' heq.symm).2
  · rintro ⟨m, s, rest, heq, hform, hother, hlen⟩
    exact hother (eq_of_append_eq_binaryBytes hform hlen hlen' heq.symm).1

/-- `DecodeMessage` is right about a byte string if and only if the string is not empty, does not
begin with the nil byte, is not an encoding with bytes left over, and does not begin with a message
whose length field is in another form. -/
theorem decodesExactly_iff (bz : List UInt8) :
    DecodesExactly bz ↔
      bz ≠ [] ∧ bz.head? ≠ some 0 ∧ ¬ HasBytesLeftOver bz ∧ ¬ HasOtherForm bz := by
  by_cases hnil : bz = []
  · subst hnil
    refine ⟨?_, fun h => absurd rfl h.1⟩
    rintro ⟨d, hd, -⟩
    cases hd
  obtain ⟨d, hd, herr⟩ := decodeMessage_err_iff hnil
  rw [accepted_iff] at herr
  constructor
  · rintro ⟨d', hd', hexact⟩
    obtain rfl := Except.ok.inj (hd.symm.trans hd')
    -- What is taken is an encoding, and an encoding is none of the other kinds.
    have hkinds := fun h => (hexact.mp (herr.mpr h)).exclusive
    refine ⟨hnil, fun h => ?_, fun h => ?_, fun h => ?_⟩
    · exact (hkinds (.inr (.inl h))).1 h
    · exact (hkinds (.inr (.inr (.inl h)))).2.1 h
    · exact (hkinds (.inr (.inr (.inr h)))).2.2 h
  · rintro ⟨-, hzero, hleft, hother⟩
    refine ⟨d, hd, herr.trans ⟨?_, .inl⟩⟩
    rintro (h | h | h | h)
    · exact h
    · exact absurd h hzero
    · exact absurd h hleft
    · exact absurd h hother

/-- A `StatusRequestMessage` and one more byte: the byte is ignored. -/
theorem statusRequest_with_extra_byte : ¬ DecodesExactly [0x20, 0x07] := by
  have hrun : decodeMessage [0x20, 0x07] = .ok ⟨0x20, some .statusRequest, none⟩ := rfl
  rintro ⟨d, hd, herr⟩
  obtain rfl := Except.ok.inj (hrun.symm.trans hd)
  obtain ⟨m, hm, -⟩ := herr.mp rfl
  obtain ⟨htype, hfields⟩ := List.cons.inj hm
  cases m with
  | statusRequest => cases hfields
  | _ =>
    simp only [typeByte] at htype
    exact absurd htype (by decide)

-- A transaction of one byte, with its length in two digits.
example : (decodeMessage [0x30, 0x02, 0x00, 0x01, 0xab]).map Decoded.err = .ok none := rfl

end BtmStats.Proofs.Netsync
