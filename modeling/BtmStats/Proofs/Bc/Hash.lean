import Mathlib.Data.Set.Function
import BtmStats.Proofs.Encoding.Hex
import BtmStats.Spec.Bc.Hash

/-!
# `BtmStats.Proofs.Bc.Hash`: a hash is its 32 bytes

`newHash` and `Hash.byte32` are inverse to each other, so hashes and 32-byte
arrays are in bijection. Everything the model writes for a hash is its byte form,
and `Hash.bytes_inj` reads the hash back from it.
-/

set_option autoImplicit false

namespace BtmStats.Proofs.Bc

open Lib Spec.Bc

@[simp] theorem length_putUint64BE (v : UInt64) : (putUint64BE v).length = 8 := by
  simp [putUint64BE]

@[simp] theorem length_bytes (h : Hash) : h.bytes.length = 32 := h.byte32.2

/-- Reading back a written word, whatever follows it. -/
theorem uint64BE_putUint64BE (v : UInt64) (rest : List UInt8) :
    uint64BE (putUint64BE v ++ rest) = v := by
  have hv : v.toNat < 256 ^ 8 := Nat.lt_of_lt_of_eq v.toNat_lt (by norm_num)
  have htake : (putUint64BE v ++ rest).take 8 = toBytesBE 8 v.toNat := by
    rw [List.take_left' (length_putUint64BE v)]
    rfl
  rw [uint64BE, htake, ofBytesBE_toBytesBE_of_lt hv, UInt64.ofNat_toNat]

/-- Writing back a read word gives the first eight bytes. -/
theorem putUint64BE_uint64BE (b : List UInt8) (h : 8 ≤ b.length) :
    putUint64BE (uint64BE b) = b.take 8 := by
  have hlen : (b.take 8).length = 8 := by simp; omega
  have hlt : ofBytesBE (b.take 8) < 2 ^ 64 := by
    have := ofBytesBE_lt (b.take 8)
    rw [hlen] at this
    exact Nat.lt_of_lt_of_eq this (by norm_num)
  rw [putUint64BE, uint64BE, UInt64.toNat_ofNat', Nat.mod_eq_of_lt hlt]
  have hback := toBytesBE_ofBytesBE (b.take 8)
  rw [hlen] at hback
  exact hback

/-- The byte form determines the hash. -/
theorem newHash_byte32 (h : Hash) : newHash h.byte32 = h := by
  cases h with
  | mk v0 v1 v2 v3 =>
    have hdrop : ∀ (v : UInt64) (rest : List UInt8),
        (putUint64BE v ++ rest).drop 8 = rest := fun v rest =>
      List.drop_left' (length_putUint64BE v)
    -- The offsets of the words are steps of eight bytes, so `hdrop` takes one word at a
    -- time.
    have h16 : ∀ b : List UInt8, b.drop 16 = (b.drop 8).drop 8 := by simp
    have h24 : ∀ b : List UInt8, b.drop 24 = ((b.drop 8).drop 8).drop 8 := by simp
    have hlast : uint64BE (putUint64BE v3) = v3 := by
      have := uint64BE_putUint64BE v3 []
      rwa [List.append_nil] at this
    simp only [newHash, Hash.byte32, h16, h24, List.append_assoc, hdrop,
      uint64BE_putUint64BE, hlast]

/-- Every 32-byte array is the byte form of its hash. -/
theorem byte32_newHash (b : FixedBytes 32) : (newHash b).byte32 = b := by
  obtain ⟨b, hb⟩ := b
  apply Subtype.ext
  show putUint64BE (uint64BE b) ++ putUint64BE (uint64BE (b.drop 8))
    ++ putUint64BE (uint64BE (b.drop 16)) ++ putUint64BE (uint64BE (b.drop 24)) = b
  have hsplit : ∀ k : Nat, (b.drop k).take 8 ++ b.drop (k + 8) = b.drop k := by
    intro k
    rw [← List.drop_drop, List.take_append_drop]
  -- The last word has nothing behind it, the others are put back one by one.
  have hend : (b.drop 24).take 8 = b.drop 24 := List.take_of_length_le (by simp; omega)
  rw [putUint64BE_uint64BE b (by omega), putUint64BE_uint64BE _ (by simp; omega),
    putUint64BE_uint64BE _ (by simp; omega), putUint64BE_uint64BE _ (by simp; omega), hend,
    List.append_assoc, hsplit 16, List.append_assoc, hsplit 8, List.take_append_drop]

/-- Hashes with the same byte form are equal. -/
theorem bytes_inj {g h : Hash} (heq : g.bytes = h.bytes) : g = h := by
  have hb : g.byte32 = h.byte32 := Subtype.ext heq
  rw [← newHash_byte32 g, ← newHash_byte32 h, hb]

/-- `NewHash` loses nothing. -/
theorem newHash_inj {b c : FixedBytes 32} (heq : newHash b = newHash c) : b = c := by
  rw [← byte32_newHash b, ← byte32_newHash c, heq]

/-! ### Texts

A hash is its 32 bytes, and 32 bytes are 64 digits (`Proofs.Encoding.Hex`). So the text of a
hash is read back, the texts that are accepted are the strings of 64 digits, and hashes are in
bijection with those in lower case. The type of asset IDs is that of hashes under another name,
and has the same codec.
-/

open Spec Proofs.Hex

theorem storeFront_of_length {n : Nat} {bytes : List UInt8} (h : bytes.length = n) :
    (storeFront n bytes).1 = bytes := List.take_left' h

theorem length_marshalText (h : Hash) : h.marshalText.length = 64 := by
  have hdec := decode_encode_append h.byte32.1 []
  rw [List.append_nil, Hex.decode] at hdec
  obtain ⟨-, hlen, -⟩ := decode_ok hdec
  rw [List.append_nil, h.byte32.2] at hlen
  exact hlen

theorem unmarshalText_marshalText (h old : Hash) :
    old.unmarshalText h.marshalText = (h, none) := by
  have hdec := decode_encode_append h.byte32.1 []
  rw [List.append_nil, Hex.decode, List.append_nil] at hdec
  have hstore : storeFront 32 h.byte32.1 = h.byte32 :=
    Subtype.ext (storeFront_of_length h.byte32.2)
  rw [Hash.unmarshalText, if_neg (not_not.mpr (length_marshalText h)), Hash.marshalText]
  simp only [hdec, hstore, newHash_byte32]

/-- A text is accepted for one hash only, and that hash has this text in lower case. -/
theorem marshalText_of_unmarshalText {old h : Hash} {v : List UInt8}
    (hv : old.unmarshalText v = (h, none)) :
    v.length = 64 ∧ (∀ c ∈ v, IsHexDigit c) ∧ h.marshalText = v.map toLower := by
  rw [Hash.unmarshalText] at hv
  by_cases hlen : v.length = 64
  · rw [if_neg (not_not.mpr hlen)] at hv
    obtain ⟨hhash, herr⟩ := Prod.mk.inj hv
    have hdec : Hex.decode v = ((Hex.decode v).1, none) := Prod.ext rfl herr
    obtain ⟨hdigits, htwice, henc⟩ := decode_ok hdec
    have h32 : (Hex.decode v).1.length = 32 := by omega
    refine ⟨hlen, hdigits, ?_⟩
    rw [Hash.marshalText, ← hhash, byte32_newHash, storeFront_of_length h32, henc]
  · rw [if_pos hlen] at hv
    cases hv

theorem unmarshalText_ok_iff (old : Hash) (v : List UInt8) :
    (old.unmarshalText v).2 = none ↔ v.length = 64 ∧ ∀ c ∈ v, IsHexDigit c := by
  constructor
  · intro h
    obtain ⟨hlen, hdigits, -⟩ :=
      marshalText_of_unmarshalText (show old.unmarshalText v = (_, none) from Prod.ext rfl h)
    exact ⟨hlen, hdigits⟩
  · rintro ⟨hlen, hdigits⟩
    rw [Hash.unmarshalText, if_neg (not_not.mpr hlen)]
    exact decode_of_isHexDigit (by rw [hlen]) hdigits

/-- What the texts of a type of hashes do. -/
structure HashTextCodec {α : Type} (marshalText : α → List UInt8)
    (unmarshalText : α → List UInt8 → α × Option Err) : Prop where
  round_trip : ∀ h old, unmarshalText old (marshalText h) = (h, none)
  accepts_iff : ∀ old v,
    (unmarshalText old v).2 = none ↔ v.length = 64 ∧ ∀ c ∈ v, IsHexDigit c
  canonical : ∀ old v h, unmarshalText old v = (h, none) → marshalText h = v.map toLower
  bijOn : Set.BijOn marshalText Set.univ {v | v.length = 64 ∧ ∀ c ∈ v, IsLowerHexDigit c}

/-- The bijection follows from the rest: a text in lower case is its own lower case. -/
theorem hashTextCodec_of {α : Type} [Inhabited α] {marshalText : α → List UInt8}
    {unmarshalText : α → List UInt8 → α × Option Err}
    (round_trip : ∀ h old, unmarshalText old (marshalText h) = (h, none))
    (accepts_iff : ∀ old v,
      (unmarshalText old v).2 = none ↔ v.length = 64 ∧ ∀ c ∈ v, IsHexDigit c)
    (canonical : ∀ old v h, unmarshalText old v = (h, none) → marshalText h = v.map toLower) :
    HashTextCodec marshalText unmarshalText where
  round_trip := round_trip
  accepts_iff := accepts_iff
  canonical := canonical
  bijOn := by
    refine ⟨?_, ?_, ?_⟩
    · intro h _
      have hread := round_trip h default
      obtain ⟨hlen, hdigits⟩ := (accepts_iff default _).mp (congrArg Prod.snd hread)
      refine ⟨hlen, ?_⟩
      rw [canonical _ _ _ hread, List.forall_mem_map]
      exact fun c hc => isLowerHexDigit_toLower (hdigits c hc)
    · intro g _ h _ heq
      have hg := round_trip g default
      rw [heq, round_trip h default] at hg
      exact (Prod.mk.inj hg).1.symm
    · rintro v ⟨hlen, hlower⟩
      have hdigits : ∀ c ∈ v, IsHexDigit c := by
        intro c hc
        exact (hlower c hc).imp_right .inl
      have hok := (accepts_iff default v).mpr ⟨hlen, hdigits⟩
      refine ⟨(unmarshalText default v).1, Set.mem_univ _, ?_⟩
      rw [canonical default v _ (Prod.ext rfl hok)]
      exact (List.map_congr_left fun c hc => toLower_of_isLowerHexDigit (hlower c hc)).trans
        (List.map_id v)

/-- The texts of hashes and of asset IDs. Writing and reading back gives the same value, whatever
it is read into, and a text is accepted exactly when it is 64 digits of either case. Reading and
writing again gives the text in lower case. -/
theorem hashText_codec :
    HashTextCodec Hash.marshalText Hash.unmarshalText ∧
      HashTextCodec AssetID.marshalText AssetID.unmarshalText := by
  constructor
  · exact hashTextCodec_of unmarshalText_marshalText unmarshalText_ok_iff
      fun _ _ _ h => (marshalText_of_unmarshalText h).2.2
  · refine hashTextCodec_of ?_ (fun old => unmarshalText_ok_iff old.hash) ?_
    · intro a old
      rw [AssetID.unmarshalText, AssetID.marshalText, unmarshalText_marshalText]
    · intro old v a h
      obtain ⟨rfl, herr⟩ := Prod.mk.inj h
      exact (marshalText_of_unmarshalText (Prod.ext rfl herr)).2.2

end BtmStats.Proofs.Bc
