import BtmStats.Spec.Encoding.Hex

/-!
# `BtmStats.Proofs.Encoding.Hex`: hexadecimal text

`Decode` reads back what `Encode` wrote, in front of any text. In the other direction a text
without an error is made of digits, in pairs, and `Encode` of what was read is the text in
lower case (`decode_ok`). So the case of the letters is all that is lost.
-/

set_option autoImplicit false

namespace BtmStats.Proofs.Hex

open Spec

/-! ### Writing and reading back -/

theorem fromHexChar_lowerDigit (b : UInt8) :
    Hex.fromHexChar (Hex.lowerDigit (b / 16)) = some (b / 16) ∧
      Hex.fromHexChar (Hex.lowerDigit (b % 16)) = some (b % 16) ∧ b / 16 * 16 + b % 16 = b := by
  have h : ∀ n : Fin 256, Hex.fromHexChar (Hex.lowerDigit (UInt8.ofFin n / 16)) =
      some (UInt8.ofFin n / 16) ∧ Hex.fromHexChar (Hex.lowerDigit (UInt8.ofFin n % 16)) =
      some (UInt8.ofFin n % 16) ∧ UInt8.ofFin n / 16 * 16 + UInt8.ofFin n % 16 = UInt8.ofFin n := by
    decide +kernel
  exact h b.toFin

theorem decode_encode_append (bytes text : List UInt8) :
    Hex.decode (Hex.encode bytes ++ text) =
      (bytes ++ (Hex.decode text).1, (Hex.decode text).2) := by
  induction bytes with
  | nil => rfl
  | cons b bytes ih =>
    obtain ⟨hhigh, hlow, hsum⟩ := fromHexChar_lowerDigit b
    show Hex.decode (Hex.lowerDigit (b / 16) :: Hex.lowerDigit (b % 16) ::
      (Hex.encode bytes ++ text)) = _
    simp only [Hex.decode, hhigh, hlow, ih, hsum]
    rfl

/-- A text that is not empty does not decode to nothing. -/
theorem decode_ne_nil {text : List UInt8} (htext : text ≠ []) {bytes : List UInt8}
    (h : Hex.decode text = (bytes, none)) : bytes ≠ [] := by
  cases text with
  | nil => exact absurd rfl htext
  | cons c text =>
    cases text with
    | nil =>
      rw [Hex.decode] at h
      split at h
      · cases h
      · cases h
    | cons d rest =>
      rw [Hex.decode] at h
      split at h
      · cases h
      · cases h
      · obtain ⟨rfl, -⟩ := Prod.mk.inj h
        exact List.cons_ne_nil _ _

/-! ### Reading and writing back -/

/-- The digits of either case. -/
def IsHexDigit (c : UInt8) : Prop :=
  (0x30 ≤ c ∧ c ≤ 0x39) ∨ (0x61 ≤ c ∧ c ≤ 0x66) ∨ (0x41 ≤ c ∧ c ≤ 0x46)

/-- The digits that `Encode` writes. -/
def IsLowerHexDigit (c : UInt8) : Prop := (0x30 ≤ c ∧ c ≤ 0x39) ∨ (0x61 ≤ c ∧ c ≤ 0x66)

/-- The lower case of an ASCII character. -/
def toLower (c : UInt8) : UInt8 := if 0x41 ≤ c ∧ c ≤ 0x5a then c + 0x20 else c

instance : DecidablePred IsHexDigit := fun c =>
  inferInstanceAs (Decidable ((0x30 ≤ c ∧ c ≤ 0x39) ∨ (0x61 ≤ c ∧ c ≤ 0x66) ∨
    (0x41 ≤ c ∧ c ≤ 0x46)))

instance : DecidablePred IsLowerHexDigit := fun c =>
  inferInstanceAs (Decidable ((0x30 ≤ c ∧ c ≤ 0x39) ∨ (0x61 ≤ c ∧ c ≤ 0x66)))

/-- One character: it has a value if it is a digit, the value is below 16, and its digit is
the character in lower case. The lower case of a digit is a digit that `Encode` writes, which
is its own lower case. -/
theorem hexChar_table (c : UInt8) :
    (((Hex.fromHexChar c).isSome ↔ IsHexDigit c) ∧
      ∀ a ∈ Hex.fromHexChar c, a < 16 ∧ Hex.lowerDigit a = toLower c) ∧
    (IsLowerHexDigit c → toLower c = c) ∧ (IsHexDigit c → IsLowerHexDigit (toLower c)) := by
  have h : ∀ n : Fin 256, (((Hex.fromHexChar (.ofFin n)).isSome ↔ IsHexDigit (.ofFin n)) ∧
      (Hex.fromHexChar (.ofFin n)).all fun a => a < 16 ∧ Hex.lowerDigit a = toLower (.ofFin n)) ∧
      (IsLowerHexDigit (.ofFin n) → toLower (.ofFin n) = .ofFin n) ∧
      (IsHexDigit (.ofFin n) → IsLowerHexDigit (toLower (.ofFin n))) := by
    decide +kernel
  obtain ⟨⟨hdigit, hall⟩, hlower⟩ := h c.toFin
  exact ⟨⟨hdigit, fun a ha => of_decide_eq_true ((Option.all_eq_true _ _).mp hall a ha)⟩, hlower⟩

theorem fromHexChar_spec (c : UInt8) :
    ((Hex.fromHexChar c).isSome ↔ IsHexDigit c) ∧
      ∀ a ∈ Hex.fromHexChar c, a < 16 ∧ Hex.lowerDigit a = toLower c :=
  (hexChar_table c).1

theorem toLower_of_isLowerHexDigit {c : UInt8} : IsLowerHexDigit c → toLower c = c :=
  (hexChar_table c).2.1

theorem isLowerHexDigit_toLower {c : UInt8} : IsHexDigit c → IsLowerHexDigit (toLower c) :=
  (hexChar_table c).2.2

/-- The two digits of a byte come apart again. -/
theorem digits_of_byte {a b : UInt8} (ha : a < 16) (hb : b < 16) :
    (a * 16 + b) / 16 = a ∧ (a * 16 + b) % 16 = b := by
  have ha' : a.toNat < 16 := UInt8.lt_iff_toNat_lt.mp ha
  have hb' : b.toNat < 16 := UInt8.lt_iff_toNat_lt.mp hb
  have hsum : (a * 16 + b).toNat = a.toNat * 16 + b.toNat := by
    rw [UInt8.toNat_add, UInt8.toNat_mul]
    show (a.toNat * 16 % 256 + b.toNat) % 256 = _
    omega
  constructor
  · apply UInt8.toNat_inj.mp
    rw [UInt8.toNat_div, hsum]
    show (a.toNat * 16 + b.toNat) / 16 = a.toNat
    omega
  · apply UInt8.toNat_inj.mp
    rw [UInt8.toNat_mod, hsum]
    show (a.toNat * 16 + b.toNat) % 16 = b.toNat
    omega

/-- A text that is read without an error. Induction along `Decode`, two characters at a
time. -/
theorem decode_ok : ∀ {text bytes : List UInt8}, Hex.decode text = (bytes, none) →
    (∀ c ∈ text, IsHexDigit c) ∧ text.length = 2 * bytes.length ∧
      Hex.encode bytes = text.map toLower := by
  intro text
  induction text using Hex.decode.induct with
  | case1 =>
    intro bytes h
    cases h
    exact ⟨fun c hc => absurd hc List.not_mem_nil, rfl, rfl⟩
  | case2 c hc =>
    intro bytes h
    rw [Hex.decode, hc] at h
    cases h
  | case3 c a hc =>
    intro bytes h
    rw [Hex.decode, hc] at h
    cases h
  | case4 c d rest hc =>
    intro bytes h
    rw [Hex.decode, hc] at h
    cases h
  | case5 c d rest a hd hc =>
    intro bytes h
    rw [Hex.decode, hc, hd] at h
    cases h
  | case6 c d rest a b hd hc tail err hrest ih =>
    intro bytes h
    rw [Hex.decode, hc, hd] at h
    simp only [hrest] at h
    obtain ⟨rfl, rfl⟩ := Prod.mk.inj h
    obtain ⟨hdigits, hlen, henc⟩ := ih hrest
    obtain ⟨hcdigit, hcval⟩ := fromHexChar_spec c
    obtain ⟨hddigit, hdval⟩ := fromHexChar_spec d
    obtain ⟨ha, halow⟩ := hcval a hc
    obtain ⟨hb, hblow⟩ := hdval b hd
    obtain ⟨hhigh, hlow⟩ := digits_of_byte ha hb
    refine ⟨?_, ?_, ?_⟩
    · rw [List.forall_mem_cons, List.forall_mem_cons]
      exact ⟨hcdigit.mp (Option.isSome_of_eq_some hc), hddigit.mp (Option.isSome_of_eq_some hd),
        hdigits⟩
    · simp only [List.length_cons, hlen]
      omega
    · show Hex.lowerDigit _ :: Hex.lowerDigit _ :: Hex.encode tail = _
      rw [hhigh, hlow, halow, hblow, henc]
      rfl

/-- Digits in pairs are read without an error. -/
theorem decode_of_isHexDigit : ∀ {text : List UInt8}, text.length % 2 = 0 →
    (∀ c ∈ text, IsHexDigit c) → (Hex.decode text).2 = none := by
  intro text
  induction text using Hex.decode.induct with
  | case1 => exact fun _ _ => rfl
  | case2 c hc => exact fun hlen _ => absurd hlen (by simp)
  | case3 c a hc => exact fun hlen _ => absurd hlen (by simp)
  | case4 c d rest hc =>
    intro _ hdigits
    have hsome := (fromHexChar_spec c).1.mpr (hdigits c List.mem_cons_self)
    rw [hc] at hsome
    cases hsome
  | case5 c d rest a hd hc =>
    intro _ hdigits
    have hsome := (fromHexChar_spec d).1.mpr
      (hdigits d (List.mem_cons_of_mem _ List.mem_cons_self))
    rw [hd] at hsome
    cases hsome
  | case6 c d rest a b hd hc tail err hrest ih =>
    intro hlen hdigits
    rw [Hex.decode, hc, hd]
    refine ih ?_ fun x hx => hdigits x (List.mem_cons_of_mem _ (List.mem_cons_of_mem _ hx))
    simp only [List.length_cons] at hlen
    omega

end BtmStats.Proofs.Hex
