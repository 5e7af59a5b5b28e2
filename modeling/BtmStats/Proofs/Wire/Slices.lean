import BtmStats.Proofs.Wire.Binary

/-!
# `BtmStats.Proofs.Wire.Slices`: the forms of pointers and slices

What the readers of pointers and of slices take without an error, as a grammar over the one of the
element. A grammar grows with the limit, so what is read under a limit is read alike under a larger
one.
-/

set_option autoImplicit false

namespace BtmStats.Proofs.Wire

open Lib Spec Spec.Wire

theorem scans_readUint16 : Scans readUint16 (fun _ s i => s = writeUint16 i) := by
  refine (scans_map (scans_readFull 2) fun buf => UInt16.ofNat (ofBytesBE buf.1)).congr
    fun n s i => ?_
  constructor
  · rintro ⟨buf, rfl, rfl⟩
    have hlt : ofBytesBE buf.1 < 2 ^ 16 := by
      have := ofBytesBE_lt buf.1
      rwa [buf.2] at this
    have hbytes := toBytesBE_ofBytesBE buf.1
    rw [buf.2] at hbytes
    rw [writeUint16, UInt16.toNat_ofNat_of_lt' hlt, hbytes]
  · rintro rfl
    refine ⟨⟨writeUint16 i, length_toBytesBE ..⟩, rfl, ?_⟩
    show i = UInt16.ofNat (ofBytesBE (toBytesBE 2 i.toNat))
    rw [ofBytesBE_toBytesBE_of_lt i.toNat_lt, UInt16.ofNat_toNat]

section
variable {α : Type} {G H : Nat → List UInt8 → α → Prop} {lmt lmt' n : Nat} {s : List UInt8}
  {read : Reader α}

/-! ### Pointers -/

/-- Nil, or the byte 1 and the form of the value. -/
def PointerForm (G : Nat → List UInt8 → α → Prop) (n : Nat) (s : List UInt8) :
    Option α → Prop
  | none => s = [0]
  | some a => ∃ t, s = 1 :: t ∧ G (n + 1) t a

theorem PointerForm.mono (hGH : ∀ n s a, G n s a → H n s a) {v : Option α}
    (h : PointerForm G n s v) : PointerForm H n s v := by
  cases v with
  | none => exact h
  | some a =>
    obtain ⟨t, rfl, ha⟩ := h
    exact ⟨t, rfl, hGH _ _ _ ha⟩

theorem scans_readPointer (h : Scans read G) : Scans (readPointer read) (PointerForm G) := by
  refine (scans_bind (K := fun b n s v => (b = 0 ∧ s = [] ∧ v = none) ∨
    (b ≠ 0 ∧ b = 1 ∧ ∃ a, G n s a ∧ v = some a)) scans_readByte fun b => ?_).congr
      fun n s v => ?_
  · refine (scans_unlessErr none fun _ => scans_ite (c := b = 0) (scans_pure none)
      (scans_ite (c := b ≠ 1) (scans_fail _ _) (scans_map h some))).congr fun n s v => ?_
    simp only [and_false, false_or, not_not]
  · constructor
    · rintro ⟨_, t, b, rfl, rfl, ⟨rfl, rfl, rfl⟩ | ⟨-, rfl, a, ha, rfl⟩⟩
      · rfl
      · exact ⟨t, rfl, ha⟩
    · intro hform
      cases v with
      | none => exact ⟨[0], [], 0, hform, rfl, .inl ⟨rfl, rfl, rfl⟩⟩
      | some a =>
        obtain ⟨t, rfl, ha⟩ := hform
        exact ⟨[1], t, 1, rfl, rfl, .inr ⟨by decide, rfl, a, ha, rfl⟩⟩

/-! ### Slices -/

/-- The elements one after the other, in the limit. -/
def ElemsForm (lmt : Nat) (G : Nat → List UInt8 → α → Prop) :
    Nat → List UInt8 → List α → Prop
  | _, s, [] => s = []
  | n, s, a :: elems => ∃ s₁ s₂, s = s₁ ++ s₂ ∧ G n s₁ a ∧ n + s₁.length ≤ lmt ∧
      ElemsForm lmt G (n + s₁.length) s₂ elems

/-- The number of the elements, and the elements. A negative number stands for zero. -/
def SliceOfForm (lmt : Nat) (G : Nat → List UInt8 → α → Prop) (n : Nat) (s : List UInt8)
    (elems : List α) : Prop :=
  ∃ s₁ s₂ i, s = s₁ ++ s₂ ∧ VarintForm s₁ i ∧ elems.length = i.toInt.toNat ∧
    ElemsForm lmt G (n + s₁.length) s₂ elems

variable {elems : List α} {write : α → List UInt8}

theorem ElemsForm.mono (hle : lmt ≤ lmt') (hGH : ∀ n s a, G n s a → H n s a)
    (h : ElemsForm lmt G n s elems) : ElemsForm lmt' H n s elems := by
  induction elems generalizing n s with
  | nil => exact h
  | cons a elems ih =>
    obtain ⟨s₁, s₂, rfl, ha, hs₁, hrest⟩ := h
    exact ⟨s₁, s₂, rfl, hGH _ _ _ ha, hs₁.trans hle, ih hrest⟩

theorem ElemsForm.of_mem (h : ElemsForm lmt G n s elems) {a : α} (ha : a ∈ elems) :
    ∃ n s, G n s a := by
  induction elems generalizing n s with
  | nil => cases ha
  | cons b elems ih =>
    obtain ⟨s₁, s₂, rfl, hb, -, hrest⟩ := h
    rcases List.mem_cons.mp ha with rfl | ha
    · exact ⟨n, s₁, hb⟩
    · exact ih hrest ha

theorem SliceOfForm.mono (hle : lmt ≤ lmt') (hGH : ∀ n s a, G n s a → H n s a)
    (h : SliceOfForm lmt G n s elems) : SliceOfForm lmt' H n s elems := by
  obtain ⟨s₁, s₂, i, rfl, hi, hlength, helems⟩ := h
  exact ⟨s₁, s₂, i, rfl, hi, hlength, helems.mono hle hGH⟩

theorem scans_readElements (hlmt : lmt ≠ 0) (h : Scans read G) (k : Nat) :
    Scans (readElements lmt read k) (fun n s elems => elems.length = k ∧
      ElemsForm lmt G n s elems) := by
  induction k with
  | zero =>
    refine (scans_pure []).congr fun n s elems => ?_
    constructor
    · rintro ⟨rfl, rfl⟩
      exact ⟨rfl, rfl⟩
    · rintro ⟨hlength, hform⟩
      obtain rfl := List.length_eq_zero_iff.mp hlength
      exact ⟨hform, rfl⟩
  | succ k ih =>
    refine (scans_bind h fun a => scans_unlessErr [] fun n => scans_ite
      (c := lmt ≠ 0 ∧ lmt < n) (scans_fail _ _) (scans_map ih (a :: ·))).congr
      fun n s elems => ?_
    constructor
    · rintro ⟨s₁, s₂, a, rfl, ha, ⟨-, hfalse⟩ | ⟨hnot, rest, ⟨rfl, hrest⟩, rfl⟩⟩
      · exact hfalse.elim
      · exact ⟨rfl, s₁, s₂, rfl, ha, Nat.le_of_not_lt fun hlt => hnot ⟨hlmt, hlt⟩, hrest⟩
    · rintro ⟨hlength, hform⟩
      cases elems with
      | nil => exact absurd hlength.symm (Nat.succ_ne_zero k)
      | cons a rest =>
        obtain ⟨s₁, s₂, rfl, ha, hle, hrest⟩ := hform
        exact ⟨s₁, s₂, a, rfl, ha, .inr ⟨fun hlt => Nat.not_lt.mpr hle hlt.2, rest,
          ⟨Nat.succ.inj hlength, hrest⟩, rfl⟩⟩

theorem scans_readSliceOf (hlmt : lmt ≠ 0) (h : Scans read G) :
    Scans (readSliceOf lmt read) (SliceOfForm lmt G) := by
  refine (scans_bind scans_readVarint fun i =>
    scans_readElements hlmt h i.toInt.toNat).congr fun n s elems => ?_
  constructor
  · rintro ⟨s₁, s₂, i, rfl, hi, hlength, helems⟩
    exact ⟨s₁, s₂, i, rfl, hi, hlength, helems⟩
  · rintro ⟨s₁, s₂, i, rfl, hi, hlength, helems⟩
    exact ⟨s₁, s₂, i, rfl, hi, hlength, helems⟩

/-! ### What is written -/

theorem pointerForm_writePointer {v : Option α} (h : ∀ a, v = some a → G (n + 1) (write a) a) :
    PointerForm G n (writePointer write v) v := by
  cases v with
  | none => rfl
  | some a => exact ⟨write a, rfl, h a rfl⟩

theorem elemsForm_flatMap (h : ∀ a ∈ elems, ∀ n, n + (write a).length ≤ lmt → G n (write a) a)
    (hle : n + (elems.flatMap write).length ≤ lmt) :
    ElemsForm lmt G n (elems.flatMap write) elems := by
  induction elems generalizing n with
  | nil => rfl
  | cons a elems ih =>
    rw [List.flatMap_cons, List.length_append] at hle
    exact ⟨write a, elems.flatMap write, rfl, h a List.mem_cons_self n (by omega), by omega,
      ih (fun b hb => h b (.tail _ hb)) (by omega)⟩

theorem sliceOfForm_writeSliceOf
    (h : ∀ a ∈ elems, ∀ n, n + (write a).length ≤ lmt → G n (write a) a)
    (hlen : (elems.length : Int) ≤ maxSliceLength)
    (hle : n + (writeSliceOf write elems).length ≤ lmt) :
    SliceOfForm lmt G n (writeSliceOf write elems) elems := by
  rw [writeSliceOf, List.length_append] at hle
  exact ⟨_, _, _, rfl, varintForm_writeVarint (not_ofNat_neg hlen),
    ((eq_ofNat_iff hlen).mp rfl).2.symm, elemsForm_flatMap h (by omega)⟩

end

end BtmStats.Proofs.Wire
