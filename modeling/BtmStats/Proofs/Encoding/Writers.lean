import BtmStats.Proofs.Encoding.Blockchain

/-!
# `BtmStats.Proofs.Encoding.Writers`: what is written is in the grammar

Each writer that returns no error has written a string of the grammar that the reader of
the same name reads: `writeVarint31_spec`, `writeVarint63_spec`, `writeVarstr31_spec`
and `writeVarstrList_spec`. A writer fails on values that are out of range and on no
others.
-/

set_option autoImplicit false

namespace BtmStats.Proofs.Blockchain

open Lib Spec Spec.Blockchain

/-! ### Variable-length integers -/

theorem putUvarint_ne_nil (x : Nat) : putUvarint x ≠ [] := by
  rw [putUvarint]
  split <;> exact List.cons_ne_nil _ _

theorem terminated_putUvarint (x : Nat) : Terminated (putUvarint x) := by
  induction x using putUvarint.induct with
  | case1 x hx =>
    rw [putUvarint, if_pos hx]
    show UInt8.ofNat x < 0x80
    rw [UInt8.lt_iff_toNat_lt, UInt8.toNat_ofNat', Nat.mod_eq_of_lt (by omega)]
    exact hx
  | case2 x hx ih =>
    rw [putUvarint, if_neg hx]
    refine terminated_cons ?_ ih
    rw [UInt8.lt_iff_toNat_lt, UInt8.toNat_ofNat', Nat.mod_eq_of_lt (by omega)]
    exact Nat.not_lt.mpr (Nat.le_add_left 128 _)

theorem base128_putUvarint (x : Nat) : base128 (putUvarint x) = x := by
  induction x using putUvarint.induct with
  | case1 x hx =>
    rw [putUvarint, if_pos hx, base128, base128, UInt8.toNat_ofNat']
    omega
  | case2 x hx ih =>
    rw [putUvarint, if_neg hx, base128, ih, UInt8.toNat_ofNat']
    omega

theorem length_putUvarint_le (k : Nat) :
    ∀ x, x < 128 ^ (k + 1) → (putUvarint x).length ≤ k + 1 := by
  induction k with
  | zero =>
    intro x hx
    rw [putUvarint, if_pos (by simpa using hx)]
    exact Nat.le_refl 1
  | succ k ih =>
    intro x hx
    rw [putUvarint]
    split
    · exact Nat.succ_le_succ (Nat.zero_le _)
    · refine Nat.succ_le_succ (ih (x / 128) (Nat.div_lt_of_lt_mul ?_))
      rw [Nat.mul_comm, ← Nat.pow_succ]
      exact hx

theorem isUvarint_putUvarint {x : Nat} (hx : x < 2 ^ 64) : IsUvarint (putUvarint x) x :=
  ⟨terminated_putUvarint x, length_putUvarint_le 9 x (hx.trans_le (by decide)),
    base128_putUvarint x, hx⟩

theorem writeVarint31_of_le {val : Nat} (h : val ≤ maxInt32) :
    writeVarint31 val = .ok (putUvarint val) := if_neg (Nat.not_lt.mpr h)

variable {p : List UInt8} {w : Written} {l : List (List UInt8)}

theorem writeVarint31_spec {val : Nat} (h : writeVarint31 val = (p, none)) : IsVarint31 p val := by
  rw [writeVarint31] at h
  split at h
  · cases h
  · rename_i hle
    cases h
    have hle' : val ≤ maxInt32 := Nat.not_lt.mp hle
    exact ⟨isUvarint_putUvarint (Nat.lt_of_le_of_lt hle' (by decide)), hle'⟩

theorem writeVarint63_spec {val : UInt64} (h : writeVarint63 val.toNat = (p, none)) :
    IsVarint63 p val := by
  rw [writeVarint63] at h
  split at h
  · cases h
  · rename_i hle
    cases h
    exact ⟨isUvarint_putUvarint val.toNat_lt, Nat.not_lt.mp hle⟩

/-! ### Sequences of writes -/

/-- A sequence of writes without an error is both of them without an error. -/
theorem andThen_eq_ok_iff {next : Written} :
    w.andThen next = (p, none) ↔
      ∃ p₁ p₂, p = p₁ ++ p₂ ∧ w = (p₁, none) ∧ next = (p₂, none) := by
  obtain ⟨out, _ | err⟩ := w
  · obtain ⟨out', err'⟩ := next
    constructor
    · intro h
      cases h
      exact ⟨out, out', rfl, rfl, rfl⟩
    · rintro ⟨p₁, p₂, rfl, hw, hnext⟩
      cases hw
      cases hnext
      rfl
  · constructor
    · intro h
      cases h
    · rintro ⟨p₁, p₂, -, hw, -⟩
      cases hw

@[simp] theorem andThen_snd_eq_none_iff {next : Written} :
    (w.andThen next).2 = none ↔ w.2 = none ∧ next.2 = none := by
  obtain ⟨out, _ | err⟩ := w
  · simp [Written.andThen]
  · simp [Written.andThen]

@[simp] theorem wrap_snd_eq_none_iff {msg : String} :
    (w.wrap msg).2 = none ↔ w.2 = none := Option.map_eq_none_iff

theorem wrap_eq_ok_iff {msg : String} : w.wrap msg = (p, none) ↔ w = (p, none) := by
  obtain ⟨out, _ | err⟩ := w
  · rfl
  · constructor
    · intro h
      cases h
    · intro h
      cases h

/-! ### Byte strings -/

theorem writeVarstr31_spec {str : List UInt8} (h : writeVarstr31 str = (p, none)) :
    IsVarstr31 p str := by
  obtain ⟨len, rest, rfl, hlen, hrest⟩ := andThen_eq_ok_iff.mp h
  cases hrest
  exact ⟨len, rfl, writeVarint31_spec hlen⟩

theorem writeVarstr31_of_le {str : List UInt8} (h : str.length ≤ maxInt32) :
    (writeVarstr31 str).2 = none := by
  rw [writeVarstr31, writeVarint31_of_le h]
  rfl

theorem writeVarstrList_loop :
    ∀ {w : Written} {p : List UInt8},
      l.foldl (fun w s => w.andThen (writeVarstr31 s)) w = (p, none) →
        ∃ p₁ p₂, p = p₁ ++ p₂ ∧ w = (p₁, none) ∧ Many IsVarstr31 l.length p₂ l := by
  induction l with
  | nil =>
    intro w p h
    exact ⟨p, [], (List.append_nil p).symm, h, rfl, [], rfl, .nil⟩
  | cons s l ih =>
    intro w p h
    obtain ⟨q, p₃, rfl, hw, hlen, parts, rfl, hparts⟩ := ih h
    obtain ⟨p₁, p₂, rfl, hw, hs⟩ := andThen_eq_ok_iff.mp hw
    refine ⟨p₁, p₂ ++ parts.flatten, List.append_assoc .., hw, ?_⟩
    exact ⟨rfl, p₂ :: parts, rfl, .cons (writeVarstr31_spec hs) hparts⟩

theorem writeVarstrList_spec (h : writeVarstrList l = (p, none)) : IsVarstrList p l := by
  obtain ⟨count, strs, rfl, hcount, hstrs⟩ := writeVarstrList_loop h
  exact ⟨count, strs, rfl, writeVarint31_spec hcount, hstrs⟩

theorem writeVarstrList_of_le (hcount : l.length ≤ maxInt32)
    (hlens : ∀ str ∈ l, str.length ≤ maxInt32) : (writeVarstrList l).2 = none := by
  have hloop : ∀ {l : List (List UInt8)} {w : Written}, (∀ str ∈ l, str.length ≤ maxInt32) →
      w.2 = none → (l.foldl (fun w s => w.andThen (writeVarstr31 s)) w).2 = none := by
    intro l
    induction l with
    | nil =>
      intro w _ hw
      exact hw
    | cons str l ih =>
      intro w hlens hw
      obtain ⟨hstr, hlens⟩ := List.forall_mem_cons.mp hlens
      exact ih hlens (andThen_snd_eq_none_iff.mpr ⟨hw, writeVarstr31_of_le hstr⟩)
  exact hloop hlens (by rw [writeVarint31_of_le hcount]; rfl)

end BtmStats.Proofs.Blockchain
