import Mathlib.Data.List.Induction
import Mathlib.Logic.Equiv.List
import Mathlib.Tactic.Ring

/-!
# `BtmStats.Lib.BigEndian`: big-endian byte strings

`ofBytesBE` reads a byte string as a number, most significant byte first, and
`toBytesBE w v` writes the `w` low bytes of `v` in that order. They are inverse to
each other at every fixed width. Fixed-width arrays (`FixedBytes n`) carry their
length.
-/

set_option autoImplicit false

namespace BtmStats.Lib

/-- A byte array of a fixed length. -/
abbrev FixedBytes (n : Nat) := { b : List UInt8 // b.length = n }

/-- `n` times the byte `b`. -/
def FixedBytes.replicate (n : Nat) (b : UInt8) : FixedBytes n :=
  ⟨List.replicate n b, List.length_replicate⟩

/-- The value of a big-endian byte string. -/
def ofBytesBE (bs : List UInt8) : Nat := bs.foldl (fun acc b => acc * 256 + b.toNat) 0

/-- The `w` low bytes of `v`, most significant byte first. -/
def toBytesBE : Nat → Nat → List UInt8
  | 0, _ => []
  | w + 1, v => toBytesBE w (v / 256) ++ [UInt8.ofNat v]

@[simp] theorem ofBytesBE_nil : ofBytesBE [] = 0 := rfl

/-- The last byte carries weight 1. -/
theorem ofBytesBE_concat (bs : List UInt8) (b : UInt8) :
    ofBytesBE (bs ++ [b]) = ofBytesBE bs * 256 + b.toNat := by
  simp [ofBytesBE, List.foldl_append]

/-- A byte string's value is smaller than `256` to its length. -/
theorem ofBytesBE_lt (bs : List UInt8) : ofBytesBE bs < 256 ^ bs.length := by
  induction bs using List.reverseRecOn with
  | nil => simp
  | append_singleton bs b ih =>
    have hb : b.toNat < 256 := b.toNat_lt
    rw [ofBytesBE_concat, List.length_append, List.length_singleton, Nat.pow_succ]
    omega

@[simp] theorem length_toBytesBE (w v : Nat) : (toBytesBE w v).length = w := by
  induction w generalizing v with
  | zero => rfl
  | succ w ih => simp [toBytesBE, ih]

/-- Writing and reading back keeps the low bytes. The last byte is the remainder
by `256`, the bytes before it write the quotient. -/
theorem ofBytesBE_toBytesBE (w : Nat) :
    ∀ v : Nat, ofBytesBE (toBytesBE w v) = v % 256 ^ w := by
  induction w with
  | zero =>
    intro v
    simp [toBytesBE, Nat.mod_one]
  | succ w ih =>
    intro v
    have hlast : (UInt8.ofNat v).toNat = v % 256 := UInt8.toNat_ofNat'
    have hsplit : v % 256 ^ (w + 1) = v % 256 + 256 * (v / 256 % 256 ^ w) := by
      rw [Nat.pow_succ', Nat.mod_mul]
    rw [toBytesBE, ofBytesBE_concat, ih (v / 256), hlast, hsplit]
    ring

/-- The bytes of a wider width, split: the high ones write the quotient. -/
theorem toBytesBE_add (w k v : Nat) :
    toBytesBE (w + k) v = toBytesBE w (v / 256 ^ k) ++ toBytesBE k v := by
  induction k generalizing v with
  | zero => simp [toBytesBE]
  | succ k ih =>
    have hquot : v / 256 / 256 ^ k = v / 256 ^ (k + 1) := by
      rw [Nat.div_div_eq_div_mul, Nat.pow_succ']
    rw [← Nat.add_assoc, toBytesBE, ih, hquot, List.append_assoc, toBytesBE]

/-- Writing and reading back a value that fits. -/
theorem ofBytesBE_toBytesBE_of_lt {w v : Nat} (h : v < 256 ^ w) :
    ofBytesBE (toBytesBE w v) = v := by
  rw [ofBytesBE_toBytesBE, Nat.mod_eq_of_lt h]

/-- Reading and writing back at the same width. -/
theorem toBytesBE_ofBytesBE (bs : List UInt8) : toBytesBE bs.length (ofBytesBE bs) = bs := by
  induction bs using List.reverseRecOn with
  | nil => rfl
  | append_singleton bs b ih =>
    have hb : b.toNat < 256 := b.toNat_lt
    have hdiv : (ofBytesBE bs * 256 + b.toNat) / 256 = ofBytesBE bs := by omega
    have hlast : UInt8.ofNat (ofBytesBE bs * 256 + b.toNat) = b := by
      apply UInt8.toNat_inj.mp
      rw [UInt8.toNat_ofNat']
      omega
    rw [ofBytesBE_concat, List.length_append, List.length_singleton, toBytesBE, hdiv, hlast, ih]

/-! ### Order -/

/-- A common beginning does not matter for the order of byte strings. -/
theorem compare_append_left (p l l' : List UInt8) : compare (p ++ l) (p ++ l') = compare l l' := by
  induction p with
  | nil => rfl
  | cons b p ih =>
    rw [List.cons_append, List.cons_append, List.compare_cons_cons, Std.ReflOrd.compare_self, ih]
    rfl

/-- Numbers of one width are ordered as their byte strings, whatever follows. -/
theorem compare_toBytesBE {w : Nat} : ∀ {v v' : Nat} (s s' : List UInt8), v < v' → v' < 256 ^ w →
    compare (toBytesBE w v ++ s) (toBytesBE w v' ++ s') = .lt := by
  induction w with
  | zero =>
    intro v v' s s' hlt hle
    rw [Nat.pow_zero] at hle
    omega
  | succ w ih =>
    intro v v' s s' hlt hle
    rw [Nat.pow_succ] at hle
    rw [toBytesBE, toBytesBE, List.append_assoc, List.append_assoc]
    rcases Nat.lt_or_ge (v / 256) (v' / 256) with hdiv | hdiv
    · exact ih _ _ hdiv (by omega)
    · -- The bytes before the last are the same.
      have hlast : UInt8.ofNat v < UInt8.ofNat v' := by
        rw [UInt8.lt_iff_toNat_lt, UInt8.toNat_ofNat', UInt8.toNat_ofNat']
        omega
      have hcompare : compare (UInt8.ofNat v) (UInt8.ofNat v') = .lt := if_pos hlast
      rw [show v / 256 = v' / 256 by omega, compare_append_left, List.singleton_append,
        List.singleton_append, List.compare_cons_cons, hcompare]
      rfl

/-! ### Values in unary

The simplest encoding that can be undone: a value of a countable type is written as its
number, in unary. It stands for a library encoder where only the round trip matters.
-/

instance encodableUInt8 : Encodable UInt8 :=
  .ofLeftInjection UInt8.toNat (fun n => some (.ofNat n)) fun b => by rw [UInt8.ofNat_toNat]

variable {α : Type} [Encodable α]

def toUnary (x : α) : List UInt8 := List.replicate (Encodable.encode x) 0

def ofUnary (α : Type) [Encodable α] (bytes : List UInt8) : Option α :=
  Encodable.decode bytes.length

@[simp] theorem ofUnary_toUnary (x : α) : ofUnary α (toUnary x) = some x := by
  simp [ofUnary, toUnary, Encodable.encodek]

end BtmStats.Lib
