import Mathlib.Data.List.Basic

/-!
# `BtmStats.Lib.Slice`: slices over a shared backing array

A slice is a window at the front of a backing array: the first `len` cells are
visible, the rest is spare capacity. Shrinking a slice only moves `len`, so the
cells past it keep their old values, and growing it again inside the capacity
brings those values back. Code that re-slices has to clear them itself; the
lemmas below say what each operation leaves in every visible cell.

An operation that the run-time would refuse (an index at or past `len`, a length
past the capacity) answers `none`.
-/

set_option autoImplicit false

namespace BtmStats.Lib

/-- A slice: a backing array and the number of its cells that are visible. The
capacity is the size of the array, and `len` never passes it. -/
structure Slice (α : Type) where
  array : List α
  len : Nat
  len_le : len ≤ array.length

namespace Slice

variable {α : Type}

/-- The nil slice. -/
def empty : Slice α := ⟨[], 0, Nat.le_refl 0⟩

/-- `cap(s)`. -/
def cap (s : Slice α) : Nat := s.array.length

/-- `s[i]`. -/
def get? (s : Slice α) (i : Nat) : Option α :=
  if i < s.len then s.array[i]? else none

/-- `s[i] = v`. -/
def set? (s : Slice α) (i : Nat) (v : α) : Option (Slice α) :=
  if i < s.len then
    some ⟨s.array.set i v, s.len, by rw [List.length_set]; exact s.len_le⟩
  else none

/-- `make([]T, len, cap)`, every cell the zero value. -/
def make? (zero : α) (len cap : Nat) : Option (Slice α) :=
  if h : len ≤ cap then
    some ⟨List.replicate cap zero, len, by rw [List.length_replicate]; exact h⟩
  else none

/-- `s[0:n]`. -/
def reslice? (s : Slice α) (n : Nat) : Option (Slice α) :=
  if h : n ≤ s.cap then some ⟨s.array, n, h⟩ else none

/-- The visible cells. -/
def visible (s : Slice α) : List α := s.array.take s.len

/-- `append(s, vs...)`. Inside the capacity the values overwrite the spare cells. Past it they
go to a new array, with the spare cells `spare`. -/
def append (s : Slice α) (vs spare : List α) : Slice α :=
  if h : s.len + vs.length ≤ s.cap then
    ⟨s.visible ++ vs ++ s.array.drop (s.len + vs.length), s.len + vs.length, by
      have hs := s.len_le
      simp only [visible, cap, List.length_append, List.length_take, List.length_drop] at h ⊢
      omega⟩
  else
    ⟨s.visible ++ vs ++ spare, s.len + vs.length, by
      have hs := s.len_le
      simp only [visible, List.length_append, List.length_take]
      omega⟩

/-- `s[:0]` -/
def clear (s : Slice α) : Slice α := ⟨s.array, 0, Nat.zero_le _⟩

/-- `copy(dst, src)`: the shorter of the two lengths is copied. -/
def copy (dst src : Slice α) : Slice α :=
  ⟨src.array.take (min dst.len src.len) ++ dst.array.drop (min dst.len src.len), dst.len, by
    have hd := dst.len_le
    have hs := src.len_le
    simp only [List.length_append, List.length_take, List.length_drop]
    omega⟩

@[simp] theorem length_visible (s : Slice α) : s.visible.length = s.len := by
  rw [visible, List.length_take, Nat.min_eq_left s.len_le]

/-- Appending shows the old cells and the new values, whether or not the array is kept. -/
theorem visible_append (s : Slice α) (vs spare : List α) :
    (s.append vs spare).visible = s.visible ++ vs := by
  have hlen : s.len + vs.length = (s.visible ++ vs).length := by
    rw [List.length_append, length_visible]
  unfold append
  split
  · show List.take (s.len + vs.length) (s.visible ++ vs ++ _) = _
    rw [hlen, List.take_left]
  · show List.take (s.len + vs.length) (s.visible ++ vs ++ _) = _
    rw [hlen, List.take_left]

theorem visible_clear (s : Slice α) : s.clear.visible = [] := rfl

/-- A visible index reads a cell. -/
theorem get?_isSome (s : Slice α) (i : Nat) : (s.get? i).isSome ↔ i < s.len := by
  unfold get?
  by_cases h : i < s.len
  · have hlt : i < s.array.length := Nat.lt_of_lt_of_le h s.len_le
    simp [h, hlt]
  · simp [h]

/-- Reading past the length fails. -/
theorem get?_eq_none (s : Slice α) {i : Nat} (h : s.len ≤ i) : s.get? i = none := by
  unfold get?
  rw [if_neg (Nat.not_lt.mpr h)]

/-- Writing a visible cell succeeds, keeps the length and the capacity, and
changes that cell only. -/
theorem set?_spec (s : Slice α) {i : Nat} (v : α) (h : i < s.len) :
    ∃ s', s.set? i v = some s' ∧ s'.len = s.len ∧ s'.cap = s.cap ∧
      ∀ j, s'.get? j = if j = i then some v else s.get? j := by
  have hlt : i < s.array.length := Nat.lt_of_lt_of_le h s.len_le
  refine ⟨_, if_pos h, rfl, by simp [cap], fun j => ?_⟩
  unfold get?
  by_cases hj : j = i
  · subst hj
    simp [h, hlt]
  · simp [hj, List.getElem?_set_ne (Ne.symm hj)]

/-- Every visible cell of a fresh slice holds the zero value. -/
theorem make?_spec (zero : α) {len cap : Nat} (h : len ≤ cap) :
    ∃ s, make? zero len cap = some s ∧ s.len = len ∧ s.cap = cap ∧
      ∀ i, i < len → s.get? i = some zero := by
  refine ⟨_, dif_pos h, rfl, by simp [Slice.cap], fun i hi => ?_⟩
  have hlt : i < cap := Nat.lt_of_lt_of_le hi h
  simp [get?, hi, hlt]

/-- Re-slicing inside the capacity keeps the cells that stay visible. -/
theorem reslice?_spec (s : Slice α) {n : Nat} (h : n ≤ s.cap) :
    ∃ s', s.reslice? n = some s' ∧ s'.len = n ∧ s'.cap = s.cap ∧
      ∀ i, i < n → i < s.len → s'.get? i = s.get? i := by
  refine ⟨_, dif_pos h, rfl, rfl, fun i hn hl => ?_⟩
  simp [get?, hn, hl]

/-- Copying writes the source's cells over the front of the destination and
leaves the rest of it. -/
theorem get?_copy (dst src : Slice α) {i : Nat} (hi : i < dst.len) :
    (copy dst src).get? i = if i < src.len then src.get? i else dst.get? i := by
  have hd := dst.len_le
  have hs := src.len_le
  unfold get? copy
  simp only [hi, if_true]
  by_cases h : i < src.len
  · -- In the part that is copied.
    have hk : i < min dst.len src.len := by omega
    rw [if_pos h, if_pos h, List.getElem?_append_left (by simp; omega),
      List.getElem?_take_of_lt hk]
  · -- Past it, the source is the shorter one.
    have hk : min dst.len src.len ≤ i := by omega
    rw [if_neg h, List.getElem?_append_right (by simp; omega), List.getElem?_drop]
    congr 1
    simp only [List.length_take]
    omega

end Slice

end BtmStats.Lib
