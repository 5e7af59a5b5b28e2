import Mathlib.Data.List.Basic

/-!
# `BtmStats.Lib.Window`: parts of a shared array

A slice of an array that is only read is a window: a first position and an end inside the
array, which are fields with their bounds. Slicing moves the positions and copies nothing,
so several windows can show parts of one array. `Window.items` are the elements that a
window shows, and the lemmas say what slicing does to them.
-/

set_option autoImplicit false

namespace BtmStats.Lib

/-- The positions from `lo` up to `hi` of the array `mem`. -/
structure Window {α : Type} (mem : List α) where
  lo : Nat
  hi : Nat
  lo_le : lo ≤ hi
  hi_le : hi ≤ mem.length

namespace Window
variable {α : Type} {mem : List α}

/-- The number of elements. -/
def len (w : Window mem) : Nat := w.hi - w.lo

/-- The elements that the window shows. -/
def items (w : Window mem) : List α := (mem.take w.hi).drop w.lo

/-- `w[:n]` -/
def front (w : Window mem) (n : Nat) (h : n ≤ w.len) : Window mem :=
  ⟨w.lo, w.lo + n, Nat.le_add_right _ _, by
    have := w.hi_le
    have := w.lo_le
    simp only [len] at h
    omega⟩

/-- `w[n:]` -/
def rest (w : Window mem) (n : Nat) (h : n ≤ w.len) : Window mem :=
  ⟨w.lo + n, w.hi, by
    have := w.lo_le
    simp only [len] at h
    omega, w.hi_le⟩

/-- The positions that the window shows. -/
def positions (w : Window mem) : List Nat := List.range' w.lo w.len

@[simp] theorem length_items (w : Window mem) : w.items.length = w.len := by
  have := w.hi_le
  simp only [items, len, List.length_drop, List.length_take]
  omega

theorem items_front (w : Window mem) {n : Nat} (h : n ≤ w.len) :
    (w.front n h).items = w.items.take n := by
  show (mem.take (w.lo + n)).drop w.lo = ((mem.take w.hi).drop w.lo).take n
  rw [List.drop_take, List.drop_take, List.take_take, Nat.add_sub_cancel_left]
  exact congrArg (List.take · (mem.drop w.lo)) (Nat.min_eq_left h).symm

theorem items_rest (w : Window mem) {n : Nat} (h : n ≤ w.len) :
    (w.rest n h).items = w.items.drop n := by
  show (mem.take w.hi).drop (w.lo + n) = ((mem.take w.hi).drop w.lo).drop n
  rw [List.drop_drop]

/-- Cutting a window in two keeps its elements. -/
theorem items_front_append_rest (w : Window mem) {n : Nat} (h : n ≤ w.len) :
    (w.front n h).items ++ (w.rest n h).items = w.items := by
  rw [items_front, items_rest, List.take_append_drop]

theorem len_front (w : Window mem) {n : Nat} (h : n ≤ w.len) : (w.front n h).len = n :=
  Nat.add_sub_cancel_left w.lo n

theorem len_rest (w : Window mem) {n : Nat} (h : n ≤ w.len) :
    (w.rest n h).len = w.len - n := Nat.sub_add_eq w.hi w.lo n

/-- The element at the first position. -/
theorem getElem?_lo (w : Window mem) (h : 0 < w.len) : mem[w.lo]? = w.items.head? := by
  have hlt : w.lo < w.hi := Nat.lt_of_sub_pos h
  rw [items, List.head?_drop, List.getElem?_take_of_lt hlt]

/-- A window with a first element is this element and the rest. -/
theorem items_eq_cons (w : Window mem) {a : α} (h : 1 ≤ w.len) (ha : mem[w.lo]? = some a) :
    w.items = a :: (w.rest 1 h).items := by
  rw [getElem?_lo w h] at ha
  obtain ⟨as, has⟩ := List.head?_eq_some_iff.mp ha
  rw [items_rest, has]
  rfl

theorem mem_positions (w : Window mem) {i : Nat} : i ∈ w.positions ↔ w.lo ≤ i ∧ i < w.hi := by
  have := w.lo_le
  simp only [positions, List.mem_range'_1, len]
  omega

theorem items_eq_nil_iff (w : Window mem) : w.items = [] ↔ w.len = 0 := by
  rw [← List.length_eq_zero_iff, length_items]

end Window

end BtmStats.Lib
