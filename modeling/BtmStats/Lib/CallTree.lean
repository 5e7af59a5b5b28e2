import Mathlib.Algebra.Ring.Nat
import Mathlib.Data.Nat.Log

/-!
# `BtmStats.Lib.CallTree`: the calls of a recursion on two parts of a list

A function that splits its argument in two and calls itself on both parts makes a binary
tree of calls. `CallTree` is this tree, with the argument of each call. Its depth is the
number of recursive calls that are open at one time.

`PowerSplit` is the tree of a recursion that cuts off the largest power of two that leaves
something: a call with at most one element stops, and otherwise the left part has `2 ^ d`
elements and the right part has between one and `2 ^ d`. The rest follows by induction on
the tree: a call with `2 ^ d` elements makes a perfect tree (`PowerSplit.perfect`), so every
left subtree is one (`PowerSplit.everywhere`), and the depth is the logarithm of the number
of elements, rounded up (`PowerSplit.depth_eq`).
-/

set_option autoImplicit false

namespace BtmStats.Lib

inductive CallTree (α : Type) where
  /-- A call that makes no further calls. -/
  | leaf (arg : List α)
  /-- A call that makes two calls, first the left one. -/
  | node (arg : List α) (left right : CallTree α)

namespace CallTree
variable {α : Type}

/-- The argument of the first call. -/
@[simp] def arg : CallTree α → List α
  | .leaf arg => arg
  | .node arg _ _ => arg

/-- How many calls below the first one are open at one time. -/
def depth : CallTree α → Nat
  | .leaf _ => 0
  | .node _ left right => max left.depth right.depth + 1

/-- All calls at the depth `d` hold one element, and all calls above make two. -/
def Perfect : Nat → CallTree α → Prop
  | 0, .leaf arg => arg.length = 1
  | d + 1, .node _ left right => left.Perfect d ∧ right.Perfect d
  | _, _ => False

/-- Every call that makes two calls makes them as `P` says. -/
def Everywhere (P : CallTree α → CallTree α → Prop) : CallTree α → Prop
  | .leaf _ => True
  | .node _ left right => P left right ∧ left.Everywhere P ∧ right.Everywhere P

/-- The tree of a recursion that cuts off the largest power of two that leaves something. -/
inductive PowerSplit : CallTree α → Prop
  | leaf {arg : List α} (hstop : arg.length ≤ 1) : PowerSplit (.leaf arg)
  | node {arg : List α} {left right : CallTree α} (d : Nat) (hleft : left.arg.length = 2 ^ d)
      (hpos : 0 < right.arg.length) (hle : right.arg.length ≤ 2 ^ d)
      (harg : arg = left.arg ++ right.arg) (hl : PowerSplit left) (hr : PowerSplit right) :
      PowerSplit (.node arg left right)

/-- Above `2 ^ d` and up to `2 ^ (d + 1)` the logarithm is `d + 1`. -/
theorem clog_add {d m : Nat} (hpos : 0 < m) (hle : m ≤ 2 ^ d) :
    Nat.clog 2 (2 ^ d + m) = d + 1 := by
  apply Nat.le_antisymm
  · apply Nat.clog_le_of_le_pow
    rw [Nat.pow_succ]
    omega
  · have hlt : d < Nat.clog 2 (2 ^ d + m) := by
      rw [Nat.lt_clog_iff_pow_lt (by decide)]
      omega
    exact hlt

/-- Induction on the tree. In a node the two parts add up to a power of two only when the
right part is as long as the left part. -/
theorem PowerSplit.perfect {t : CallTree α} (h : PowerSplit t) :
    ∀ {d : Nat}, t.arg.length = 2 ^ d → t.Perfect d := by
  induction h with
  | leaf hstop =>
    intro d hlen
    cases d with
    | zero => exact hlen
    | succ d =>
      have hpow := Nat.two_pow_pos d
      simp only [arg, Nat.pow_succ] at hlen
      omega
  | @node _ left right e hleft hpos hle harg _ _ ihl ihr =>
    intro d hlen
    have hsum : 2 ^ e + right.arg.length = 2 ^ d := by
      rw [← hlen, arg, harg, List.length_append, hleft]
    have hlog : e + 1 = d := by
      rw [← clog_add hpos hle, hsum, Nat.clog_pow 2 d (by decide)]
    subst hlog
    have hright : right.arg.length = 2 ^ e := by
      rw [Nat.pow_succ] at hsum
      omega
    exact ⟨ihl hleft, ihr hright⟩

/-- Induction on the tree. The left part has the depth `d` of its power of two, and the right
part is not deeper. -/
theorem PowerSplit.depth_eq {t : CallTree α} (h : PowerSplit t) :
    t.depth = Nat.clog 2 t.arg.length := by
  induction h with
  | leaf hstop =>
    rw [depth, arg, Nat.clog_of_right_le_one hstop]
  | @node _ left right d hleft hpos hle harg _ _ ihl ihr =>
    have hl : left.depth = d := by
      rw [ihl, hleft, Nat.clog_pow 2 d (by decide)]
    have hr : right.depth ≤ d := by
      rw [ihr]
      exact Nat.clog_le_of_le_pow hle
    rw [depth, arg, harg, List.length_append, hleft, clog_add hpos hle, hl,
      Nat.max_eq_left hr]

/-- Both parts of every call are non-empty, and the left one makes a perfect tree. -/
theorem PowerSplit.everywhere {t : CallTree α} (h : PowerSplit t) :
    t.Everywhere fun left right =>
      left.arg ≠ [] ∧ right.arg ≠ [] ∧ ∃ d, left.Perfect d := by
  induction h with
  | leaf hstop => trivial
  | @node _ left right d hleft hpos hle harg hl hr ihl ihr =>
    have hne : left.arg ≠ [] := by
      apply List.ne_nil_of_length_pos
      rw [hleft]
      exact Nat.two_pow_pos d
    exact ⟨⟨hne, List.ne_nil_of_length_pos hpos, d, hl.perfect hleft⟩, ihl, ihr⟩

end CallTree

end BtmStats.Lib
