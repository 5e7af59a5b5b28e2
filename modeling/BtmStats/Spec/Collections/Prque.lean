import Mathlib.Algebra.Ring.Nat
import BtmStats.Lib.Heap
import BtmStats.Spec.Runtime

/-!
# `BtmStats.Spec.Collections.Prque`: the priority queue

The model of the vendored package `prque`, which is a heap of package `container/heap`. Its
stack of blocks is modelled by a list. The priorities are `float32`. The fetcher makes them
from `uint64` heights, so they are whole numbers here, and the conversion rounds to 24
binary digits.
-/

set_option autoImplicit false

namespace BtmStats.Spec.Collections

open Lib Spec

/-- The conversion of a `uint64` to `float32`: to nearest, and to even in the middle. -/
def toFloat32 (n : UInt64) : Nat :=
  let n := n.toNat
  if n < 2 ^ 24 then n
  else
    let ulp := 2 ^ (n.log2 - 23)
    let q := n / ulp
    let r := n % ulp
    (if ulp < 2 * r ∨ (ulp = 2 * r ∧ q % 2 = 1) then q + 1 else q) * ulp

/-- An element with its priority. -/
structure Item (α : Type) where
  value : α
  priority : Int

/-- `Prque`, on the slice of a heap. -/
structure Prque (α : Type) where
  cont : List (Item α)

namespace Prque

variable {α : Type}

def new : Prque α := ⟨[]⟩

/-- `Push`: append and sift up. -/
def push (p : Prque α) (data : α) (priority : Int) : Prque α :=
  ⟨Heap.push Item.priority p.cont ⟨data, priority⟩⟩

/-- `PopItem`: the element with the highest priority. -/
def popItem (p : Prque α) : Except Panic (α × Prque α) := do
  let (item, cont) ← orPanic .indexOutOfRange (Heap.pop Item.priority p.cont)
  return (item.value, ⟨cont⟩)

def empty (p : Prque α) : Bool := p.cont.length = 0

end Prque

end BtmStats.Spec.Collections
