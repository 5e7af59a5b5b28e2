import Mathlib.Data.List.Basic

/-!
# `BtmStats.Spec.Runtime`: run-time panics and map iteration

The model of a function that can panic returns `Except Panic _`. An error that
the Go code returns as a value is never a `Panic`; it is part of the result.
-/

set_option autoImplicit false

namespace BtmStats.Spec

/-- The run-time panics that the modelled functions can raise. -/
inductive Panic where
  /-- `index out of range` -/
  | indexOutOfRange
  /-- `slice bounds out of range`, also `makeslice: cap out of range` -/
  | sliceBounds
  /-- `invalid memory address or nil pointer dereference` -/
  | nilDereference
  /-- `interface conversion` of a type assertion without the comma-ok form -/
  | typeAssertion
  /-- an argument that a library function refuses by a panic, `rand.Intn(0)` -/
  | invalidArgument
  /-- recursion without end -/
  | stackOverflow
  /-- a panic of the code itself, with its text -/
  | message (text : String)
  deriving DecidableEq, Repr

/-- `cmn.PanicSanity` -/
def panicSanity (v : String) : Panic := .message ("Panicked on a Sanity Check: " ++ v)

/-- `cmn.PanicQ` -/
def panicQ (v : String) : Panic := .message ("Panicked questionably: " ++ v)

/-- A Go string: its bytes. -/
abbrev Str := List UInt8

/-- Read an optional value, with the panic that its absence raises. -/
def orPanic {α : Type} (p : Panic) : Option α → Except Panic α
  | some a => .ok a
  | none => .error p

@[simp] theorem orPanic_some {α : Type} (p : Panic) (a : α) :
    orPanic p (some a) = .ok a := rfl

@[simp] theorem orPanic_none {α : Type} (p : Panic) :
    orPanic p (none : Option α) = .error p := rfl

theorem orPanic_eq_ok {α : Type} {p : Panic} {o : Option α} {a : α} :
    orPanic p o = .ok a ↔ o = some a := by
  cases o <;> simp [orPanic]

/-- An order of iteration over a Go map. The language leaves the order open, so a
function that iterates takes one as a parameter, and its results are stated for
every order. -/
structure IterOrder (α : Type) where
  apply : List α → List α
  perm : ∀ l, (apply l).Perm l

end BtmStats.Spec
