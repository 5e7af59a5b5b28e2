import BtmStats.Spec.Errors
import BtmStats.Spec.Runtime
import Mathlib.Data.List.AList

/-!
# `BtmStats.Spec.WrapperError`: annotated errors

The model of `errors/errors.go` and of `Stack` in `errors/stack.go`. An error that is not
nil is a `wrapperError` or some other error; `ρ` is the type of the other errors, and
`message` is their `Error` method. A nil error is `none`. `δ` is the type of the values in
an `interface{}`, and `asString` is the type assertion to `string`.

Three things come from outside a call: the text that `fmt` formats from its arguments, the
stack that `getStack` captures, and the order in which the data of the error is copied. They
are arguments. `detail` is a list: each call appends to the slice of the error that it was
given, and an error that is annotated twice is not the subject here.

`Spec.Errors` has the errors of the other modules, of which only the root and the message
are read.
-/

set_option autoImplicit false

namespace BtmStats.Spec.Errors

open Spec

/-- A frame of a call stack. -/
structure StackFrame where
  func : String
  file : String
  line : Int
  deriving DecidableEq, Repr

/-- A `map[string]interface{}`. -/
abbrev DataMap (δ : Type) := AList fun _ : String => δ

/-- The key and the value of an entry. -/
abbrev Item (δ : Type) := (_ : String) × δ

/-- `wrapperError`. The root is an error of the type `ε`; `data` is `none` for a nil map. -/
structure WrapperError (ε δ : Type) where
  msg : String
  detail : List String
  data : Option (DataMap δ)
  stack : List StackFrame
  root : ε

/-- An error that is not nil. -/
inductive GoError (ρ δ : Type) where
  | other (e : ρ)
  | wrapper (werr : WrapperError (GoError ρ δ) δ)

variable {ρ δ : Type} (message : ρ → String) (asString : δ → Option String)

namespace GoError

/-- The type assertion `err.(wrapperError)`. -/
def asWrapper : GoError ρ δ → Option (WrapperError (GoError ρ δ) δ)
  | .other _ => none
  | .wrapper werr => some werr

/-- The method `Error`. -/
def error : GoError ρ δ → String
  | .other e => message e
  | .wrapper werr => werr.msg

/-- `Root` -/
def root : GoError ρ δ → GoError ρ δ
  | .other e => .other e
  | .wrapper werr => werr.root

/-- `Stack` -/
def stack (err : GoError ρ δ) : List StackFrame := err.asWrapper.elim [] WrapperError.stack

/-- The field `detail` of an error, nil for one that is not wrapped. -/
def details (err : GoError ρ δ) : List String := err.asWrapper.elim [] WrapperError.detail

/-- `Detail` -/
def detail (err : GoError ρ δ) : String := "; ".intercalate err.details

/-- `Data` -/
def data (err : GoError ρ δ) : Option (DataMap δ) := err.asWrapper.bind WrapperError.data

end GoError

/-! ### Annotations -/

/-- `wrap` on an error that is not nil. Its result is always a `wrapperError`. -/
def wrapWith (err : GoError ρ δ) (msg : String) (stack : List StackFrame) :
    WrapperError (GoError ρ δ) δ :=
  let werr := match err with
    | .wrapper werr => werr
    | .other e => ⟨message e, [], none, stack, .other e⟩
  if msg ≠ "" then { werr with msg := msg ++ ": " ++ werr.msg } else werr

/-- `Wrap`, with the text that `fmt.Sprint` formats. -/
def wrap (err : Option (GoError ρ δ)) (text : String) (stack : List StackFrame) :
    Option (GoError ρ δ) :=
  err.map fun err => .wrapper (wrapWith message err text stack)

/-- `Wrapf`, with the text that `fmt.Sprintf` formats. -/
def wrapf (err : Option (GoError ρ δ)) (text : String) (stack : List StackFrame) :
    Option (GoError ρ δ) :=
  wrap message err text stack

/-- The end of `WithDetail` and `WithDetailf`. -/
def addDetail (err : GoError ρ δ) (text : String) (stack : List StackFrame) : GoError ρ δ :=
  let e1 := wrapWith message err text stack
  .wrapper { e1 with detail := e1.detail ++ [text] }

/-- `WithDetail` -/
def withDetail (err : Option (GoError ρ δ)) (text : String) (stack : List StackFrame) :
    Option (GoError ρ δ) :=
  err.map fun err => if text = "" then err else addDetail message err text stack

/-- `WithDetailf`, with the formatted text. -/
def withDetailf (err : Option (GoError ρ δ)) (text : String) (stack : List StackFrame) :
    Option (GoError ρ δ) :=
  err.map fun err => addDetail message err text stack

/-- The first loop of `WithData`: copy the entries. -/
def copyItems (items : List (Item δ)) (newkv : DataMap δ) : DataMap δ :=
  items.foldl (fun newkv item => newkv.insert item.1 item.2) newkv

/-- The second loop of `WithData`. A key that is not a string panics, and so does a key
without a value. -/
def addPairs : List δ → DataMap δ → Except Panic (DataMap δ)
  | [], newkv => .ok newkv
  | [k], _ => if (asString k).isNone then .error .typeAssertion else .error .indexOutOfRange
  | k :: v :: keyval, newkv =>
    match asString k with
    | none => .error .typeAssertion
    | some k => addPairs keyval (newkv.insert k v)

/-- `WithData`, with the order of the iteration over the old data. -/
def withData (err : Option (GoError ρ δ)) (keyval : List δ) (order : IterOrder (Item δ))
    (stack : List StackFrame) : Except Panic (Option (GoError ρ δ)) :=
  match err with
  | none => .ok none
  | some err => do
      let copied := copyItems (order.apply (err.data.elim [] AList.entries)) ∅
      let newkv ← addPairs asString keyval copied
      .ok (some (.wrapper { wrapWith message err "" stack with data := some newkv }))

/-- `Sub` -/
def sub (root err : Option (GoError ρ δ)) (stack : List StackFrame) : Option (GoError ρ δ) :=
  match err with
  | none => none
  | some err =>
    let root := match err.asWrapper, root with
      | some wrapper, some root =>
        some (.wrapper { wrapper with root := root.root, msg := root.error message })
      | _, root => root
    wrap message root (err.error message) stack

/-! ### Sequences of calls -/

/-- One of the five functions, with its text or its data. -/
inductive Call (δ : Type) where
  | wrap (text : String)
  | wrapf (text : String)
  | withDetail (text : String)
  | withDetailf (text : String)
  | withData (keyval : List δ)

/-- A call, with the stack that it would capture and the order of its copy. -/
structure CallSite (δ : Type) where
  call : Call δ
  stack : List StackFrame
  order : IterOrder (Item δ)

/-- One call on an error. -/
def CallSite.apply (site : CallSite δ) (err : Option (GoError ρ δ)) :
    Except Panic (Option (GoError ρ δ)) :=
  match site.call with
  | .wrap text => .ok (Errors.wrap message err text site.stack)
  | .wrapf text => .ok (Errors.wrapf message err text site.stack)
  | .withDetail text => .ok (Errors.withDetail message err text site.stack)
  | .withDetailf text => .ok (Errors.withDetailf message err text site.stack)
  | .withData keyval => Errors.withData message asString err keyval site.order site.stack

/-- The calls one after the other. -/
def applyAll (sites : List (CallSite δ)) (err : Option (GoError ρ δ)) :
    Except Panic (Option (GoError ρ δ)) :=
  sites.foldlM (fun err site => site.apply message asString err) err

end BtmStats.Spec.Errors
