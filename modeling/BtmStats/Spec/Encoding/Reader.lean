import BtmStats.Lib.Window
import BtmStats.Spec.Encoding.Blockchain

/-!
# `BtmStats.Spec.Encoding.Reader`: readers over a shared array

A `blockchain.Reader` does not copy the bytes that it is given. Its field `buf` is a slice
of them, and reading moves the start of the slice. `ReadVarstr31` returns a part of the same
array, and `ReadExtensibleString` makes a second reader over that part. So a reader is a
window of an array here (`Lib.Window`), and nothing but the window keeps the second reader
from the bytes behind its own.

A function that is given a reader uses it through `Len`, `ReadByte`, `Read`, and the
functions of the package, which slice `buf` after a comparison with its length. Such a
function is a `Decoder`: what it asks of the reader, and how it goes on for each answer. It
terminates on every reader; one that loops until the end of its input asks for the length
first. `Decoder.exec` runs it on a window and records the positions of the array that were
read. `Decoder.onList` runs it on the bytes alone.
-/

set_option autoImplicit false

namespace BtmStats.Spec.Blockchain

open Lib

/-- A function with a reader. -/
inductive Decoder (α : Type) where
  /-- Return a value or an error. -/
  | done (result : Except Err α)
  /-- `Reader.Len` -/
  | len (next : Nat → Decoder α)
  /-- `Reader.ReadByte`, `none` for `io.EOF` -/
  | readByte (next : Option UInt8 → Decoder α)
  /-- `Reader.Read` into `n` bytes: the bytes copied, and the error -/
  | read (n : Nat) (next : List UInt8 × Option RootErr → Decoder α)
  /-- `buf[:l]` and `buf[l:]`, `none` when `l` is larger than `len(buf)` -/
  | cut (l : Nat) (next : Option (List UInt8) → Decoder α)

namespace Decoder
variable {α : Type}

/-- Run a function on the unread bytes: its result, and the bytes that it left unread. -/
def onList : Decoder α → List UInt8 → Except Err α × List UInt8
  | .done result, b => (result, b)
  | .len next, b => (next b.length).onList b
  | .readByte next, b => (next b.head?).onList (b.drop 1)
  | .read n next, b => (next (Blockchain.read n b).1).onList (Blockchain.read n b).2
  | .cut l next, b =>
    if l ≤ b.length then (next (some (b.take l))).onList (b.drop l) else (next none).onList b

/-- The function as a read of `Spec.Encoding.Blockchain`. -/
def toReaderM (f : Decoder α) : ReaderM α := fun b =>
  match f.onList b with
  | (.ok a, r) => .ok (a, r)
  | (.error err, _) => .error err

/-- What a run of a function leaves: its result, the reader, and the positions of the array
that the reader read. -/
structure Run (mem : List UInt8) (α : Type) where
  result : Except Err α
  reader : Window mem
  seen : List Nat

variable {mem : List UInt8}

/-- Go on after reading the first `n` bytes. -/
def Run.after (r : Window mem) (n : Nat) (h : n ≤ r.len) (run : Run mem α) : Run mem α :=
  { run with seen := (r.front n h).positions ++ run.seen }

/-- Run a function on a reader. -/
def exec : Decoder α → Window mem → Run mem α
  | .done result, r => ⟨result, r, []⟩
  | .len next, r => (next r.len).exec r
  | .readByte next, r =>
    if h : 1 ≤ r.len then .after r 1 h ((next mem[r.lo]?).exec (r.rest 1 h))
    else (next none).exec r
  | .read n next, r =>
    have h : min n r.len ≤ r.len := Nat.min_le_right _ _
    let rest := r.rest (min n r.len) h
    -- `Read` reports the end together with the last bytes.
    let err := if rest.len = 0 then some .eof else none
    .after r _ h ((next ((r.front _ h).items, err)).exec rest)
  | .cut l next, r =>
    if h : l ≤ r.len then .after r l h ((next (some (r.front l h).items)).exec (r.rest l h))
    else (next none).exec r

end Decoder

namespace Reader
variable {mem : List UInt8} {α : Type}

/-- The loop of `binary.ReadUvarint` over `ReadByte`. -/
def readUvarintLoop (r : Window mem) (i x : Nat) : Except Err (Nat × Window mem) :=
  if h : 1 ≤ r.len then
    match mem[r.lo]? with
    | none => .error RootErr.eof.err
    | some b =>
      if b < 0x80 then
        if i > 9 ∨ (i = 9 ∧ b > 1) then .error RootErr.varintOverflow.err
        else .ok (x + b.toNat * 128 ^ i, r.rest 1 h)
      else readUvarintLoop (r.rest 1 h) (i + 1) (x + b.toNat % 128 * 128 ^ i)
  else .error RootErr.eof.err
termination_by r.len
decreasing_by
  rw [Window.len_rest]
  omega

/-- `binary.ReadUvarint` on a reader. -/
def readUvarint (r : Window mem) : Except Err (Nat × Window mem) := readUvarintLoop r 0 0

/-- `ReadVarint31` on a reader. -/
def readVarint31 (r : Window mem) : Except Err (Nat × Window mem) := do
  let (val, r) ← readUvarint r
  if val > maxInt32 then .error RootErr.errRange.err else .ok (val, r)

/-- `ReadVarstr31`: the string as a part of the array, and the reader after it. The `nil` of
an empty string is an empty window. -/
def readVarstr31 (r : Window mem) : Except Err (Window mem × Window mem) := do
  let (l, r) ← readVarint31 r
  if h : l ≤ r.len then .ok (r.front l h, r.rest l h) else .error RootErr.unexpectedEOF.err

/-- `ReadExtensibleString`: the value that `f` read, the suffix as a part of the array, and the
reader after it. -/
def readExtensibleString (f : Decoder α) (r : Window mem) :
    Except Err ((α × Window mem) × Window mem) := do
  let (s, r) ← readVarstr31 r
  let run := f.exec s
  match run.result with
  | .ok a => .ok ((a, run.reader), r)
  | .error err => .error err

/-- The positions of the array that `f` reads during `ReadExtensibleString`. -/
def seenByDecoder (f : Decoder α) (r : Window mem) : List Nat :=
  match readVarstr31 r with
  | .ok (s, _) => (f.exec s).seen
  | .error _ => []

end Reader

end BtmStats.Spec.Blockchain
