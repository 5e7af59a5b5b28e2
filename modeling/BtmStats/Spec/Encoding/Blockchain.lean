import BtmStats.Lib.BigEndian
import BtmStats.Lib.PrefixParser
import BtmStats.Spec.Errors

/-!
# `BtmStats.Spec.Encoding.Blockchain`: the primitive encodings

The model of `encoding/blockchain/blockchain.go`. A `Reader` is its unread bytes,
and a read is a `Parser`: it takes bytes from the front or fails. After a failed
read the callers return, so the bytes that it took are left out.

A writer is the bytes that it wrote and its error, if there is one
(`Written`). A failed write can leave bytes behind.

`binary.ReadUvarint` and `binary.PutUvarint` are the base-128 little-endian coding
of 64-bit values.
-/

set_option autoImplicit false

namespace BtmStats.Spec.Blockchain

open Lib

/-- `math.MaxInt32` and `math.MaxInt64`. -/
def maxInt32 : Nat := 2 ^ 31 - 1

def maxInt64 : Nat := 2 ^ 63 - 1

/-- A read from a `blockchain.Reader`. -/
abbrev ReaderM := Parser UInt8 Err

/-- Fail with an error that is not wrapped. -/
def fail {α : Type} (e : RootErr) : ReaderM α := throw e.err

/-- `errors.Wrap(err, msg)` around a read. -/
def wrapErr {α : Type} (msg : String) (p : ReaderM α) : ReaderM α :=
  mapError (fun e => e.wrap msg) p

/-- `Reader.Read`: copy what fits, and report `io.EOF` as soon as nothing is left
unread, also when bytes were copied. -/
def read (n : Nat) (r : List UInt8) : (List UInt8 × Option RootErr) × List UInt8 :=
  ((r.take n, if r.drop n = [] then some .eof else none), r.drop n)

/-- `io.ReadFull` over `Reader.Read`. The error of a `Read` that filled the buffer
is dropped. A short `Read` comes with `io.EOF`, so there is no second call. -/
def readFull (n : Nat) : ReaderM (FixedBytes n) := fun r =>
  let got := (read n r).1.1
  if h : got.length = n then .ok (⟨got, h⟩, (read n r).2)
  else if got = [] then .error RootErr.eof.err
  else .error RootErr.unexpectedEOF.err

/-- The loop of `binary.ReadUvarint` as in the Go releases before 1.15, of the time of the
repository: `i` bytes are read, with value `x`. The end of the bytes is always `io.EOF` (later
releases return `io.ErrUnexpectedEOF` after a first byte), and a long encoding is read to its
last byte before the overflow is reported (later releases stop after ten bytes). -/
def readUvarintLoop : List UInt8 → Nat → Nat → Except Err (Nat × List UInt8)
  | [], _, _ => .error RootErr.eof.err
  | b :: r, i, x =>
    if b < 0x80 then
      if i > 9 ∨ (i = 9 ∧ b > 1) then .error RootErr.varintOverflow.err
      else .ok (x + b.toNat * 128 ^ i, r)
    else readUvarintLoop r (i + 1) (x + b.toNat % 128 * 128 ^ i)

/-- `binary.ReadUvarint` -/
def readUvarint : ReaderM Nat := fun r => readUvarintLoop r 0 0

/-- `ReadVarint31` -/
def readVarint31 : ReaderM Nat := do
  let val ← readUvarint
  if val > maxInt32 then fail .errRange else pure val

/-- `ReadVarint63` -/
def readVarint63 : ReaderM UInt64 := do
  let val ← readUvarint
  if val > maxInt64 then fail .errRange else pure (UInt64.ofNat val)

/-- The end of `ReadVarstr31`: cut `l` bytes off the buffer. -/
def cut (l : Nat) : ReaderM (List UInt8) := fun r =>
  if l > r.length then .error RootErr.unexpectedEOF.err else .ok (r.take l, r.drop l)

/-- `ReadVarstr31`: a length and as many bytes. -/
def readVarstr31 : ReaderM (List UInt8) := do
  let l ← readVarint31
  if l = 0 then pure [] else cut l

/-- The loop of `ReadVarstrList`: `nelts` strings are left to read. A failed read
ends the loop. Its empty string has been appended, and `nelts` counts it as
read. -/
def readVarstrListLoop : Nat → List (List UInt8) → List UInt8 →
    List (List UInt8) × Except Err (List UInt8)
  | 0, result, r => (result, .ok r)
  | nelts + 1, result, r =>
    match readVarstr31.run r with
    | .ok (s, r) => readVarstrListLoop nelts (result ++ [s]) r
    | .error err =>
      let result := result ++ [[]]
      (result, .error (if result.length < nelts then RootErr.unexpectedEOF.err else err))

/-- `ReadVarstrList`: the strings, and the rest of the reader or an error. -/
def readVarstrList (r : List UInt8) : List (List UInt8) × Except Err (List UInt8) :=
  match readVarint31.run r with
  | .error err => ([], .error err)
  | .ok (nelts, r) => if nelts = 0 then ([], .ok r) else readVarstrListLoop nelts [] r

/-- `ReadVarstrList` for the callers that use the strings only without an error. -/
def readVarstrListM : ReaderM (List (List UInt8)) := fun r =>
  match readVarstrList r with
  | (result, .ok r) => .ok (result, r)
  | (_, .error err) => .error err

/-- `ReadExtensibleString`: the value that `f` read from the string, and the part
of the string that it did not consume. -/
def readExtensibleString {α : Type} (f : ReaderM α) : ReaderM (α × List UInt8) := do
  let s ← readVarstr31
  within f s

/-! ### Writers -/

/-- The bytes that a writer wrote, and its error. -/
abbrev Written := List UInt8 × Option Err

/-- A write that succeeded. -/
def Written.ok (b : List UInt8) : Written := (b, none)

/-- The next write happens only without an error. -/
def Written.andThen (w next : Written) : Written :=
  match w.2 with
  | some _ => w
  | none => (w.1 ++ next.1, next.2)

/-- `errors.Wrap(err, msg)` around a write. -/
def Written.wrap (w : Written) (msg : String) : Written := (w.1, w.2.map fun e => e.wrap msg)

/-- `binary.PutUvarint`, the shortest encoding. -/
def putUvarint (x : Nat) : List UInt8 :=
  if x < 0x80 then [UInt8.ofNat x] else UInt8.ofNat (x % 128 + 128) :: putUvarint (x / 128)
termination_by x
decreasing_by omega

/-- `WriteVarint31` -/
def writeVarint31 (val : Nat) : Written :=
  if val > maxInt32 then ([], some RootErr.errRange.err) else .ok (putUvarint val)

/-- `WriteVarint63` -/
def writeVarint63 (val : Nat) : Written :=
  if val > maxInt64 then ([], some RootErr.errRange.err) else .ok (putUvarint val)

/-- `WriteVarstr31` -/
def writeVarstr31 (str : List UInt8) : Written :=
  (writeVarint31 str.length).andThen (.ok str)

/-- `WriteVarstrList` -/
def writeVarstrList (l : List (List UInt8)) : Written :=
  l.foldl (fun w s => w.andThen (writeVarstr31 s)) (writeVarint31 l.length)

/-! ### Lists of strings

`ReadVarstrList` counts the declared number down, appends the string of a failed read as
well, and compares the number of strings with the counter after the loop. Here the loop has
the variables of the source: `nelts`, `err`, `result` and the reader. `reads` counts the
calls of `ReadVarstr31`.

`readVarstrList` above is the same function without the counter.
-/

/-- The variables of `ReadVarstrList`, and the number of reads. -/
structure VarstrListState where
  nelts : Nat
  err : Option Err
  result : List (List UInt8)
  buf : List UInt8
  reads : Nat

namespace VarstrListState

/-- One iteration. A failed read leaves the empty string `nil` in `s`. -/
def step (st : VarstrListState) : VarstrListState :=
  match readVarstr31.run st.buf with
  | .ok (s, buf) => ⟨st.nelts - 1, none, st.result ++ [s], buf, st.reads + 1⟩
  | .error err => ⟨st.nelts - 1, some err, st.result ++ [[]], st.buf, st.reads + 1⟩

theorem nelts_step (st : VarstrListState) : st.step.nelts = st.nelts - 1 := by
  rw [step]
  split <;> rfl

/-- `for ; nelts > 0 && err == nil; nelts--` -/
def loop (st : VarstrListState) : VarstrListState :=
  if 0 < st.nelts ∧ st.err.isNone then loop st.step else st
termination_by st.nelts
decreasing_by
  rw [nelts_step]
  omega

/-- The test after the loop. -/
def finish (st : VarstrListState) : VarstrListState :=
  if st.result.length < st.nelts then { st with err := some RootErr.unexpectedEOF.err } else st

/-- The results of the function, and the rest of the reader. -/
def outcome (st : VarstrListState) : List (List UInt8) × Except Err (List UInt8) :=
  match st.err with
  | none => (st.result, .ok st.buf)
  | some err => (st.result, .error err)

end VarstrListState

/-- `ReadVarstrList` with all its variables. -/
def readVarstrListState (b : List UInt8) : VarstrListState :=
  match readVarint31.run b with
  | .error err => ⟨0, some err, [], b, 0⟩
  | .ok (nelts, r) =>
    if nelts = 0 then ⟨0, none, [], r, 0⟩
    else (VarstrListState.loop ⟨nelts, none, [], r, 0⟩).finish

end BtmStats.Spec.Blockchain
