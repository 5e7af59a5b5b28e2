import BtmStats.Lib.BlockReader
import BtmStats.Spec.Wire.Binary

/-!
# `BtmStats.Spec.Wire.Blocks`: go-wire on a connection

The readers and writers of the vendored package `go-wire` again, as they meet a connection. A
writer hands its bytes over in pieces, one for each call of `Write`, so a written value is a list of
pieces. A reader asks for one block with each call of `ReadFull`, and may have to wait for it.
`Spec.Wire.Binary` has the same functions on a buffer, where neither can be seen.

A reader counts the bytes that it has read in `n`. After an error the source reads nothing any
more, so the reader ends with the first error.
-/

set_option autoImplicit false

namespace BtmStats.Spec.Wire.Blocks

open Lib Spec

/-- A reader of go-wire, with the counter `n`. -/
abbrev Prog (α : Type) := StateT Nat (BlockReader UInt8 Err) α

/-! ### Reading -/

/-- Fail with an error. -/
def failWith {α : Type} (e : Err) : Prog α := fun _ => .fail e

/-- `io.ReadFull`, in as many reads as it takes. -/
def readFull (k : Nat) : Prog (List UInt8) := fun n => do
  let buf ← BlockReader.block k
  return (buf, n + k)

def readByte : Prog UInt8 := do
  let buf ← readFull 1
  return buf.headD 0

/-- The case of a byte array in `readReflectBinary`. A whole block has the length of the array. -/
def readByteArray (k : Nat) : Prog (FixedBytes k) := do
  let buf ← readFull k
  return if h : buf.length = k then ⟨buf, h⟩ else .replicate k 0

/-- `ReadVarint` -/
def readVarint : Prog Int64 := do
  let size ← readByte
  let negate := size >>> 4 = 0x0f
  let size := if negate then size &&& 0x0f else size
  if 8 < size then failWith (RootErr.errorf "Varint overflow").err
  else if size = 0 then
    if negate then failWith (RootErr.errorf "Varint does not allow negative zero").err
    else return 0
  else
    let buf ← readFull size.toNat
    let i := Int64.ofNat (ofBytesBE buf)
    return if negate then -i else i

/-- `ReadByteSlice` -/
def readByteSlice (lmt : Nat) : Prog (List UInt8) := do
  let length ← readVarint
  let n ← get
  if length.toInt < 0 then failWith RootErr.binaryReadInvalidLength.err
  else if maxSliceLength < length.toInt then failWith RootErr.binaryReadOverflow.err
  else if lmt ≠ 0 ∧ lmt < max length.toInt.toNat (n + length.toInt.toNat) then
    failWith RootErr.binaryReadOverflow.err
  else readFull length.toInt.toNat

/-- The loop over the elements of a slice. The limit is checked after each of them. -/
def readElems {α : Type} (lmt : Nat) (read : Prog α) : Nat → Prog (List α)
  | 0 => return []
  | k + 1 => do
      let elem ← read
      let n ← get
      if lmt ≠ 0 ∧ lmt < n then failWith RootErr.binaryReadOverflow.err
      else
        let rest ← readElems lmt read k
        return elem :: rest

/-- The case of a slice in `readReflectBinary`. A negative length has no elements. -/
def readSlice {α : Type} (lmt : Nat) (read : Prog α) : Prog (List α) := do
  let length ← readVarint
  readElems lmt read length.toInt.toNat

/-- The case of a pointer in `readReflectBinary`. After the byte of nil the value stays what it
was. -/
def readPtr {α : Type} (zero : α) (read : Prog α) : Prog α := do
  let typeByte ← readByte
  if typeByte = 0x00 then return zero
  else if typeByte ≠ 0x01 then
    failWith (RootErr.errorf ("Unexpected type byte " ++ (hexDigits typeByte.toNat).toUpper ++
      " for ptr of untyped thing")).err
  else read

/-- `ReadBinary` and `ReadBinaryPtr`: the limit is checked at the end as well. -/
def readBinary {α : Type} (lmt : Nat) (read : Prog α) : Prog α := do
  let value ← read
  let n ← get
  if lmt ≠ 0 ∧ lmt < n then failWith RootErr.binaryReadOverflow.err else return value

/-! ### Writing -/

/-- The pieces of a value, in the order in which they are written. -/
abbrev Pieces := List (List UInt8)

/-- `WriteVarint`, in the writes that it makes. -/
def writeVarint (i : Int64) : Pieces :=
  let negate := i < 0
  let u := (if negate then -i else i).toUInt64
  let size := uvarintSize u
  [UInt8.ofNat (if negate then size + 0xf0 else size)] ::
    if 0 < size then [(toBytesBE 8 u.toNat).drop (8 - size)] else []

/-- `WriteByteSlice` -/
def writeByteSlice (bz : List UInt8) : Pieces := writeVarint (Int64.ofNat bz.length) ++ [bz]

/-- The case of a slice in `writeReflectBinary`. -/
def writeSlice {α : Type} (write : α → Pieces) (elems : List α) : Pieces :=
  writeVarint (Int64.ofNat elems.length) ++ elems.flatMap write

end BtmStats.Spec.Wire.Blocks
