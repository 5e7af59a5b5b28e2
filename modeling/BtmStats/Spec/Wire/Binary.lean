import BtmStats.Lib.BigEndian
import BtmStats.Lib.Scanner
import BtmStats.Spec.Errors

/-!
# `BtmStats.Spec.Wire.Binary`: the binary encoding of go-wire

The model of the vendored package `go-wire`, as far as the messages of the block synchronisation
use it: `ReadBinary` and `WriteBinary` of a registered interface whose types are structures of
`uint64`, byte arrays and byte slices. Reflection chooses the reader of each field by its type;
here the reader of a message is put together by hand, one line for each field.

The functions of the source share the reader, the counter `n` and the error `err` by pointers,
which are the cursor of `Lib.Scanner`. They go on after an error; `ReadFull` then reads nothing.
A writer to a buffer does not fail, so a written value is its bytes.
-/

set_option autoImplicit false

namespace BtmStats.Spec.Wire

open Lib Lib.Scanner Spec

/-- A go-wire read, with its count and its error. -/
abbrev Reader (α : Type) := Scanner UInt8 Err α

/-! ### Reading -/

/-- `ReadFull` of `k` bytes. What is missing stays zero. -/
def readFull (k : Nat) : Reader (FixedBytes k) :=
  unlessErr (.replicate k 0) fun n c =>
    if h : k ≤ c.input.length then
      (⟨c.input.take k, List.length_take_of_le h⟩, { c with input := c.input.drop k, n := n + k })
    else
      (⟨c.input ++ List.replicate (k - c.input.length) 0, by
          rw [List.length_append, List.length_replicate]
          omega⟩,
        ⟨[], n + c.input.length,
          some (if c.input.isEmpty then RootErr.eof.err else RootErr.unexpectedEOF.err)⟩)

/-- `ReadByte` -/
def readByte : Reader UInt8 := do
  let buf ← readFull 1
  return buf.1.headD 0

/-- `ReadUint64` -/
def readUint64 : Reader UInt64 := do
  let buf ← readFull 8
  return UInt64.ofNat (ofBytesBE buf.1)

/-- `ReadVarint`. The first byte has the number of the following bytes, and four bits for the
sign. -/
def readVarint : Reader Int64 := do
  let size ← readByte
  let negate := size >>> 4 = 0x0f
  let size := if negate then size &&& 0x0f else size
  if 8 < size then failFirst (RootErr.errorf "Varint overflow").err 0
  else if size = 0 then
    if negate then failFirst (RootErr.errorf "Varint does not allow negative zero").err 0
    else return 0
  else
    let buf ← readFull size.toNat
    -- `int(binary.BigEndian.Uint64(buf[:]))`
    let i := Int64.ofNat (ofBytesBE buf.1)
    return if negate then -i else i

/-- The limit of go-wire on the length of a slice. -/
def maxSliceLength : Int := 2 ^ 31 - 1

/-- `ReadByteSlice` -/
def readByteSlice (lmt : Nat) : Reader (List UInt8) := do
  let length ← readVarint
  unlessErr [] fun n =>
    if length.toInt < 0 then fail RootErr.binaryReadInvalidLength.err []
    else if maxSliceLength < length.toInt then fail RootErr.binaryReadOverflow.err []
    else if lmt ≠ 0 ∧ lmt < max length.toInt.toNat (n + length.toInt.toNat) then
      fail RootErr.binaryReadOverflow.err []
    else do
      let buf ← readFull length.toInt.toNat
      return buf.1

/-- The case of a byte array in `readReflectBinary`. After an error the array stays zero. -/
def readByteArray (k : Nat) : Reader (FixedBytes k) := do
  let buf ← readFull k
  unlessErr (.replicate k 0) fun _ => return buf

/-- The case of a registered interface in `readReflectBinary`. `byteToType` has the readers of its
types, and `name` is the name of the interface. Nil is `none`. -/
def readInterface {α : Type} (name : String) (byteToType : UInt8 → Option (Reader α)) :
    Reader (Option α) := do
  let typeByte ← readByte
  unlessErr none fun _ =>
    if typeByte = 0x00 then return none
    else
      match byteToType typeByte with
      | none => fail (RootErr.errorf ("Unexpected type byte " ++
          (hexDigits typeByte.toNat).toUpper ++ " for type " ++ name)).err none
      | some read => do
          let value ← read
          return some value

/-- `ReadBinary` -/
def readBinary {α : Type} (lmt : Nat) (read : Reader α) : Reader α :=
  limited lmt RootErr.binaryReadOverflow.err read

/-! ### Writing -/

/-- `uvarintSize` -/
def uvarintSize (i : UInt64) : Nat :=
  if i = 0 then 0
  else if i.toNat < 2 ^ 8 then 1
  else if i.toNat < 2 ^ 16 then 2
  else if i.toNat < 2 ^ 24 then 3
  else if i.toNat < 2 ^ 32 then 4
  else if i.toNat < 2 ^ 40 then 5
  else if i.toNat < 2 ^ 48 then 6
  else if i.toNat < 2 ^ 56 then 7
  else 8

def writeUint64 (i : UInt64) : List UInt8 := toBytesBE 8 i.toNat

/-- `WriteVarint`: a sign and size byte, and the bytes of the number. -/
def writeVarint (i : Int64) : List UInt8 :=
  let negate := i < 0
  let u := (if negate then -i else i).toUInt64
  let size := uvarintSize u
  UInt8.ofNat (if negate then size + 0xf0 else size) :: (toBytesBE 8 u.toNat).drop (8 - size)

/-- `WriteByteSlice` -/
def writeByteSlice (bz : List UInt8) : List UInt8 := writeVarint (Int64.ofNat bz.length) ++ bz

/-! ### Slices and pointers

More cases of `readReflectBinary` and `writeReflectBinary`, for the messages of the peer exchange:
`uint16`, a pointer, and a slice of anything but bytes. The reader of an element is a parameter.
-/

def readUint16 : Reader UInt16 := do
  let buf ← readFull 2
  return UInt16.ofNat (ofBytesBE buf.1)

def writeUint16 (i : UInt16) : List UInt8 := toBytesBE 2 i.toNat

/-- The case of a pointer. Nil is `none`. -/
def readPointer {α : Type} (read : Reader α) : Reader (Option α) := do
  let typeByte ← readByte
  unlessErr none fun _ =>
    if typeByte = 0x00 then return none
    else if typeByte ≠ 0x01 then
      fail (RootErr.errorf ("Unexpected type byte " ++ (hexDigits typeByte.toNat).toUpper ++
        " for ptr of untyped thing")).err none
    else do
      let value ← read
      return some value

/-- A pointer: a byte, and what it points to. -/
def writePointer {α : Type} (write : α → List UInt8) : Option α → List UInt8
  | none => [0x00]
  | some value => 0x01 :: write value

/-- The loops over the elements of a slice. An error drops what was read before. -/
def readElements {α : Type} (lmt : Nat) (read : Reader α) : Nat → Reader (List α)
  | 0 => return []
  | k + 1 => do
      let elem ← read
      unlessErr [] fun n =>
        if lmt ≠ 0 ∧ lmt < n then fail RootErr.binaryReadOverflow.err []
        else do
          let rest ← readElements lmt read k
          return elem :: rest

/-- The case of a slice. A negative length gives no elements. -/
def readSliceOf {α : Type} (lmt : Nat) (read : Reader α) : Reader (List α) := do
  let length ← readVarint
  readElements lmt read length.toInt.toNat

/-- A slice: its length and its elements. -/
def writeSliceOf {α : Type} (write : α → List UInt8) (elems : List α) : List UInt8 :=
  writeVarint (Int64.ofNat elems.length) ++ elems.flatMap write

end BtmStats.Spec.Wire
