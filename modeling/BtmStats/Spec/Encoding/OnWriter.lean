import BtmStats.Lib.CountedWriter
import BtmStats.Spec.Bc.Entry
import BtmStats.Spec.Encoding.Blockchain
import BtmStats.Spec.Runtime

/-!
# `BtmStats.Spec.Encoding.OnWriter`: the writers of the encodings, call by call

The writing side of `encoding/blockchain/blockchain.go` and of `WriteTo` in
`protocol/bc/hash.go` and `protocol/bc/asset.go`, over any `io.Writer`. Each function
returns the number of bytes that its calls of `Write` reported, and the error.

`WriteVarint31` and `WriteVarint63` fill an array of nine bytes from a pool. The pool does
not clear it, so its contents are a parameter. `binary.PutUvarint` stores digit after digit
and panics when it reaches the end of the array.

`Spec.Encoding.Blockchain` has the same functions as the bytes that they write.
-/

set_option autoImplicit false

namespace BtmStats.Spec.Blockchain.OnWriter

open Lib Spec

/-- `binary.PutUvarint`: the buffer after it, and the number of bytes stored. -/
def putUvarint : List UInt8 → UInt64 → Except Panic (List UInt8 × Nat)
  | [], _ => .error .indexOutOfRange
  | _ :: buf, x =>
    if x < 0x80 then .ok (x.toUInt8 :: buf, 1)
    else do
      let (buf, n) ← putUvarint buf (x >>> 7)
      .ok ((x.toUInt8 ||| 0x80) :: buf, n + 1)

section
variable {σ : Type} (under : IoWriter σ)

/-- `WriteVarint31` and `WriteVarint63` differ in the bound. `pooled` is the array from
`bufPool`. -/
def writeVarint (bound : Nat) (pooled : FixedBytes 9) (val : UInt64) :
    WriteProc Panic Err σ := fun w =>
  if val.toNat > bound then .ok (w, 0, some RootErr.errRange.err)
  else do
    let (buf, n) ← putUvarint pooled.1 val
    .ok (under w (buf.take n))

def writeVarint31 : FixedBytes 9 → UInt64 → WriteProc Panic Err σ := writeVarint under maxInt32

def writeVarint63 : FixedBytes 9 → UInt64 → WriteProc Panic Err σ := writeVarint under maxInt64

def writeVarstr31 (pooled : FixedBytes 9) (str : List UInt8) : WriteProc Panic Err σ :=
  (writeVarint31 under pooled (UInt64.ofNat str.length)).andThen fun w => .ok (under w str)

/-- `WriteVarstrList`. Each call of `WriteVarint31` takes an array from the pool: the string
with `k` strings behind it takes `pool k`, the count takes `pool l.length`. -/
def writeVarstrList (pool : Nat → FixedBytes 9) (l : List (List UInt8)) : WriteProc Panic Err σ :=
  (writeVarint31 under (pool l.length) (UInt64.ofNat l.length)).andThen
    (.each (fun k s => writeVarstr31 under (pool k) s) l)

/-- `WriteExtensibleString`. `f` is what the closure writes to the empty buffer and the
error that it returns. -/
def writeExtensibleString (pooled : FixedBytes 9) (suffix : List UInt8) (f : Written) :
    WriteProc Panic Err σ := fun w =>
  match f with
  | (_, some err) => .ok (w, 0, some err)
  | (buf, none) =>
    let buf := if suffix.length > 0 then buf ++ suffix else buf
    writeVarstr31 under pooled buf w

end

end BtmStats.Spec.Blockchain.OnWriter

namespace BtmStats.Spec.Bc

open Lib Spec

variable {σ : Type} (under : IoWriter σ)

def Hash.writeTo (h : Hash) : WriteProc Panic Err σ := fun w => .ok (under w h.bytes)

def AssetID.writeTo (a : AssetID) : WriteProc Panic Err σ := a.hash.writeTo under

/-- `AssetAmount.WriteTo`. The method of a nil `AssetId` panics. -/
def AssetAmount.writeTo (pooled : FixedBytes 9) (a : AssetAmount) : WriteProc Panic Err σ :=
  match a.assetId with
  | none => fun _ => .error .nilDereference
  | some assetID =>
    (assetID.writeTo under).andThen (Blockchain.OnWriter.writeVarint63 under pooled a.amount)

end BtmStats.Spec.Bc
