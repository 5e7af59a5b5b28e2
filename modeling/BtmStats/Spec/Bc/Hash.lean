import BtmStats.Lib.BigEndian
import BtmStats.Spec.Encoding.Hex

/-!
# `BtmStats.Spec.Bc.Hash`: hashes and asset IDs

The model of `protocol/bc/hash.go` and of the asset ID wrappers in
`protocol/bc/asset.go`. A `Hash` is four `uint64` words, and its byte form is the
four words in big-endian order.
-/

set_option autoImplicit false

namespace BtmStats.Spec.Bc

open Lib

/-- `binary.BigEndian.Uint64`: the first eight bytes. -/
def uint64BE (b : List UInt8) : UInt64 := UInt64.ofNat (ofBytesBE (b.take 8))

/-- `binary.BigEndian.PutUint64`. -/
def putUint64BE (v : UInt64) : List UInt8 := toBytesBE 8 v.toNat

/-- `bc.Hash`: 32 bytes as four words. -/
structure Hash where
  v0 : UInt64
  v1 : UInt64
  v2 : UInt64
  v3 : UInt64
  deriving DecidableEq, Repr, Inhabited

/-- `NewHash`: the words of the bytes, big-endian. -/
def newHash (b32 : FixedBytes 32) : Hash :=
  { v0 := uint64BE b32.1
    v1 := uint64BE (b32.1.drop 8)
    v2 := uint64BE (b32.1.drop 16)
    v3 := uint64BE (b32.1.drop 24) }

/-- `Byte32` -/
def Hash.byte32 (h : Hash) : FixedBytes 32 :=
  ⟨putUint64BE h.v0 ++ putUint64BE h.v1 ++ putUint64BE h.v2 ++ putUint64BE h.v3, by
    simp [putUint64BE]⟩

/-- `Hash.Bytes`, which is also what `Hash.WriteTo` writes. -/
def Hash.bytes (h : Hash) : List UInt8 := h.byte32.1

/-- The zero value of a hash. -/
def Hash.zero : Hash := ⟨0, 0, 0, 0⟩

/-- `AssetID`: the same four words as a `Hash`, at a type of its own. -/
structure AssetID where
  hash : Hash
  deriving DecidableEq, Repr, Inhabited

def newAssetID (b : FixedBytes 32) : AssetID := ⟨newHash b⟩

def AssetID.bytes (a : AssetID) : List UInt8 := a.hash.bytes

/-! ### Texts

The model of `MarshalText` and `UnmarshalText` in `protocol/bc/hash.go`, and of the same
methods of `AssetID` in `protocol/bc/asset.go`, which convert the receiver. A method that
fills a receiver returns it, also with an error. `UnmarshalJSON` is left out: it calls
`UnmarshalText` with the text that `json.Unmarshal` returned.
-/

open Spec

/-- `Hash.MarshalText`, which never returns an error. -/
def Hash.marshalText (h : Hash) : List UInt8 := Hex.encode h.byte32.1

/-- An array of `n` zero bytes after `bytes` were stored at its front. -/
def storeFront (n : Nat) (bytes : List UInt8) : FixedBytes n :=
  ⟨(bytes ++ List.replicate n 0).take n, by simp⟩

/-- `Hash.UnmarshalText`. The receiver is set although `hex.Decode` failed. -/
def Hash.unmarshalText (h : Hash) (v : List UInt8) : Hash × Option Err :=
  if v.length ≠ 64 then
    (h, some (RootErr.errorf ("bad length hash string " ++ toString v.length)).err)
  else
    let (b, err) := Hex.decode v
    (newHash (storeFront 32 b), err)

/-- `AssetID.MarshalText` -/
def AssetID.marshalText (a : AssetID) : List UInt8 := a.hash.marshalText

/-- `AssetID.UnmarshalText` -/
def AssetID.unmarshalText (a : AssetID) (v : List UInt8) : AssetID × Option Err :=
  let (hash, err) := a.hash.unmarshalText v
  (⟨hash⟩, err)

end BtmStats.Spec.Bc
