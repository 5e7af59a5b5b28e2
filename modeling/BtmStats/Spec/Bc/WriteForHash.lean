import BtmStats.Spec.Bc.Entry
import BtmStats.Spec.Encoding.Blockchain
import BtmStats.Spec.Runtime

/-!
# `BtmStats.Spec.Bc.WriteForHash`: the bytes that are hashed for a value

The model of `writeForHash` (`protocol/bc/entry.go`) and of `ComputeAssetID`
(`protocol/bc/asset.go`). `writeForHash` inspects its argument by reflection, so
its domain is a type `GoValue` of Go values with the cases that the function tells
apart.
-/

set_option autoImplicit false

namespace BtmStats.Spec.Bc

open Lib Spec.Blockchain

/-- A Go value as `writeForHash` sees it. -/
inductive GoValue where
  | byte (v : UInt8)
  | uint64 (v : UInt64)
  | bytes (v : List UInt8)
  | byteSlices (v : List (List UInt8))
  | string (v : Str)
  | hashPtr (v : Option Hash)
  | assetIDPtr (v : Option AssetID)
  | hash (v : Hash)
  | assetID (v : AssetID)
  /-- any other pointer -/
  | ptr (v : Option GoValue)
  /-- any other slice -/
  | slice (v : List GoValue)
  /-- a struct: its type name, and for each field the name, the value, and whether
  the field is exported -/
  | struct (typ : String) (fields : List (String × Bool × GoValue))
  /-- a value of a type that the function refuses -/
  | other (typ : String)

/-- `binary.LittleEndian.PutUint64`. -/
def putUint64LE (v : UInt64) : List UInt8 := (toBytesBE 8 v.toNat).reverse

mutual

/-- `writeForHash`, by the kind of the value. -/
def writeForHash : GoValue → Written
  | .byte v => .ok [v]
  | .uint64 v => .ok (putUint64LE v)
  | .bytes v => (writeVarstr31 v).wrap s!"writing []byte (len {v.length}) for hash"
  | .byteSlices v => (writeVarstrList v).wrap s!"writing [][]byte (len {v.length}) for hash"
  | .string v => (writeVarstr31 v).wrap s!"writing string (len {v.length}) for hash"
  | .hashPtr none => .ok (List.replicate 32 0)
  | .hashPtr (some v) => .ok v.bytes
  | .assetIDPtr none => .ok (List.replicate 32 0)
  | .assetIDPtr (some v) => .ok v.bytes
  | .hash v => .ok v.bytes
  | .assetID v => .ok v.bytes
  | .ptr none => .ok []
  | .ptr (some v) => writeForHash v
  | .slice v =>
    ((writeVarint31 v.length).wrap s!"writing slice (len {v.length}) for hash").andThen
      (writeElements 0 v)
  | .struct typ fields => writeFields typ 0 fields
  -- The wrapper of this error has no context text.
  | .other typ => ([], some (RootErr.errorf ("bad type " ++ typ)).err)

/-- The loop over the elements of a slice, from element `i` on. -/
def writeElements (i : Nat) : List GoValue → Written
  | [] => .ok []
  | v :: rest =>
    ((writeForHash v).wrap s!"writing slice element {i} for hash").andThen
      (writeElements (i + 1) rest)

/-- The loop over the fields of a struct, from field `i` on. -/
def writeFields (typ : String) (i : Nat) : List (String × Bool × GoValue) → Written
  | [] => .ok []
  | (name, exported, v) :: rest =>
    if exported then
      ((writeForHash v).wrap s!"writing struct field {i} ({typ}.{name}) for hash").andThen
        (writeFields typ (i + 1) rest)
    else ([], some RootErr.errInvalidValue.err)

end

def Program.goValue (p : Program) : GoValue :=
  .struct "Program" [("VmVersion", true, .uint64 p.vmVersion), ("Code", true, .bytes p.code)]

def AssetDefinition.goValue (ad : AssetDefinition) : GoValue :=
  .struct "AssetDefinition"
    [("IssuanceProgram", true, .ptr (ad.issuanceProgram.map Program.goValue)),
      ("Data", true, .hashPtr ad.data)]

section
variable (sha3 : List UInt8 → FixedBytes 32)

/-- `AssetDefinition.ComputeAssetID`. The error of `writeForHash` is dropped, and
whatever was written is hashed. -/
def AssetDefinition.computeAssetID (ad : AssetDefinition) : AssetID :=
  newAssetID (sha3 (writeForHash ad.goValue).1)

/-- `ComputeAssetID`: the hash of what `writeForHash` writes. -/
def computeAssetID (prog : List UInt8) (vmVersion : UInt64) (data : Hash) : AssetID :=
  AssetDefinition.computeAssetID sha3 ⟨some ⟨vmVersion, prog⟩, some data⟩

end

end BtmStats.Spec.Bc
