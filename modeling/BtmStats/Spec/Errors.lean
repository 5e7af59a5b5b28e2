import Mathlib.Data.String.Basic

/-!
# `BtmStats.Spec.Errors`: error values

An error of the modelled code is a root and a message. `Wrap` of the `errors`
package keeps the root and puts a context text in front of the message. The stack
trace, the details and the data items of a wrapped error are left out: no modelled
function reads them.
-/

set_option autoImplicit false

namespace BtmStats.Spec

/-- The errors that the modelled functions create. -/
inductive RootErr where
  /-- `io.EOF` -/
  | eof
  /-- `io.ErrUnexpectedEOF` -/
  | unexpectedEOF
  /-- the overflow error of `binary.ReadUvarint` -/
  | varintOverflow
  /-- `blockchain.ErrRange` -/
  | errRange
  /-- `types.errBadAssetID` -/
  | errBadAssetID
  /-- `bc.errInvalidValue` -/
  | errInvalidValue
  /-- `hex.ErrLength` -/
  | hexLength
  /-- `hex.InvalidByteError` -/
  | hexInvalidByte (b : UInt8)
  /-- `wire.ErrBinaryReadOverflow` -/
  | binaryReadOverflow
  /-- `wire.ErrBinaryReadInvalidLength` -/
  | binaryReadInvalidLength
  /-- `p2p.ErrDuplicatePeer` -/
  | errDuplicatePeer
  /-- `p2p.ErrConnectSelf` -/
  | errConnectSelf
  /-- `p2p.ErrConnectBannedPeer` -/
  | errConnectBannedPeer
  /-- an error made by `fmt.Errorf` or `errors.New` at its place of use -/
  | errorf (text : String)
  deriving DecidableEq, Repr

/-- The lower-case hexadecimal digits of a number, without leading zeros. -/
def hexDigits (n : Nat) : String := String.ofList (Nat.toDigits 16 n)

/-- The verb `%#U` on a byte: the code point in four upper-case digits, followed by
the character when `strconv.IsPrint` accepts it. -/
def formatRune (b : UInt8) : String :=
  let digits := (hexDigits b.toNat).toUpper
  let code := "U+" ++ String.ofList (List.replicate (4 - digits.length) '0') ++ digits
  let printable := (0x20 ≤ b ∧ b ≤ 0x7e) ∨ (0xa1 ≤ b ∧ b ≠ 0xad)
  if printable then code ++ " '" ++ String.singleton (Char.ofNat b.toNat) ++ "'" else code

/-- The text of an error that is not wrapped. -/
def RootErr.text : RootErr → String
  | .eof => "EOF"
  | .unexpectedEOF => "unexpected EOF"
  | .varintOverflow => "binary: varint overflows a 64-bit integer"
  | .errRange => "value out of range"
  | .errBadAssetID => "asset ID does not match other issuance parameters"
  | .errInvalidValue => "invalid value"
  | .hexLength => "encoding/hex: odd length hex string"
  | .hexInvalidByte b => "encoding/hex: invalid byte: " ++ formatRune b
  | .binaryReadOverflow => "Error: binary read overflow"
  | .binaryReadInvalidLength => "Error: binary read invalid length"
  | .errDuplicatePeer => "Duplicate peer"
  | .errConnectSelf => "Connect self"
  | .errConnectBannedPeer => "Connect banned peer"
  | .errorf text => text

/-- An error: its root and its message. -/
structure Err where
  root : RootErr
  msg : String
  deriving DecidableEq, Repr

/-- An error that is not wrapped. -/
def RootErr.err (r : RootErr) : Err := ⟨r, r.text⟩

/-- `errors.Wrap` and `errors.Wrapf` with the formatted text. -/
def Err.wrap (e : Err) (msg : String) : Err :=
  if msg ≠ "" then { e with msg := msg ++ ": " ++ e.msg } else e

/-- Wrapping keeps the root. -/
@[simp] theorem Err.root_wrap (e : Err) (msg : String) : (e.wrap msg).root = e.root := by
  unfold Err.wrap
  split <;> rfl

/-! ### Writers

An `io.Writer` is a function on its state that returns the number of bytes written and an
error.
-/

/-- `io.Writer.Write` -/
abbrev IoWriter (σ : Type) := σ → List UInt8 → σ × Nat × Option Err

/-- `bytes.Buffer.Write` -/
def bufferWrite : IoWriter (List UInt8) := fun buf p => (buf ++ p, p.length, none)

end BtmStats.Spec
