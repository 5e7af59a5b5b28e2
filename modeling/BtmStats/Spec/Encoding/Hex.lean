import BtmStats.Spec.Errors

/-!
# `BtmStats.Spec.Encoding.Hex`: hexadecimal text

The functions of `encoding/hex` that the text forms of blocks use, and the verb `%X` of
`fmt`. `Decode` reads its input in pairs of characters. An odd character at the end is
checked before the length is reported.
-/

set_option autoImplicit false

namespace BtmStats.Spec.Hex

/-- `fromHexChar`: digits of both cases. -/
def fromHexChar (c : UInt8) : Option UInt8 :=
  if 0x30 ≤ c ∧ c ≤ 0x39 then some (c - 0x30)
  else if 0x61 ≤ c ∧ c ≤ 0x66 then some (c - 0x61 + 10)
  else if 0x41 ≤ c ∧ c ≤ 0x46 then some (c - 0x41 + 10)
  else none

/-- `hex.Decode` into a destination of the decoded length: the bytes, or the bytes
before the error together with the error. -/
def decode : List UInt8 → List UInt8 × Option Err
  | [] => ([], none)
  | [c] =>
    match fromHexChar c with
    | none => ([], some (RootErr.hexInvalidByte c).err)
    | some _ => ([], some RootErr.hexLength.err)
  | c :: d :: rest =>
    match fromHexChar c, fromHexChar d with
    | none, _ => ([], some (RootErr.hexInvalidByte c).err)
    | some _, none => ([], some (RootErr.hexInvalidByte d).err)
    | some a, some b =>
      let (bytes, err) := decode rest
      ((a * 16 + b) :: bytes, err)

/-- The lower-case digit of a number below 16. -/
def lowerDigit (n : UInt8) : UInt8 := if n < 10 then 0x30 + n else 0x61 + (n - 10)

/-- `hex.Encode` -/
def encode (bytes : List UInt8) : List UInt8 :=
  bytes.flatMap fun b => [lowerDigit (b / 16), lowerDigit (b % 16)]

/-- The upper-case digit of a number below 16. -/
def upperDigit (n : UInt8) : UInt8 := if n < 10 then 0x30 + n else 0x41 + (n - 10)

/-- The verb `%X` on a byte slice. -/
def formatUpper (bytes : List UInt8) : List UInt8 :=
  bytes.flatMap fun b => [upperDigit (b / 16), upperDigit (b % 16)]

end BtmStats.Spec.Hex
