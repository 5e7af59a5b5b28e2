import BtmStats.Spec.P2p.Session

/-!
# `BtmStats.Spec.P2p.Handshake`: `MakeSecretConnection`

The whole of `MakeSecretConnection`, from the exchange of the ephemeral keys to the verification of
the other end's signature, with every way that it can end. What arrives from the network is an
input. The hashes, the key agreement of NaCl and the two signature schemes of `go-crypto` are
parameters.

The key and the signature of the authentication message are registered interfaces of go-wire, so the
bytes may stand for a nil key, and for a key or a signature of the other scheme.
-/

set_option autoImplicit false

namespace BtmStats.Spec.P2p

open Lib Spec

/-- `crypto.PubKey` that is not nil. -/
inductive AnyPubKey where
  | ed25519 (key : PubKey)
  | secp256k1 (key : FixedBytes 33)
  deriving DecidableEq

/-- `crypto.Signature` that is not nil. -/
inductive AnySignature where
  | ed25519 (sig : FixedBytes 64)
  | secp256k1 (sig : List UInt8)
  deriving DecidableEq

/-- `authSigMessage`. Nil is `none`. -/
structure AuthSigMessage where
  key : Option AnyPubKey
  sig : Option AnySignature
  deriving DecidableEq

/-- The cryptography that is used, from outside the repository. -/
structure Crypto where
  hash32 : List UInt8 → FixedBytes 32
  ripemd160 : List UInt8 → FixedBytes 20
  /-- `box.Precompute` of a public and a private key. -/
  precompute : FixedBytes 32 → FixedBytes 32 → FixedBytes 32
  verifyEd25519 : PubKey → List UInt8 → FixedBytes 64 → Bool
  /-- `PubKeySecp256k1.VerifyBytes` of a `SignatureSecp256k1`. -/
  verifySecp256k1 : FixedBytes 33 → List UInt8 → List UInt8 → Bool

/-! ### The authentication message -/

/-- go-wire on a `crypto.PubKey`. -/
def readPubKey : Wire.Reader (Option AnyPubKey) :=
  Wire.readInterface "crypto.PubKeyInner" fun typeByte =>
    if typeByte = 0x01 then some do
      let key ← Wire.readByteArray 32
      return .ed25519 key
    else if typeByte = 0x02 then some do
      let key ← Wire.readByteArray 33
      return .secp256k1 key
    else none

/-- go-wire on a `crypto.Signature`. -/
def readSignature (lmt : Nat) : Wire.Reader (Option AnySignature) :=
  Wire.readInterface "crypto.SignatureInner" fun typeByte =>
    if typeByte = 0x01 then some do
      let sig ← Wire.readByteArray 64
      return .ed25519 sig
    else if typeByte = 0x02 then some do
      let sig ← Wire.readByteSlice lmt
      return .secp256k1 sig
    else none

/-- The fields of an `authSigMessage`, in their order. -/
def AuthSigMessage.read (lmt : Nat) : Wire.Reader AuthSigMessage := do
  let key ← readPubKey
  let sig ← readSignature lmt
  return ⟨key, sig⟩

/-- `wire.ReadBinary` of the bytes that `shareAuthSignature` has read. -/
def decodeAuthSig (readBuffer : List UInt8) : Except Err AuthSigMessage :=
  let (recvMsg, c) :=
    (Wire.readBinary authSigMsgSize (AuthSigMessage.read authSigMsgSize)).run ⟨readBuffer, 0, none⟩
  match c.err with
  | some err => .error err
  | none => .ok recvMsg

/-- The bytes of the message that this end sends. -/
def encodeAuthSig (pubKey : PubKey) (signature : FixedBytes 64) : List UInt8 :=
  0x01 :: pubKey.1 ++ 0x01 :: signature.1

/-! ### `MakeSecretConnection` -/

/-- One call: the key pair of the node and of the call, and what arrives. `remEphPub` is the result
of `shareEphPubKey`, and `authSig` the bytes that `shareAuthSignature` reads, each with the first
error of its two directions. -/
structure HandshakeRun where
  locPubKey : PubKey
  locEphPub : FixedBytes 32
  locEphPriv : FixedBytes 32
  remEphPub : Except Err (FixedBytes 32)
  authSig : Except Err (FixedBytes authSigMsgSize)

section
variable (crypto : Crypto)

/-- `VerifyBytes`. A signature of the other scheme does not verify. -/
def AnyPubKey.verifyBytes (msg : List UInt8) (sig : Option AnySignature) : AnyPubKey → Bool
  | .ed25519 key =>
    match sig with
    | some (.ed25519 sig) => crypto.verifyEd25519 key msg sig
    | _ => false
  | .secp256k1 key =>
    match sig with
    | some (.secp256k1 sig) => crypto.verifySecp256k1 key msg sig
    | _ => false

/-- `genChallenge`, for the two keys in their order. -/
def genChallenge (loPubKey hiPubKey : FixedBytes 32) : FixedBytes 32 :=
  crypto.hash32 (loPubKey.1 ++ hiPubKey.1)

/-- The challenge that a call signs. -/
def HandshakeRun.challenge (r : HandshakeRun) (remEphPub : FixedBytes 32) : FixedBytes 32 :=
  let (loEphPub, hiEphPub) := sort32 ⟨0, r.locEphPub⟩ ⟨1, remEphPub⟩
  genChallenge crypto loEphPub.key hiEphPub.key

/-- The connection that a call constructs before the exchange of signatures. -/
def HandshakeRun.connection (r : HandshakeRun) (remEphPub : FixedBytes 32) : SecretConnection :=
  makeConnection crypto.ripemd160 ⟨0, r.locEphPub⟩ ⟨1, remEphPub⟩
    (crypto.precompute remEphPub r.locEphPriv)

/-- The end of `MakeSecretConnection`, after `shareAuthSignature`: the connection and
`RemotePubKey`. -/
def checkAuthSig (challenge : FixedBytes 32) (sc : SecretConnection) (authSigMsg : AuthSigMessage) :
    Except Panic (Except Err (SecretConnection × PubKey)) :=
  match authSigMsg.key with
  -- The method of a nil interface.
  | none => .error .nilDereference
  | some remPubKey =>
    if remPubKey.verifyBytes crypto challenge.1 authSigMsg.sig = false then
      .ok (.error (RootErr.errorf "Challenge verification failed").err)
    else
      match remPubKey with
      | .ed25519 key => .ok (.ok (sc, key))
      | .secp256k1 _ => .error .typeAssertion

/-- `MakeSecretConnection` -/
def makeSecretConnection (r : HandshakeRun) :
    Except Panic (Except Err (SecretConnection × PubKey)) :=
  match r.remEphPub with
  | .error e => .ok (.error e)
  | .ok remEphPub =>
    match r.authSig.bind fun readBuffer => decodeAuthSig readBuffer.1 with
    | .error e => .ok (.error e)
    | .ok authSigMsg =>
      checkAuthSig crypto (r.challenge crypto remEphPub) (r.connection crypto remEphPub)
        authSigMsg

end

end BtmStats.Spec.P2p
