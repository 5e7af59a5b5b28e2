import BtmStats.Lib.BigEndian
import BtmStats.Spec.Errors

/-!
# `BtmStats.Spec.P2p.SecretConnection`: the encrypted connection

The model of `p2p/connection/secret_connection.go`: the nonces, the frames, and
`Write` and `Read`. RIPEMD-160 and the secret box of NaCl are parameters. The
underlying connection is the list of the bytes in flight.

A key pair is exchanged by pointer, and `MakeSecretConnection` compares pointers to
find out which key sorts lower. `EphKey` keeps the pointer beside the key.
-/

set_option autoImplicit false

namespace BtmStats.Spec.P2p

open Lib Spec

/-! ### Nonces -/

/-- The nonce of a frame. -/
abbrev Nonce := FixedBytes 24

/-- The loop of `incrNonce`, before it looks at byte `i`: the bytes from `i` on have
wrapped around. -/
def incrNonceLoop : Nat → List UInt8 → List UInt8
  | 0, nonce => nonce
  | i + 1, nonce =>
    let byte := nonce.getD i 0 + 1
    let nonce := nonce.set i byte
    if byte ≠ 0 then nonce else incrNonceLoop i nonce

@[simp] theorem length_incrNonceLoop : ∀ (i : Nat) (nonce : List UInt8),
    (incrNonceLoop i nonce).length = nonce.length := by
  intro i
  induction i with
  | zero => exact fun _ => rfl
  | succ i ih =>
    intro nonce
    rw [incrNonceLoop]
    split
    · exact List.length_set
    · rw [ih, List.length_set]

/-- `incrNonce`, big-endian and around at the end. -/
def incrNonce (nonce : Nonce) : Nonce :=
  ⟨incrNonceLoop 24 nonce.1, by rw [length_incrNonceLoop, nonce.2]⟩

/-- `incr2Nonce`: each direction uses every second nonce. -/
def incr2Nonce (nonce : Nonce) : Nonce := incrNonce (incrNonce nonce)

/-- `bytes.Compare(a, b) < 0`. -/
def bytesLess : List UInt8 → List UInt8 → Bool
  | [], [] => false
  | [], _ :: _ => true
  | _ :: _, [] => false
  | a :: as, b :: bs => if a = b then bytesLess as bs else decide (a < b)

/-- A pointer to a key. -/
structure EphKey where
  addr : Nat
  key : FixedBytes 32
  deriving DecidableEq

/-- `sort32` -/
def sort32 (foo bar : EphKey) : EphKey × EphKey :=
  if bytesLess foo.key.1 bar.key.1 then (foo, bar) else (bar, foo)

/-- Flip the lowest bit of the last byte. -/
def flipLast (nonce : Nonce) : Nonce :=
  ⟨nonce.1.set 23 (nonce.1.getD 23 0 ^^^ 1), by rw [List.length_set, nonce.2]⟩

section
variable (ripemd160 : List UInt8 → FixedBytes 20)

/-- `hash24`: the first 20 bytes are the digest. -/
def hash24 (input : List UInt8) : Nonce :=
  ⟨(ripemd160 input).1 ++ List.replicate 4 0, by
    rw [List.length_append, (ripemd160 input).2, List.length_replicate]⟩

/-- `genNonces`: the nonce to receive with and the nonce to send with. -/
def genNonces (loPubKey hiPubKey : FixedBytes 32) (locIsLo : Bool) : Nonce × Nonce :=
  let nonce1 := hash24 ripemd160 (loPubKey.1 ++ hiPubKey.1)
  let nonce2 := flipLast nonce1
  if locIsLo then (nonce1, nonce2) else (nonce2, nonce1)

end

/-! ### Frames -/

/-- The sizes of frames. -/
def dataLenSize : Nat := 2

def dataMaxSize : Nat := 1024

def totalFrameSize : Nat := dataMaxSize + dataLenSize

/-- `secretbox.Overhead`. -/
def overhead : Nat := 16

def sealedFrameSize : Nat := totalFrameSize + overhead

/-- `secretbox.Seal` and `secretbox.Open`. -/
structure SecretBox where
  sealBox : List UInt8 → Nonce → FixedBytes 32 → List UInt8
  openBox : List UInt8 → Nonce → FixedBytes 32 → Option (List UInt8)

/-- The documented behaviour of the secret box: `Open` undoes `Seal` under the same
nonce and key, and a box is `Overhead` bytes longer than its message. -/
structure SecretBox.Documented (box : SecretBox) : Prop where
  open_seal : ∀ m nonce key, box.openBox (box.sealBox m nonce key) nonce key = some m
  length_seal : ∀ m nonce key, (box.sealBox m nonce key).length = m.length + overhead

/-- The state of one end, with what is left of the last frame. -/
structure SecretConnection where
  recvBuffer : List UInt8
  recvNonce : Nonce
  sendNonce : Nonce
  shrSecret : FixedBytes 32
  deriving DecidableEq

/-- The connection that `MakeSecretConnection` constructs from the two ephemeral keys
and the shared secret. The exchange of signatures that follows uses `Write` and
`Read` of it. -/
def makeConnection (ripemd160 : List UInt8 → FixedBytes 20) (locEphPub remEphPub : EphKey)
    (shrSecret : FixedBytes 32) : SecretConnection :=
  let (loEphPub, hiEphPub) := sort32 locEphPub remEphPub
  let (recvNonce, sendNonce) :=
    genNonces ripemd160 loEphPub.key hiEphPub.key (decide (locEphPub.addr = loEphPub.addr))
  ⟨[], recvNonce, sendNonce, shrSecret⟩

/-- The frame of a chunk: its length, the chunk, and zeros. -/
def makeFrame (chunk : List UInt8) : List UInt8 :=
  toBytesBE dataLenSize chunk.length ++ chunk ++ List.replicate (dataMaxSize - chunk.length) 0

section
variable (box : SecretBox)

/-- What `Write` leaves behind: the connection, the sealed frames that reached the
underlying connection with the nonces that they were sealed with, and the returned
`n` and `err`. -/
structure WriteResult where
  sc : SecretConnection
  frames : List (Nonce × List UInt8)
  n : Nat
  err : Option Err

/-- The loop of `Write`, with `n` bytes written before. `connErr k` is the error that
the underlying connection reports for the `k`-th frame of the call. -/
def SecretConnection.writeLoop (connErr : Nat → Option Err) (sc : SecretConnection)
    (data : List UInt8) (frames : List (Nonce × List UInt8)) (n : Nat) : WriteResult :=
  if data = [] then ⟨sc, frames, n, none⟩
  else
    let chunk := data.take dataMaxSize
    let sealed := box.sealBox (makeFrame chunk) sc.sendNonce sc.shrSecret
    let sc' := { sc with sendNonce := incr2Nonce sc.sendNonce }
    match connErr frames.length with
    -- The nonce is used up by a frame that was not written.
    | some err => ⟨sc', frames, n, some err⟩
    | none =>
      SecretConnection.writeLoop connErr sc' (data.drop dataMaxSize)
        (frames ++ [(sc.sendNonce, sealed)]) (n + chunk.length)
termination_by data.length
decreasing_by
  rw [List.length_drop, dataMaxSize]
  have := List.length_pos_iff.mpr ‹data ≠ []›
  omega

/-- `Write`: a sealed frame for each chunk, up to the first error. -/
def SecretConnection.write (connErr : Nat → Option Err) (sc : SecretConnection)
    (data : List UInt8) : WriteResult :=
  SecretConnection.writeLoop box connErr sc data [] 0

/-- What `Read` leaves behind: the connection, the bytes still in flight, the nonce
that a frame was opened with, the bytes copied to the front of the buffer, and the
returned `n` and `err`. -/
structure ReadResult where
  sc : SecretConnection
  wire : List UInt8
  opened : Option Nonce
  copied : List UInt8
  n : Nat
  err : Option Err

/-- `data[:n]` after a call. -/
def ReadResult.data (res : ReadResult) : List UInt8 := res.copied.take res.n

/-- `Read` into a buffer of `size` bytes. Bytes left from the last frame are copied,
but the returned `n` stays 0 then: the source assigns their number to `n_`. -/
def SecretConnection.read (sc : SecretConnection) (wire : List UInt8) (size : Nat) : ReadResult :=
  if 0 < sc.recvBuffer.length then
    let copied := sc.recvBuffer.take size
    ⟨{ sc with recvBuffer := sc.recvBuffer.drop copied.length }, wire, none, copied, 0, none⟩
  else if wire.length < sealedFrameSize then
    -- `io.ReadFull` takes what there is and reports the end of the stream.
    ⟨sc, [], none, [], 0, some (if wire = [] then RootErr.eof.err else RootErr.unexpectedEOF.err)⟩
  else
    let wire' := wire.drop sealedFrameSize
    match box.openBox (wire.take sealedFrameSize) sc.recvNonce sc.shrSecret with
    | none =>
      -- The frame is lost, and the nonce stays where it was.
      ⟨sc, wire', none, [], 0, some (RootErr.errorf "Failed to decrypt SecretConnection").err⟩
    | some frame =>
      let sc' := { sc with recvNonce := incr2Nonce sc.recvNonce }
      let chunkLength := ofBytesBE (frame.take dataLenSize)
      if chunkLength > dataMaxSize then
        ⟨sc', wire', some sc.recvNonce, [], 0,
          some (RootErr.errorf "chunkLength is greater than dataMaxSize").err⟩
      else
        -- What does not fit into the buffer waits for the next call.
        let chunk := (frame.drop dataLenSize).take chunkLength
        let copied := chunk.take size
        ⟨{ sc' with recvBuffer := chunk.drop copied.length }, wire', some sc.recvNonce, copied,
          copied.length, none⟩

/-! ### Two ends -/

/-- The two ends of a connection. -/
inductive Party where
  | a | b
  deriving DecidableEq, Repr

def Party.other : Party → Party
  | .a => .b
  | .b => .a

/-- One end: its connection and the bytes that it has sent and that have not arrived.
The other fields record what happened: the bytes passed to `Write`, the bytes
`data[:n]` of the `Read` calls that returned `(n, nil)`, and the nonces that frames
were sealed and opened with. -/
structure End where
  sc : SecretConnection
  wire : List UInt8
  written : List UInt8
  delivered : List UInt8
  sealNonces : List Nonce
  openNonces : List Nonce

/-- An end that has not been used. -/
def End.fresh (sc : SecretConnection) : End := ⟨sc, [], [], [], [], []⟩

/-- Both ends. -/
abbrev World := Party → End

/-- A call at one end. -/
inductive Op where
  | write (p : Party) (data : List UInt8)
  | read (p : Party) (size : Nat)
  deriving DecidableEq, Repr

/-- One call at one end. The frames that it writes arrive intact and in order. -/
def World.step (w : World) : Op → World
  | .write p data =>
    let res := SecretConnection.write box (fun _ => none) (w p).sc data
    Function.update w p { w p with
      sc := res.sc
      wire := (w p).wire ++ (res.frames.map Prod.snd).flatten
      written := (w p).written ++ data
      sealNonces := (w p).sealNonces ++ res.frames.map Prod.fst }
  | .read p size =>
    let res := SecretConnection.read box (w p).sc (w p.other).wire size
    let w := Function.update w p.other { w p.other with wire := res.wire }
    Function.update w p { w p with
      sc := res.sc
      delivered := (w p).delivered ++ (if res.err = none then res.data else [])
      openNonces := (w p).openNonces ++ res.opened.toList }

/-- A run: any interleaving of calls at the two ends. -/
def World.run (w : World) (ops : List Op) : World := ops.foldl (World.step box) w

end

end BtmStats.Spec.P2p
