import Mathlib.Logic.Function.Basic
import BtmStats.Spec.Pex.AddrBook
import BtmStats.Spec.Wire.Binary

/-!
# `BtmStats.Spec.Pex.Exchange`: nodes that exchange addresses

The model of `p2p/pex/pex_message.go` and of `Receive`, `RequestAddrs` and `SendAddrs` in
`p2p/pex/pex_reactor.go`, for any number of nodes that send each other messages. `Receive` adds the
addresses of a message one after the other. Each call of `AddAddress` holds the lock of the book, so
other calls on the book may come in between: a loop over addresses is a record of its own, with the
addresses that are left.

What the limiter of `Spec.Pex.MsgLimit` says is an input here, and so is the result of `TrySend`.
Every message that was ever sent can still arrive, any number of times. Messages with any bytes come
in from nodes that do not follow the protocol.
-/

set_option autoImplicit false

namespace BtmStats.Spec.Pex

open Lib Spec Spec.Wire

/-! ### Messages -/

/-- The type bytes of the messages. -/
def msgTypeRequest : UInt8 := 0x01

def msgTypeAddrs : UInt8 := 0x02

/-- The limit on the bytes that go-wire reads for a message. -/
def maxPexMessageSize : Nat := 1048576

/-- The types registered for `PexMessage`. -/
inductive PexMessage where
  | request
  | addrs (addrs : List (Option NetAddress))
  deriving DecidableEq

/-- go-wire on a `NetAddress`. A nil IP is written as an empty one. -/
def NetAddress.write (na : NetAddress) : List UInt8 :=
  writeByteSlice na.bytes ++ writeUint16 na.port

/-- The exported fields of a `NetAddress`. An IP that is read is never nil. -/
def NetAddress.read (lmt : Nat) : Reader NetAddress := do
  let ip ← readByteSlice lmt
  let port ← readUint16
  return ⟨some ip, port⟩

namespace PexMessage

/-- `wire.BinaryBytes(struct{ PexMessage }{m})` -/
def binaryBytes : PexMessage → List UInt8
  | .request => [msgTypeRequest]
  | .addrs list => msgTypeAddrs :: writeSliceOf (writePointer NetAddress.write) list

/-- The reader of the type that a byte stands for. -/
def byteToType (lmt : Nat) (b : UInt8) : Option (Reader PexMessage) :=
  if b = msgTypeRequest then some (return .request)
  else if b = msgTypeAddrs then some do
    let list ← readSliceOf lmt (readPointer (NetAddress.read lmt))
    return .addrs list
  else none

/-- `wire.ReadBinary(struct{ PexMessage }{}, ...)` -/
def read (lmt : Nat) : Reader (Option PexMessage) :=
  readBinary lmt (readInterface "pex.PexMessage" (byteToType lmt))

end PexMessage

/-- What `DecodeMessage` returns. -/
structure DecodedPex where
  msgType : UInt8
  msg : Option PexMessage
  err : Option Err

/-- `DecodeMessage`. The first byte of an empty slice panics. -/
def decodeMessage (bz : List UInt8) : Except Panic DecodedPex := do
  let msgType ← orPanic .indexOutOfRange bz.head?
  let (msg, c) := (PexMessage.read maxPexMessageSize).run ⟨bz, 0, none⟩
  return ⟨msgType, msg, c.err⟩

/-! ### A message that arrives -/

/-- Why a node stops a peer. -/
inductive StopReason where
  /-- the limiter -/
  | limit
  /-- `TrySend` has failed -/
  | sendFailed
  | undecodable (bytes : List UInt8)
  /-- a panic, which `MConnection._recover` turns into an error of the connection -/
  | panicked (bytes : List UInt8)
  | refused (addr : Option NetAddress)

/-- What `Receive` does with a message. -/
inductive Handling where
  | stop (reason : StopReason)
  | answer
  | addAddrs (src : NetAddress) (addrs : List (Option NetAddress))
  | ignore

/-- `Receive` up to the first call on the address book. `src` is the address that
`NewNetAddressString` makes of `p.RemoteAddr`, if there is no error. -/
def receive (src : Option NetAddress) (reached : Bool) (rawMsg : List UInt8) :
    Except Panic Handling := do
  if reached then return .stop .limit
  let decoded ← decodeMessage rawMsg
  match decoded.err, decoded.msg with
  | some _, _ => return .stop (.undecodable rawMsg)
  | none, some .request => return .answer
  | none, some (.addrs addrs) =>
    match src with
    | none => return .ignore
    | some src => return .addAddrs src addrs
  | none, none => return .ignore

/-! ### A network -/

/-- A message on the wire. -/
structure Packet where
  sender : Nat
  receiver : Nat
  bytes : List UInt8

/-- A call of `Receive` in its loop over the addresses of a message. -/
structure AddrsCall where
  sender : Nat
  receiver : Nat
  src : NetAddress
  rest : List (Option NetAddress)

/-- A node has stopped a peer. -/
structure Stop where
  node : Nat
  peer : Nat
  reason : StopReason

/-- The books of the nodes, what is under way, and the stops so far. -/
structure Exchange where
  books : Nat → AddrBook
  wire : List Packet
  calls : List AddrsCall
  stops : List Stop

/-- What happens in a network. -/
inductive ExchangeEvent where
  /-- a call of others on the book of a node, as for a seed or for the address of an inbound peer -/
  | call (node : Nat) (op : AddrBook.Op)
  /-- `RequestAddrs` -/
  | request (node peer : Nat) (sent : Bool)
  /-- `SendAddrs` of a selection, as `AddPeer` does when there are too many peers -/
  | sendAddrs (node peer : Nat) (order : IterOrder Nat) (draws : Nat → Nat) (sent : Bool)
  /-- a message of a node that does not follow the protocol -/
  | inject (sender receiver : Nat) (bytes : List UInt8)
  /-- a message arrives -/
  | receive (i : Nat) (reached : Bool) (order : IterOrder Nat) (draws : Nat → Nat) (sent : Bool)
  /-- a loop over addresses goes on -/
  | add (i : Nat) (chance : Chance)

namespace Exchange

/-- Nodes with new address books. -/
def fresh (routabilityStrict : Nat → Bool) (key : Nat → Str) : Exchange :=
  ⟨fun node => newAddrBook (routabilityStrict node) (key node), [], [], []⟩

/-- `StopPeerForError`, recorded. -/
def stop (x : Exchange) (node peer : Nat) (reason : StopReason) : Exchange :=
  { x with stops := x.stops ++ [⟨node, peer, reason⟩] }

def setBook (x : Exchange) (node : Nat) (book : AddrBook) : Exchange :=
  { x with books := Function.update x.books node book }

/-- `RequestAddrs` and `SendAddrs` -/
def send (x : Exchange) (node peer : Nat) (msg : PexMessage) (sent : Bool) : Exchange :=
  if sent then { x with wire := x.wire ++ [⟨node, peer, msg.binaryBytes⟩] }
  else x.stop node peer .sendFailed

/-- `SendAddrs` of a selection of the book. -/
def sendSelection (x : Exchange) (node peer : Nat) (order : IterOrder Nat) (draws : Nat → Nat)
    (sent : Bool) : Except Panic Exchange := do
  let selection ← (x.books node).getSelection order draws
  return x.send node peer (.addrs (selection.map some)) sent

/-- One step. `srcAddr` is the address of a peer as a node sees it. -/
def step (env : Env) (srcAddr : Nat → Nat → Option NetAddress) (x : Exchange) :
    ExchangeEvent → Except Panic Exchange
  | .call node op => do
      let book ← (x.books node).step env op
      return x.setBook node book
  | .request node peer sent => .ok (x.send node peer .request sent)
  | .sendAddrs node peer order draws sent => x.sendSelection node peer order draws sent
  | .inject sender receiver bytes =>
    .ok { x with wire := x.wire ++ [⟨sender, receiver, bytes⟩] }
  | .receive i reached order draws sent =>
    match x.wire[i]? with
    | none => .ok x
    | some p =>
      match Pex.receive (srcAddr p.receiver p.sender) reached p.bytes with
      | .error _ => .ok (x.stop p.receiver p.sender (.panicked p.bytes))
      | .ok (.stop reason) => .ok (x.stop p.receiver p.sender reason)
      | .ok .answer => x.sendSelection p.receiver p.sender order draws sent
      | .ok (.addAddrs src addrs) =>
        .ok { x with calls := x.calls ++ [⟨p.sender, p.receiver, src, addrs⟩] }
      | .ok .ignore => .ok x
  | .add i chance =>
    match x.calls[i]? with
    | some ⟨sender, receiver, src, addr :: rest⟩ => do
        let (book, err) ← (x.books receiver).addAddress env chance addr (some src)
        let x := x.setBook receiver book
        match err with
        | none => return { x with calls := x.calls.set i ⟨sender, receiver, src, rest⟩ }
        | some _ =>
          let x := { x with calls := x.calls.set i ⟨sender, receiver, src, []⟩ }
          return x.stop receiver sender (.refused addr)
    | _ => .ok x

/-- A run: any interleaving. -/
def run (env : Env) (srcAddr : Nat → Nat → Option NetAddress) (x : Exchange)
    (events : List ExchangeEvent) : Except Panic Exchange := events.foldlM (step env srcAddr) x

end Exchange

end BtmStats.Spec.Pex
