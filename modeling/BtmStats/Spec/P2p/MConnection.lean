import Mathlib.Algebra.Order.Ring.Unbundled.Rat
import Mathlib.Data.Rat.Defs
import BtmStats.Lib.Arena
import BtmStats.Lib.Slice
import BtmStats.Spec.Runtime
import BtmStats.Spec.Wire.Binary

/-!
# `BtmStats.Spec.P2p.MConnection`: the multiplex connection

The model of `p2p/connection/connection.go`: the channels, the cutting of messages
into packets by the send routine and their collection by the receive routine. The
go-wire codec of a packet is a parameter, and `goWire` is the one of the source.

`channels` and `channelsIdx` share their channels, so they are one arena: its heap is
`channels`, its index is `channelsIdx`. The flow monitors, the timers and the log are
left out. A message handed to `onReceive` is recorded as it is at that moment; its
buffer is used again for the next message of the channel.
-/

set_option autoImplicit false

namespace BtmStats.Spec.P2p

open Lib Spec

/-! ### Packets -/

/-- The sizes of packets. -/
def maxMsgPacketPayloadSize : Nat := 1024

def maxMsgPacketOverheadSize : Nat := 10

def maxMsgPacketTotalSize : Nat := maxMsgPacketPayloadSize + maxMsgPacketOverheadSize

/-- The type bytes of packets. -/
def packetTypePing : UInt8 := 0x01

def packetTypePong : UInt8 := 0x02

def packetTypeMsg : UInt8 := 0x03

/-- A piece of a message. `eof` is 1 in the last one. -/
structure MsgPacket where
  channelID : UInt8
  eof : UInt8
  bytes : List UInt8
  deriving DecidableEq, Repr

/-- `wire.WriteBinary` and `wire.ReadBinaryPtr` of a packet. The reader takes a limit
and the bytes of the stream, and returns the bytes after the packet. -/
structure GoWire where
  writeBinary : MsgPacket → List UInt8
  readBinary : Nat → List UInt8 → Except Err (MsgPacket × List UInt8)

/-- The documented behaviour of go-wire: within the limit of the receive routine,
reading undoes writing. -/
structure GoWire.Documented (codec : GoWire) : Prop where
  read_write : ∀ (packet : MsgPacket) (rest : List UInt8),
    packet.bytes.length ≤ maxMsgPacketPayloadSize →
    codec.readBinary maxMsgPacketTotalSize (codec.writeBinary packet ++ rest) = .ok (packet, rest)

/-- The fields of a packet, in their order. -/
def MsgPacket.read (lmt : Nat) : Wire.Reader MsgPacket := do
  let channelID ← Wire.readByte
  let eof ← Wire.readByte
  let bytes ← Wire.readByteSlice lmt
  return ⟨channelID, eof, bytes⟩

/-- The codec of the vendored go-wire. -/
def goWire : GoWire where
  writeBinary packet := packet.channelID :: packet.eof :: Wire.writeByteSlice packet.bytes
  readBinary lmt input :=
    let (packet, c) := (Wire.readBinary lmt (MsgPacket.read lmt)).run ⟨input, 0, none⟩
    match c.err with
    | some err => .error err
    | none => .ok (packet, c.input)

/-! ### Channels -/

/-- The defaults of a `ChannelDescriptor`. -/
def defaultSendQueueCapacity : Int := 1

def defaultRecvBufferCapacity : Int := 4096

def defaultRecvMessageCapacity : Int := 22020096

/-- A channel as a reactor describes it. -/
structure ChannelDescriptor where
  id : UInt8
  priority : Int
  sendQueueCapacity : Int
  recvBufferCapacity : Int
  recvMessageCapacity : Int
  deriving DecidableEq, Repr

/-- `FillDefaults`: a capacity of 0 is replaced. -/
def ChannelDescriptor.fillDefaults (chDesc : ChannelDescriptor) : ChannelDescriptor :=
  { chDesc with
    sendQueueCapacity :=
      if chDesc.sendQueueCapacity = 0 then defaultSendQueueCapacity else chDesc.sendQueueCapacity
    recvBufferCapacity :=
      if chDesc.recvBufferCapacity = 0 then defaultRecvBufferCapacity
      else chDesc.recvBufferCapacity
    recvMessageCapacity :=
      if chDesc.recvMessageCapacity = 0 then defaultRecvMessageCapacity
      else chDesc.recvMessageCapacity }

/-- A channel. `sendQueue` is the contents of the Go channel, whose capacity is in
`desc`. The field `conn` is left out: no method reads it. -/
structure Channel where
  desc : ChannelDescriptor
  id : UInt8
  sendQueue : List (List UInt8)
  sendQueueSize : Int32
  recving : List UInt8
  sending : List UInt8
  priority : Int
  recentlySent : Int
  deriving DecidableEq

/-- `newChannel`. `make` panics on a negative capacity. -/
def newChannel (desc : ChannelDescriptor) : Except Panic Channel :=
  let desc := desc.fillDefaults
  if desc.priority ≤ 0 then
    .error (panicSanity "Channel default priority must be a postive integer")
  else if desc.sendQueueCapacity < 0 ∨ desc.recvBufferCapacity < 0 then .error .sliceBounds
  else .ok ⟨desc, desc.id, [], 0, [], [], desc.priority, 0⟩

namespace Channel

/-- The Go channel `sendQueue` has a free slot. -/
def hasRoom (ch : Channel) : Bool :=
  decide ((ch.sendQueue.length : Int) < ch.desc.sendQueueCapacity)

/-- The send on `sendQueue` and the increment of `sendQueueSize` after it. -/
def enqueue (ch : Channel) (bytes : List UInt8) : Channel :=
  { ch with sendQueue := ch.sendQueue ++ [bytes], sendQueueSize := ch.sendQueueSize + 1 }

/-- `sendBytes` at the moment when its `select` is decided: the timer has fired, or
there is a slot. -/
def sendBytes (ch : Channel) (bytes : List UInt8) (timedOut : Bool) : Channel × Bool :=
  if ch.hasRoom ∧ timedOut = false then (ch.enqueue bytes, true) else (ch, false)

/-- `trySendBytes`: enqueue if there is room. -/
def trySendBytes (ch : Channel) (bytes : List UInt8) : Channel × Bool :=
  if ch.hasRoom then (ch.enqueue bytes, true) else (ch, false)

/-- `isSendPending`. An empty `sending` is replaced by the next message of the queue. -/
def isSendPending (ch : Channel) : Channel × Bool :=
  if ch.sending.length = 0 then
    match ch.sendQueue with
    | [] => (ch, false)
    -- `sendQueueSize` still counts the message, until its last packet is cut off.
    | bytes :: queue => ({ ch with sending := bytes, sendQueue := queue }, true)
  else (ch, true)

/-- `nextMsgPacket`: cut the next piece off the message. -/
def nextMsgPacket (ch : Channel) : Channel × MsgPacket :=
  let bytes := ch.sending.take (min maxMsgPacketPayloadSize ch.sending.length)
  if ch.sending.length ≤ maxMsgPacketPayloadSize then
    ({ ch with sending := [], sendQueueSize := ch.sendQueueSize - 1 }, ⟨ch.id, 0x01, bytes⟩)
  else
    ({ ch with sending := ch.sending.drop (min maxMsgPacketPayloadSize ch.sending.length) },
      ⟨ch.id, 0x00, bytes⟩)

/-- `recvMsgPacket`. The first result is the channel after the call; `none` is the
result `nil`. -/
def recvMsgPacket (ch : Channel) (packet : MsgPacket) :
    Channel × Except Err (Option (List UInt8)) :=
  if ch.desc.recvMessageCapacity < (ch.recving.length : Int) + (packet.bytes.length : Int) then
    -- The bytes received so far stay in `recving`.
    (ch, .error RootErr.binaryReadOverflow.err)
  else
    let recving := ch.recving ++ packet.bytes
    if packet.eof = 0x01 then ({ ch with recving := [] }, .ok (some recving))
    else ({ ch with recving := recving }, .ok none)

/-- `updateStats`, with what the float multiplication by 0.8 makes of the counter. -/
def updateStats (decay : Int → Int) (ch : Channel) : Channel :=
  { ch with recentlySent := decay ch.recentlySent }

end Channel

/-! ### Connections -/

/-- A connection. `send` says that its one-slot Go channel holds a token. -/
structure MConnection where
  channels : Arena Channel UInt8
  running : Bool
  errored : Bool
  send : Bool

/-- `NewMConnection`, and the start of the connection. -/
def newMConnection (chDescs : List ChannelDescriptor) : Except Panic MConnection := do
  let channels ← chDescs.foldlM
    (fun channels desc => (newChannel desc).map fun channel => channels.add Channel.id channel)
    Arena.empty
  return ⟨channels, true, false, false⟩

namespace MConnection

/-- `stopForError` -/
def stopForError (c : MConnection) : MConnection := { c with running := false, errored := true }

/-- `channelsIdx[chID]`: the place of the channel, and the channel. -/
def channel? (c : MConnection) (chID : UInt8) : Option (Nat × Channel) := do
  let p ← c.channels.index.lookup chID
  let channel ← c.channels.heap[p]?
  return (p, channel)

def setChannel (c : MConnection) (p : Nat) (channel : Channel) : MConnection :=
  { c with channels := c.channels.set p channel }

/-- The part that `Send` and `TrySend` share: `enqueue` is `sendBytes` or
`trySendBytes`. A message that was queued posts the token. -/
def sendWith (enqueue : Channel → Channel × Bool) (c : MConnection) (chID : UInt8) :
    MConnection × Bool :=
  if c.running = false then (c, false)
  else
    match c.channel? chID with
    | none => (c, false)
    | some (p, channel) =>
      let (channel, success) := enqueue channel
      let c := c.setChannel p channel
      if success then ({ c with send := true }, true) else (c, false)

/-- `Send` of a message with these wire bytes. -/
def sendMsg (c : MConnection) (chID : UInt8) (bytes : List UInt8) (timedOut : Bool) :
    MConnection × Bool :=
  c.sendWith (fun channel => channel.sendBytes bytes timedOut) chID

/-- `TrySend` of a message with these wire bytes. -/
def trySend (c : MConnection) (chID : UInt8) (bytes : List UInt8) : MConnection × Bool :=
  c.sendWith (fun channel => channel.trySendBytes bytes) chID

end MConnection

/-! ### The send routine -/

/-- `math.MaxFloat32`. -/
def maxFloat32 : ℚ := (2 ^ 24 - 1) * 2 ^ 104

/-- What `float32(channel.recentlySent) / float32(channel.priority)` gives for each
channel. The rounding of the floats is left open: an `int64` divided by a positive
number is below `math.MaxFloat32`, and this is all that is known. -/
structure Ratio where
  of : Channel → ℚ
  of_lt : ∀ channel, of channel < maxFloat32

/-- The loop of `sendMsgPacket` over the channels from place `i` on. Every channel is
asked for a pending message, so every channel takes its next message. -/
def scanChannels (ratio : Ratio) : List Channel → Nat → ℚ → Option (Nat × Channel) →
    List Channel × Option (Nat × Channel)
  | [], _, _, leastChannel => ([], leastChannel)
  | channel :: rest, i, leastRatio, leastChannel =>
    -- The ratio of a channel is compared strictly: of equal ones the first is kept.
    let (channel, pending) := channel.isSendPending
    let (channels, least) :=
      if pending = true ∧ ratio.of channel < leastRatio then
        scanChannels ratio rest (i + 1) (ratio.of channel) (some (i, channel))
      else scanChannels ratio rest (i + 1) leastRatio leastChannel
    (channel :: channels, least)

section
variable (codec : GoWire)

/-- `writeMsgPacketTo`: the channel, and the bytes that reach the writer. A write that
fails has cut the packet off already. -/
def Channel.writeMsgPacketTo (ch : Channel) (failed : Bool) : Channel × List UInt8 :=
  let (ch, packet) := ch.nextMsgPacket
  if failed then (ch, [])
  else
    let bytes := packetTypeMsg :: codec.writeBinary packet
    ({ ch with recentlySent := ch.recentlySent + bytes.length }, bytes)

/-- What `sendMsgPacket` leaves behind: the connection, the bytes written, and the
result, true when the channels were exhausted. -/
structure SendResult where
  conn : MConnection
  written : List UInt8
  exhausted : Bool

/-- `sendMsgPacket`: a packet of the channel with the least ratio. -/
def MConnection.sendMsgPacket (c : MConnection) (ratio : Ratio) (failed : Bool) : SendResult :=
  let (channels, leastChannel) := scanChannels ratio c.channels.heap 0 maxFloat32 none
  let c := { c with channels := { c.channels with heap := channels } }
  match leastChannel with
  | none => ⟨c, [], true⟩
  | some (i, channel) =>
    let (channel, written) := channel.writeMsgPacketTo codec failed
    let c := c.setChannel i channel
    if failed then ⟨c.stopForError, written, true⟩ else ⟨c, written, false⟩

/-! ### The receive routine -/

/-- How the loop of `recvRoutine` ends: by an error, or by a panic. -/
inductive RecvEnd where
  | err (e : Err)
  | panic (p : Panic)
  deriving DecidableEq

/-- What an iteration of `recvRoutine` leaves behind: the connection, the bytes of the
stream not yet read, and the call of `onReceive`. -/
structure RecvResult where
  conn : MConnection
  rest : List UInt8
  received : Option (UInt8 × List UInt8)

/-- An iteration of `recvRoutine`. A ping is answered by the send routine of this end,
which writes to the stream the other way. -/
def MConnection.recvPacket (c : MConnection) (input : List UInt8) : Except RecvEnd RecvResult :=
  match input with
  | [] => .error (.err RootErr.eof.err)
  | pktType :: input =>
    if pktType = packetTypePing then .ok ⟨c, input, none⟩
    else if pktType = packetTypePong then .ok ⟨c, input, none⟩
    else if pktType = packetTypeMsg then
      match codec.readBinary maxMsgPacketTotalSize input with
      | .error e => .error (.err e)
      | .ok (pkt, rest) =>
        match c.channel? pkt.channelID with
        -- A packet for a channel that this end does not have panics, and the recovery
        -- stops the connection.
        | none => .error (.panic
            (panicQ ("Unknown channel " ++ (hexDigits pkt.channelID.toNat).toUpper)))
        | some (p, channel) =>
          match channel.recvMsgPacket pkt with
          -- The connection stops, so its channels are not looked at again.
          | (_, .error e) => .error (.err e)
          | (channel, .ok msgBytes) =>
            .ok ⟨c.setChannel p channel, rest, msgBytes.map (pkt.channelID, ·)⟩
    else .error (.panic
      (panicSanity ("Unknown message type " ++ (hexDigits pktType.toNat).toUpper)))

/-! ### Two ends -/

/-- The two ends of one direction of a connection: the sending end, the bytes in
flight, and the receiving end. The other fields record what happened: the messages
that a call accepted, the messages that `onReceive` got, and how the receive loop
ended. -/
structure Pipe where
  sender : MConnection
  wire : List UInt8
  receiver : MConnection
  accepted : List (UInt8 × List UInt8)
  delivered : List (UInt8 × List UInt8)
  ended : Option RecvEnd

/-- Two ends that have not been used. -/
def Pipe.fresh (sender receiver : MConnection) : Pipe := ⟨sender, [], receiver, [], [], none⟩

/-- The calls and events of one direction. -/
inductive PipeOp where
  | send (chID : UInt8) (bytes : List UInt8) (timedOut : Bool)
  | trySend (chID : UInt8) (bytes : List UInt8)
  | sendMsgPacket (ratio : Ratio)
  | ping
  | pong
  | updateStats (decay : Int → Int)
  | recv

/-- The record of a call of `Send` or `TrySend`. -/
def Pipe.accept (w : Pipe) (chID : UInt8) (bytes : List UInt8) (res : MConnection × Bool) : Pipe :=
  { w with sender := res.1, accepted := w.accepted ++ (if res.2 then [(chID, bytes)] else []) }

/-- One event. The bytes written arrive intact and in order, and no write fails. The
receive routine waits while nothing is in flight. -/
def Pipe.step (w : Pipe) : PipeOp → Pipe
  | .send chID bytes timedOut => w.accept chID bytes (w.sender.sendMsg chID bytes timedOut)
  | .trySend chID bytes => w.accept chID bytes (w.sender.trySend chID bytes)
  | .sendMsgPacket ratio =>
    let res := w.sender.sendMsgPacket codec ratio false
    { w with sender := res.conn, wire := w.wire ++ res.written }
  | .ping => { w with wire := w.wire ++ [packetTypePing] }
  | .pong => { w with wire := w.wire ++ [packetTypePong] }
  | .updateStats decay =>
    let channels := w.sender.channels.map (Channel.updateStats decay)
    { w with sender := { w.sender with channels } }
  | .recv =>
    if w.wire = [] ∨ w.ended ≠ none then w
    else
      match w.receiver.recvPacket codec w.wire with
      | .error e => { w with receiver := w.receiver.stopForError, ended := some e }
      | .ok res =>
        { w with
          receiver := res.conn
          wire := res.rest
          delivered := w.delivered ++ res.received.toList }

/-- A run: any interleaving of events. -/
def Pipe.run (w : Pipe) (ops : List PipeOp) : Pipe := ops.foldl (Pipe.step codec) w

end

/-- The messages of a record that belong to a channel. -/
def onChannel (chID : UInt8) (record : List (UInt8 × List UInt8)) : List (List UInt8) :=
  (record.filter (·.1 = chID)).map Prod.snd

/-! ### The buffer of a channel

`Channel.recvMsgPacket` of `p2p/connection/connection.go` appends to the slice `recving`,
returns it as the message, and keeps its array for the next message. Above, the buffer is the list
of its bytes. Here it is the slice with its array, over the fields of the channel that the function
uses.

`append` takes a new array when the capacity is used up; the spare cells of that array are
an argument. A message is the bytes that the returned slice shows when it is returned. The
next packet may overwrite them.
-/

/-- A packet, and the spare cells if its bytes need a new array. -/
structure Arrival where
  packet : MsgPacket
  spare : List UInt8

/-- The receiving side of a `Channel`. -/
structure RecvBuffer where
  recvMessageCapacity : Int
  recving : Slice UInt8

/-- The receiving side of the channel that `newChannel` makes. -/
def newRecvBuffer (desc : ChannelDescriptor) : Except Panic RecvBuffer := do
  let ch ← newChannel desc
  -- `make([]byte, 0, desc.RecvBufferCapacity)`
  let recving ← orPanic .sliceBounds (Slice.make? 0 0 ch.desc.recvBufferCapacity.toNat)
  .ok ⟨ch.desc.recvMessageCapacity, recving⟩

namespace RecvBuffer

/-- `recvMsgPacket` -/
def recvMsgPacket (ch : RecvBuffer) (arrival : Arrival) :
    RecvBuffer × Except Err (Option (List UInt8)) :=
  if ch.recvMessageCapacity < (ch.recving.len : Int) + (arrival.packet.bytes.length : Int) then
    (ch, .error RootErr.binaryReadOverflow.err)
  else
    let recving := ch.recving.append arrival.packet.bytes arrival.spare
    if arrival.packet.eof = 0x01 then
      ({ ch with recving := recving.clear }, .ok (some recving.visible))
    else ({ ch with recving := recving }, .ok none)

/-- Packet after packet: the buffer after them, and what each call returned. The calls go on
after an error. -/
def feed (ch : RecvBuffer) : List Arrival → RecvBuffer × List (Except Err (Option (List UInt8)))
  | [] => (ch, [])
  | arrival :: arrivals =>
    let (ch, result) := ch.recvMsgPacket arrival
    let (ch, results) := feed ch arrivals
    (ch, result :: results)

end RecvBuffer

end BtmStats.Spec.P2p
