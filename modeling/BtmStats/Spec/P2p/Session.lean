import BtmStats.Lib.IoReader
import BtmStats.Spec.P2p.MConnection
import BtmStats.Spec.P2p.Peer
import BtmStats.Spec.P2p.SecretConnection
import BtmStats.Spec.Wire.Blocks

/-!
# `BtmStats.Spec.P2p.Session`: one direction of a connection, from the keys on

What a connection carries from one end to the other, after the ephemeral keys are exchanged: the
authentication message of `shareAuthSignature`, the `NodeInfo` of `HandshakeTimeout`, and the
packets of the `MConnection`. The first two go to the `SecretConnection` as they are written. The
packets go through the `bufio.Writer` and the `bufio.Reader` of the `MConnection`.

The network holds the sealed bytes that have been written and not read. A read waits while they are
too few. What a routine has read when it has to wait stays with it, so a read that waits is the same
as one that has not begun.
-/

set_option autoImplicit false

namespace BtmStats.Spec.P2p

open Lib Spec
open Spec.Wire (Blocks.Pieces Blocks.Prog)

/-! ### Reading from the connection -/

/-- What `io.ReadFull` makes of an error after the first bytes. -/
def shortErr (e : Err) : Err := if e = RootErr.eof.err then RootErr.unexpectedEOF.err else e

section
variable (box : SecretBox)

/-- `Read` of a `SecretConnection` over the network. -/
def SecretConnection.connRead (size : Nat) :
    SecretConnection × List UInt8 →
      Option (Except Err (List UInt8) × (SecretConnection × List UInt8))
  | (sc, wire) =>
    if sc.recvBuffer.length = 0 ∧ wire.length < sealedFrameSize then none
    else
      let res := SecretConnection.read box sc wire size
      match res.err with
      | some e => some (.error e, (res.sc, res.wire))
      | none => some (.ok res.data, (res.sc, res.wire))

/-- A call without an error empties the buffer, or opens a frame, which is longer than its
chunk. -/
theorem SecretConnection.connRead_uses {size : Nat} {st st' : SecretConnection × List UInt8}
    {data : List UInt8} (hsize : 0 < size)
    (h : SecretConnection.connRead box size st = some (.ok data, st')) :
    st'.1.recvBuffer.length + st'.2.length + data.length <
      st.1.recvBuffer.length + st.2.length := by
  obtain ⟨sc, wire⟩ := st
  rw [connRead] at h
  by_cases hbuf : 0 < sc.recvBuffer.length
  · rw [if_neg (by omega)] at h
    simp only [SecretConnection.read, if_pos hbuf] at h
    cases h
    simp only [ReadResult.data, List.take_zero, List.length_nil, List.length_drop,
      List.length_take]
    omega
  · by_cases hwire : wire.length < sealedFrameSize
    · rw [if_pos (by omega)] at h
      cases h
    · rw [if_neg (by omega)] at h
      simp only [SecretConnection.read, if_neg hbuf, if_neg hwire] at h
      split at h
      · cases h
      · next hres =>
        split at hres
        · cases hres
        · next frame hframe =>
          split at hres
          · cases hres
          · next hlen =>
            simp only [hframe, if_neg hlen] at h
            cases h
            simp only [ReadResult.data, List.length_take, List.length_drop,
              sealedFrameSize, totalFrameSize, dataMaxSize, dataLenSize, overhead]
              at hwire hlen ⊢
            omega

/-- The `SecretConnection` as an `io.Reader`. -/
def connReader : IoReader UInt8 Err (SecretConnection × List UInt8) where
  read := SecretConnection.connRead box
  left st := st.1.recvBuffer.length + st.2.length
  uses := SecretConnection.connRead_uses box

end

/-! ### The handshake -/

/-- The size of the authentication message. -/
def authSigMsgSize : Nat := (32 + 1) + (64 + 1)

/-- What `shareAuthSignature` reads, before it decodes it. -/
def readAuthSig : BlockReader UInt8 Err (List UInt8) := .block authSigMsgSize

/-- The limit on the `NodeInfo` that is read. -/
def maxNodeInfoSize : Nat := 10240

/-- A `NodeInfo` with all its fields. -/
structure NodeInfoMsg extends NodeInfo where
  moniker : Str
  other : List Str
  deriving DecidableEq

/-- `new(NodeInfo)` -/
def NodeInfoMsg.zero : NodeInfoMsg := ⟨⟨.replicate 32 0, [], [], [], []⟩, [], []⟩

/-- The pieces of `WriteBinary` of a pointer to a `NodeInfo`. -/
def NodeInfoMsg.write (info : NodeInfoMsg) : Blocks.Pieces :=
  [0x01] :: info.pubKey.1 :: (Wire.Blocks.writeByteSlice info.moniker ++
    (Wire.Blocks.writeByteSlice info.network ++
    (Wire.Blocks.writeByteSlice info.remoteAddr ++
    (Wire.Blocks.writeByteSlice info.listenAddr ++
    (Wire.Blocks.writeByteSlice info.version ++
    Wire.Blocks.writeSlice Wire.Blocks.writeByteSlice info.other)))))

/-- go-wire on a `NodeInfo`. -/
def NodeInfoMsg.read (lmt : Nat) : Blocks.Prog NodeInfoMsg := do
  let pubKey ← Wire.Blocks.readByteArray 32
  let moniker ← Wire.Blocks.readByteSlice lmt
  let network ← Wire.Blocks.readByteSlice lmt
  let remoteAddr ← Wire.Blocks.readByteSlice lmt
  let listenAddr ← Wire.Blocks.readByteSlice lmt
  let version ← Wire.Blocks.readByteSlice lmt
  let other ← Wire.Blocks.readSlice lmt (Wire.Blocks.readByteSlice lmt)
  return ⟨⟨pubKey, network, remoteAddr, listenAddr, version⟩, moniker, other⟩

/-- `ReadBinary` of the `NodeInfo` of the other end. -/
def readNodeInfo : BlockReader UInt8 Err NodeInfoMsg := do
  let (info, _) ← (Wire.Blocks.readBinary maxNodeInfoSize
    (Wire.Blocks.readPtr NodeInfoMsg.zero (NodeInfoMsg.read maxNodeInfoSize))).run 0
  return info

/-! ### Packets -/

def minReadBufferSize : Nat := 1024

def minWriteBufferSize : Nat := 65536

/-- What an iteration of `recvRoutine` reads. -/
inductive Packet where
  | ping
  | pong
  | msg (pkt : MsgPacket)
  | unknown (pktType : UInt8)
  deriving DecidableEq

def MsgPacket.readBlocks (lmt : Nat) : Blocks.Prog MsgPacket := do
  let channelID ← Wire.Blocks.readByte
  let eof ← Wire.Blocks.readByte
  let bytes ← Wire.Blocks.readByteSlice lmt
  return ⟨channelID, eof, bytes⟩

/-- The next packet, as the receive routine reads it. -/
def readPacket : BlockReader UInt8 Err Packet := do
  let (pktType, _) ← Wire.Blocks.readByte.run 0
  if pktType = packetTypePing then return .ping
  else if pktType = packetTypePong then return .pong
  else if pktType = packetTypeMsg then
    let (pkt, _) ← (Wire.Blocks.readBinary maxMsgPacketTotalSize
      (MsgPacket.readBlocks maxMsgPacketTotalSize)).run 0
    return .msg pkt
  else return .unknown pktType

/-- The rest of the iteration: the connection, and the call of `onReceive`. -/
def MConnection.handlePacket (c : MConnection) :
    Packet → Except RecvEnd (MConnection × Option (UInt8 × List UInt8))
  | .ping => .ok (c, none)
  | .pong => .ok (c, none)
  | .msg pkt =>
    match c.channel? pkt.channelID with
    | none => .error (.panic
        (panicQ ("Unknown channel " ++ (hexDigits pkt.channelID.toNat).toUpper)))
    | some (p, channel) =>
      match channel.recvMsgPacket pkt with
      | (_, .error e) => .error (.err e)
      | (channel, .ok msgBytes) => .ok (c.setChannel p channel, msgBytes.map (pkt.channelID, ·))
  | .unknown pktType => .error (.panic
      (panicSanity ("Unknown message type " ++ (hexDigits pktType.toNat).toUpper)))

/-! ### Sessions -/

/-- How far the receiving end is, and what it has read before. -/
inductive Phase where
  | auth
  | info (auth : List UInt8)
  | running (auth : List UInt8) (info : NodeInfoMsg)
  deriving DecidableEq

/-- One direction of a connection. `hello` are the writes of the handshake that are still to be
made, and `bufWriter` and `bufReader` are the bytes that the buffers hold. `accepted`, `delivered`
and `ended` record what happened, as in `Pipe`. -/
structure Session where
  hello : Blocks.Pieces
  sendConn : SecretConnection
  bufWriter : List UInt8
  sender : MConnection
  wire : List UInt8
  recvConn : SecretConnection
  bufReader : List UInt8
  phase : Phase
  receiver : MConnection
  accepted : List (UInt8 × List UInt8)
  delivered : List (UInt8 × List UInt8)
  ended : Option RecvEnd

/-- Calls and events of the `MConnection` at the sending end. -/
inductive SendOp where
  | send (chID : UInt8) (bytes : List UInt8) (timedOut : Bool)
  | trySend (chID : UInt8) (bytes : List UInt8)
  | sendMsgPacket (ratio : Ratio)
  | ping
  | pong
  | updateStats (decay : Int → Int)
  | flush

/-- Events of a session: the next write of the handshake, an event of the `MConnection` at the
sending end, and the next read at the receiving end. -/
inductive SessionOp where
  | hello
  | conn (op : SendOp)
  | recv

namespace Session

/-- The start of a session. A `Write` without bytes does nothing, so it is left out. -/
def fresh (sendConn recvConn : SecretConnection) (auth : FixedBytes authSigMsgSize)
    (info : NodeInfoMsg) (sender receiver : MConnection) : Session where
  hello := BlockReader.solid (auth.1 :: info.write)
  sendConn := sendConn
  bufWriter := []
  sender := sender
  wire := []
  recvConn := recvConn
  bufReader := []
  phase := .auth
  receiver := receiver
  accepted := []
  delivered := []
  ended := none

section
variable (box : SecretBox)

/-- `Write` of the `SecretConnection`. -/
def connWrite (s : Session) (data : List UInt8) : Session :=
  let res := SecretConnection.write box (fun _ => none) s.sendConn data
  { s with sendConn := res.sc, wire := s.wire ++ (res.frames.map Prod.snd).flatten }

/-- `Flush` of the `bufio.Writer`. -/
def flush (s : Session) : Session :=
  if s.bufWriter.length = 0 then s else { s.connWrite box s.bufWriter with bufWriter := [] }

/-- `Write` of the `bufio.Writer`. Its loop has at most two turns: the first may leave the buffer
empty, and then the rest is written past the buffer or fits into it. -/
def bufWrite (s : Session) (p : List UInt8) : Session :=
  let available := minWriteBufferSize - s.bufWriter.length
  if p.length ≤ available then { s with bufWriter := s.bufWriter ++ p }
  else if s.bufWriter.length = 0 then s.connWrite box p
  else
    let s := { s with bufWriter := s.bufWriter ++ p.take available }.flush box
    let p := p.drop available
    if p.length ≤ minWriteBufferSize then { s with bufWriter := p } else s.connWrite box p

/-- Record a message that was accepted. -/
def accept (s : Session) (chID : UInt8) (bytes : List UInt8) (res : MConnection × Bool) : Session :=
  { s with sender := res.1, accepted := s.accepted ++ (if res.2 then [(chID, bytes)] else []) }

/-- An event of the `MConnection` at the sending end. A packet is written field by field; the fields
are smaller than the buffer, which then makes no difference between this and one write. -/
def sendStep (s : Session) : SendOp → Session
  | .send chID bytes timedOut => s.accept chID bytes (s.sender.sendMsg chID bytes timedOut)
  | .trySend chID bytes => s.accept chID bytes (s.sender.trySend chID bytes)
  | .sendMsgPacket ratio =>
    let res := s.sender.sendMsgPacket goWire ratio false
    { s with sender := res.conn }.bufWrite box res.written
  -- The two signals are flushed at once. A packet waits for the timer.
  | .ping => (s.bufWrite box [packetTypePing]).flush box
  | .pong => (s.bufWrite box [packetTypePong]).flush box
  | .updateStats decay =>
    { s with sender :=
      { s.sender with channels := s.sender.channels.map (Channel.updateStats decay) } }
  | .flush => s.flush box

/-- What the receiving end does with the result of a read from the `SecretConnection`. -/
def helloRead {α : Type} (s : Session) (next : α → Phase)
    (res : Option (Except Err α × (SecretConnection × List UInt8))) : Session :=
  match res with
  | none => s
  | some (.error e, (sc, wire)) => { s with recvConn := sc, wire := wire, ended := some (.err e) }
  | some (.ok a, (sc, wire)) => { s with recvConn := sc, wire := wire, phase := next a }

/-- The next read at the receiving end. -/
def recvStep (s : Session) : Session :=
  if s.ended ≠ none then s
  else
    match s.phase with
    | .auth => s.helloRead .info
        (readAuthSig.runOn ((connReader box).readFull shortErr) (s.recvConn, s.wire))
    | .info auth => s.helloRead (.running auth)
        (readNodeInfo.runOn ((connReader box).readFull shortErr) (s.recvConn, s.wire))
    | .running _ _ =>
      match readPacket.runOn
        (((connReader box).buffered minReadBufferSize (by decide)).readFull shortErr)
        ((s.recvConn, s.wire), s.bufReader) with
      | none => s
      | some (.error e, ((sc, wire), buf)) =>
        { s with
          recvConn := sc, wire := wire, bufReader := buf
          receiver := s.receiver.stopForError, ended := some (.err e) }
      | some (.ok packet, ((sc, wire), buf)) =>
        let s := { s with recvConn := sc, wire := wire, bufReader := buf }
        match s.receiver.handlePacket packet with
        | .error e => { s with receiver := s.receiver.stopForError, ended := some e }
        | .ok (receiver, received) =>
          { s with receiver, delivered := s.delivered ++ received.toList }

/-- One step of a session. -/
def step (s : Session) : SessionOp → Session
  | .hello =>
    match s.hello with
    | [] => s
    | piece :: rest => { s.connWrite box piece with hello := rest }
  -- There is no `MConnection` before the handshake is over.
  | .conn op => if s.hello ≠ [] then s else s.sendStep box op
  | .recv => s.recvStep box

/-- A run: any interleaving of events. -/
def run (s : Session) (ops : List SessionOp) : Session := ops.foldl (step box) s

end

end Session

end BtmStats.Spec.P2p
