import BtmStats.Proofs.P2p.Multiplexing
import BtmStats.Proofs.P2p.SecretConnection
import BtmStats.Proofs.Wire.Blocks
import BtmStats.Spec.P2p.Session

/-!
# `BtmStats.Proofs.P2p.Transport`: what the layers of a session do for each other

`Read` of a `SecretConnection` is sound as long as each call has room for the next frame: the
connection is then a chunked reader, whose chunks are those of the frames in flight (`InFlight`,
`connReader_chunked`). The values of the handshake and the packets are read in the pieces in which
they are written, so whoever reads them asks for no less than a frame has.
-/

set_option autoImplicit false

namespace BtmStats.Proofs.P2p

open Lib Lib.BlockReader Spec Spec.P2p Proofs.Wire.Blocks

/-! ### Frames in flight -/

section
variable {box : SecretBox}

variable (box) in
/-- The chunks of the frames in flight. The receiver has nothing left of the frames before, and its
nonce is the one of the first frame. -/
structure InFlight (sendConn recvConn : SecretConnection) (wire : List UInt8)
    (chunks : List (List UInt8)) : Prop where
  key_eq : recvConn.shrSecret = sendConn.shrSecret
  fits : ∀ c ∈ chunks, Fits c
  wire_eq : wire = frameBytes (sealedFrames box recvConn.shrSecret recvConn.recvNonce chunks)
  nonce_eq : sendConn.sendNonce = incr2Nonce^[chunks.length] recvConn.recvNonce
  clean : recvConn.recvBuffer = []

variable {sendConn recvConn : SecretConnection} {wire : List UInt8} {chunks : List (List UInt8)}

/-- A `Write` adds chunks. -/
theorem InFlight.write (h : InFlight box sendConn recvConn wire chunks) (data : List UInt8) :
    ∃ new : List (List UInt8), new.flatten = data ∧
      InFlight box (SecretConnection.write box (fun _ => none) sendConn data).sc recvConn
        (wire ++
          ((SecretConnection.write box (fun _ => none) sendConn data).frames.map Prod.snd).flatten)
        (chunks ++ new) := by
  obtain ⟨new, hflat, hfits, hrun⟩ := write_spec box sendConn data
  rw [hrun]
  refine ⟨new, hflat, h.key_eq, fun c hc => ?_, ?_, ?_, h.clean⟩
  · rcases List.mem_append.mp hc with hc | hc
    · exact h.fits c hc
    · exact hfits c hc
  · show wire ++ frameBytes (sealedFrames box sendConn.shrSecret sendConn.sendNonce new) = _
    rw [sealedFrames_append, frameBytes_append, ← h.wire_eq, ← h.nonce_eq, h.key_eq]
  · show incr2Nonce^[new.length] sendConn.sendNonce = _
    rw [List.length_append, Nat.add_comm, Function.iterate_add_apply, ← h.nonce_eq]

/-- A `Read` with room for the first chunk gets it. -/
theorem InFlight.connRead (doc : box.Documented) {c : List UInt8}
    (h : InFlight box sendConn recvConn wire (c :: chunks)) {size : Nat} (hsize : c.length ≤ size) :
    ∃ st, SecretConnection.connRead box size (recvConn, wire) = some (.ok c, st) ∧
      InFlight box sendConn st.1 st.2 chunks := by
  obtain ⟨-, hmax⟩ := h.fits c List.mem_cons_self
  let rest := frameBytes
    (sealedFrames box recvConn.shrSecret (incr2Nonce recvConn.recvNonce) chunks)
  have hwire : wire =
      box.sealBox (makeFrame c) recvConn.recvNonce recvConn.shrSecret ++ rest := h.wire_eq
  have hlen : ¬ wire.length < sealedFrameSize := by
    rw [hwire, List.length_append, doc.length_seal, length_makeFrame hmax, sealedFrameSize]
    omega
  have hread := read_frame doc h.clean hmax rest size
  rw [← hwire, List.drop_of_length_le hsize, List.take_of_length_le hsize] at hread
  refine ⟨({ recvConn with recvNonce := incr2Nonce recvConn.recvNonce, recvBuffer := [] }, rest),
    ?_, h.key_eq, fun d hd => h.fits d (.tail _ hd), rfl, ?_, rfl⟩
  · rw [SecretConnection.connRead, if_neg fun hwait => hlen hwait.2]
    simp only [hread, ReadResult.data, List.take_length]
  · rw [h.nonce_eq]
    rfl

variable (sendConn) in
/-- The connection gives the chunks in flight. -/
theorem connReader_chunked (doc : box.Documented) :
    IoReader.Chunked (connReader box) dataMaxSize fun st => InFlight box sendConn st.1 st.2 where
  gives h hsize := InFlight.connRead doc h hsize
  waits := by
    rintro size ⟨sc, wire⟩ h
    have hwire : wire = [] := h.wire_eq
    refine if_pos ⟨List.length_eq_zero_iff.mpr h.clean, ?_⟩
    rw [hwire]
    decide
  fits h c hc := ⟨List.length_pos_iff.mp (h.fits c hc).1, (h.fits c hc).2⟩

end

/-! ### The encodings -/

theorem reads_readAuthSig (auth : FixedBytes authSigMsgSize) :
    Reads readAuthSig [auth.1] auth.1 := by
  have h := reads_block (ε := Err) auth.1
  rwa [auth.2] at h

theorem writeByteSlice_ne_nil (bz : List UInt8) :
    (Wire.Blocks.writeByteSlice bz).flatten ≠ [] := by
  rw [Wire.Blocks.writeByteSlice, Wire.Blocks.writeVarint, List.cons_append, List.flatten_cons]
  exact List.cons_ne_nil _ _

/-- Every element of a slice has bytes of its own. -/
theorem length_le_writeSlice (elems : List (List UInt8)) :
    elems.length ≤ (Wire.Blocks.writeSlice Wire.Blocks.writeByteSlice elems).flatten.length := by
  have hsum : elems.length ≤ (elems.flatMap Wire.Blocks.writeByteSlice).flatten.length := by
    induction elems with
    | nil => exact Nat.le_refl _
    | cons bz elems ih =>
      have hpos := List.length_pos_iff.mpr (writeByteSlice_ne_nil bz)
      rw [List.flatMap_cons, List.flatten_append, List.length_append, List.length_cons]
      omega
  rw [Wire.Blocks.writeSlice, List.flatten_append, List.length_append]
  omega

/-- A `NodeInfo` within the limit is read in the pieces in which it is written. -/
theorem reads_readNodeInfo {info : NodeInfoMsg}
    (hsize : info.write.flatten.length ≤ maxNodeInfoSize) : Reads readNodeInfo info.write info := by
  have hmax : (maxNodeInfoSize : Int) ≤ Wire.maxSliceLength := by decide
  refine Reads.map (a := (info, _))
    (readsFrom_readBinary (readsFrom_readPtr ?_) (by rwa [Nat.zero_add])) Prod.fst
  rw [NodeInfoMsg.write] at hsize
  simp only [List.flatten_cons, List.flatten_append, List.length_append, List.length_singleton]
    at hsize
  have hother := length_le_writeSlice info.other
  refine (readsFrom_readByteArray info.pubKey _).bind ?_
  -- The limit is left for each field by those after it.
  refine (readsFrom_readByteSlice hmax ?_).bind ((readsFrom_readByteSlice hmax ?_).bind
    ((readsFrom_readByteSlice hmax ?_).bind ((readsFrom_readByteSlice hmax ?_).bind
      ((readsFrom_readByteSlice hmax ?_).bind ?_))))
  all_goals simp only [List.flatten_cons, List.flatten_nil, List.append_nil]
  · omega
  · omega
  · omega
  · omega
  · omega
  · have hread : ∀ (bz : List UInt8) (n : Nat),
        n + (Wire.Blocks.writeByteSlice bz).flatten.length ≤ maxNodeInfoSize →
        ReadsFrom (Wire.Blocks.readByteSlice maxNodeInfoSize) n (Wire.Blocks.writeByteSlice bz)
          bz :=
      fun _ _ => readsFrom_readByteSlice hmax
    refine (readsFrom_readSlice hread ?_ ?_).map fun other =>
        (⟨⟨info.pubKey, info.network, info.remoteAddr, info.listenAddr, info.version⟩,
          info.moniker, other⟩ : NodeInfoMsg)
    · omega
    · omega

/-- The pieces of a packet. -/
def packetPieces (pkt : MsgPacket) : Wire.Blocks.Pieces :=
  [pkt.channelID] :: [pkt.eof] :: Wire.Blocks.writeByteSlice pkt.bytes

def itemPieces : Item → Wire.Blocks.Pieces
  | .ping => [[packetTypePing]]
  | .pong => [[packetTypePong]]
  | .msg pkt => [packetTypeMsg] :: packetPieces pkt

/-- What the receive routine reads of an item. -/
def itemPacket : Item → Packet
  | .ping => .ping
  | .pong => .pong
  | .msg pkt => .msg pkt

/-- Packets have at most 1024 bytes. -/
def Item.Small : Item → Prop
  | .msg pkt => pkt.bytes.length ≤ maxMsgPacketPayloadSize
  | _ => True

theorem flatten_packetPieces {pkt : MsgPacket}
    (h : pkt.bytes.length ≤ maxMsgPacketPayloadSize) :
    (packetPieces pkt).flatten = goWire.writeBinary pkt := by
  have hmax : (pkt.bytes.length : Int) ≤ Wire.maxSliceLength := by
    rw [maxMsgPacketPayloadSize] at h
    rw [Wire.maxSliceLength]
    omega
  rw [packetPieces, List.flatten_cons, List.flatten_cons, flatten_writeByteSlice hmax]
  rfl

theorem flatten_itemPieces {item : Item} (h : item.Small) :
    (itemPieces item).flatten = item.bytes goWire := by
  cases item with
  | ping => rfl
  | pong => rfl
  | msg pkt =>
    rw [itemPieces, List.flatten_cons, flatten_packetPieces h]
    rfl

/-- The receive routine reads back each packet that was written. -/
theorem reads_readPacket {item : Item} (h : item.Small) :
    Reads readPacket (itemPieces item) (itemPacket item) := by
  cases item with
  | ping => exact Reads.bind (t := []) (readsFrom_readByte packetTypePing 0) (reads_pure _)
  | pong => exact Reads.bind (t := []) (readsFrom_readByte packetTypePong 0) (reads_pure _)
  | msg pkt =>
    have hmax : (maxMsgPacketTotalSize : Int) ≤ Wire.maxSliceLength := by decide
    have hlen : pkt.bytes.length ≤ 1024 := h
    have hslice : (Wire.Blocks.writeByteSlice pkt.bytes).flatten.length ≤
        pkt.bytes.length + 3 := by
      rw [flatten_writeByteSlice (by rw [Wire.maxSliceLength]; omega)]
      exact Wire.length_writeByteSlice_le (by omega)
    have hread : ReadsFrom (MsgPacket.readBlocks maxMsgPacketTotalSize) 0 (packetPieces pkt)
        pkt := by
      refine (readsFrom_readByte pkt.channelID 0).bind ((readsFrom_readByte pkt.eof _).bind ?_)
      refine (readsFrom_readByteSlice (n := 2) hmax ?_).map
        fun bytes => (⟨pkt.channelID, pkt.eof, bytes⟩ : MsgPacket)
      rw [maxMsgPacketTotalSize, maxMsgPacketPayloadSize, maxMsgPacketOverheadSize]
      omega
    have hle : 0 + (packetPieces pkt).flatten.length ≤ maxMsgPacketTotalSize := by
      rw [packetPieces, List.flatten_cons, List.flatten_cons, List.length_append,
        List.length_append, List.length_singleton, List.length_singleton, maxMsgPacketTotalSize,
        maxMsgPacketPayloadSize, maxMsgPacketOverheadSize]
      omega
    have hmsg := Reads.map (readsFrom_readBinary hread hle) fun res => Packet.msg res.1
    exact Reads.bind (s := [[packetTypeMsg]]) (t := packetPieces pkt)
      (readsFrom_readByte packetTypeMsg 0) hmsg

end BtmStats.Proofs.P2p
