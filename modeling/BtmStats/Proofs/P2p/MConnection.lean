import BtmStats.Lib.Fragment
import BtmStats.Proofs.Wire.Binary
import BtmStats.Spec.P2p.MConnection

/-!
# `BtmStats.Proofs.P2p.MConnection`: messages survive the multiplexing

Each channel of a connection is a stream in the sense of `Lib.Stream`: the queue and
`sending` at one end, the packets of the channel in flight, `recving` at the other
end. `WireInv` says so for all channels at once, with the packets that the bytes in
flight stand for. Every event is a step of the streams: a packet is a step of the
stream of its channel, and the scan of the send routine takes the next message of
every idle channel. `Multiplexing.lean` has the runs.
-/

set_option autoImplicit false

namespace BtmStats.Proofs.P2p

open Lib Spec Spec.P2p Proofs.Wire

/-! ### The encoding of packets -/

theorem scans_readMsgPacket :
    Scans (Wire.readBinary maxMsgPacketTotalSize (MsgPacket.read maxMsgPacketTotalSize))
      (fun n s packet => ∃ payload, s = packet.channelID :: packet.eof :: payload ∧
        Wire.SliceForm payload packet.bytes ∧ n + s.length ≤ maxMsgPacketTotalSize) := by
  have hmax : (maxMsgPacketTotalSize : Int) ≤ Wire.maxSliceLength := by decide
  refine (scans_limited (scans_bind scans_readByte fun channelID => scans_bind scans_readByte
    fun eof => scans_map (scans_readByteSlice (by decide) hmax) fun bytes =>
      (⟨channelID, eof, bytes⟩ : MsgPacket)) (by decide) _).congr fun n s packet => ?_
  constructor
  · rintro ⟨⟨_, _, chID, rfl, rfl, _, payload, eof, rfl, rfl, bytes, ⟨hform, -⟩, rfl⟩, hle⟩
    exact ⟨payload, rfl, hform, hle⟩
  · rintro ⟨payload, rfl, hform, hle⟩
    refine ⟨⟨[_], _, _, rfl, rfl, [_], payload, _, rfl, rfl, _, ⟨hform, ?_⟩, rfl⟩, hle⟩
    simp only [List.length_cons, List.length_nil] at hle ⊢
    omega

/-- The vendored go-wire reads back the packets of the send routine. The overhead that the limit
allows is enough: a length of two digits at most, and two bytes more. -/
theorem goWire_documented : goWire.Documented where
  read_write packet rest hlen := by
    rw [maxMsgPacketPayloadSize] at hlen
    have hslice : (Wire.writeByteSlice packet.bytes).length ≤ packet.bytes.length + 3 :=
      length_writeByteSlice_le (by omega)
    have hform : Wire.SliceForm (Wire.writeByteSlice packet.bytes) packet.bytes := by
      apply sliceForm_writeByteSlice
      unfold Wire.maxSliceLength
      omega
    have hrun := scans_readMsgPacket.append (n := 0) (s := goWire.writeBinary packet)
      ⟨_, rfl, hform, by
        show 0 + ((Wire.writeByteSlice packet.bytes).length + 1 + 1) ≤ 1034
        omega⟩ rest
    dsimp only [goWire] at hrun ⊢
    rw [hrun]

/-! ### The send routine -/

/-- The channel after `isSendPending`. -/
abbrev loaded (ch : Channel) : Channel := ch.isSendPending.1

/-- Nothing to send: neither in `sending` nor in the queue. -/
def Idle (ch : Channel) : Prop := ch.sending = [] ∧ ch.sendQueue = []

/-- What `isSendPending` does: nothing to an idle channel or to one that is sending,
and otherwise it takes the next message. -/
theorem isSendPending_cases (ch : Channel) :
    (Idle ch ∧ ch.isSendPending = (ch, false)) ∨
    (ch.sending ≠ [] ∧ ch.isSendPending = (ch, true)) ∨
    (∃ bytes queue, ch.sending = [] ∧ ch.sendQueue = bytes :: queue ∧
      ch.isSendPending = ({ ch with sending := bytes, sendQueue := queue }, true)) := by
  unfold Channel.isSendPending
  by_cases hs : ch.sending = []
  · rw [if_pos (List.length_eq_zero_iff.mpr hs)]
    cases hq : ch.sendQueue with
    | nil => exact .inl ⟨⟨hs, hq⟩, rfl⟩
    | cons bytes queue => exact .inr (.inr ⟨bytes, queue, hs, rfl, rfl⟩)
  · rw [if_neg (List.length_eq_zero_iff.not.mpr hs)]
    exact .inr (.inl ⟨hs, rfl⟩)

theorem pending_eq_false_iff (ch : Channel) : ch.isSendPending.2 = false ↔ Idle ch := by
  rcases isSendPending_cases ch with ⟨hidle, h⟩ | ⟨hs, h⟩ | ⟨bytes, queue, hs, hq, h⟩
  · rw [h]
    exact ⟨fun _ => hidle, fun _ => rfl⟩
  · rw [h]
    exact ⟨nofun, fun hidle => absurd hidle.1 hs⟩
  · rw [h]
    refine ⟨nofun, fun hidle => ?_⟩
    rw [hidle.2] at hq
    cases hq

theorem id_loaded (ch : Channel) : (loaded ch).id = ch.id := by
  rcases isSendPending_cases ch with ⟨-, h⟩ | ⟨-, h⟩ | ⟨_, _, -, -, h⟩ <;> rw [loaded, h]

/-- An iteration of the scan that picks the channel. -/
theorem scanChannels_pick (ratio : Ratio) {ch : Channel} (rest : List Channel) (i : Nat)
    {leastRatio : ℚ} (least : Option (Nat × Channel))
    (h : ch.isSendPending.2 = true ∧ ratio.of (loaded ch) < leastRatio) :
    scanChannels ratio (ch :: rest) i leastRatio least =
      let res := scanChannels ratio rest (i + 1) (ratio.of (loaded ch)) (some (i, loaded ch))
      (loaded ch :: res.1, res.2) := by
  rw [scanChannels]
  simp only [if_pos h]

/-- An iteration of the scan that passes the channel by. -/
theorem scanChannels_skip (ratio : Ratio) {ch : Channel} (rest : List Channel) (i : Nat)
    {leastRatio : ℚ} (least : Option (Nat × Channel))
    (h : ¬ (ch.isSendPending.2 = true ∧ ratio.of (loaded ch) < leastRatio)) :
    scanChannels ratio (ch :: rest) i leastRatio least =
      let res := scanChannels ratio rest (i + 1) leastRatio least
      (loaded ch :: res.1, res.2) := by
  rw [scanChannels]
  simp only [if_neg h]

theorem scanChannels_fst (ratio : Ratio) (channels : List Channel) (i : Nat) (leastRatio : ℚ)
    (least : Option (Nat × Channel)) :
    (scanChannels ratio channels i leastRatio least).1 = channels.map loaded := by
  induction channels generalizing i leastRatio least with
  | nil => rfl
  | cons ch rest ih =>
    by_cases hpick : ch.isSendPending.2 = true ∧ ratio.of (loaded ch) < leastRatio
    · rw [scanChannels_pick ratio rest i least hpick]
      exact congrArg (loaded ch :: ·) (ih ..)
    · rw [scanChannels_skip ratio rest i least hpick]
      exact congrArg (loaded ch :: ·) (ih ..)

/-- The scan picks a pending channel, or keeps what it had when no pending channel has
a smaller ratio. -/
theorem scanChannels_snd (ratio : Ratio) (channels : List Channel) (i : Nat) (leastRatio : ℚ)
    (least : Option (Nat × Channel)) :
    (∃ j ch, channels[j]? = some ch ∧ ch.isSendPending.2 = true ∧
      (scanChannels ratio channels i leastRatio least).2 = some (i + j, loaded ch)) ∨
    ((scanChannels ratio channels i leastRatio least).2 = least ∧
      ∀ ch ∈ channels, ch.isSendPending.2 = true → ¬ ratio.of (loaded ch) < leastRatio) := by
  induction channels generalizing i leastRatio least with
  | nil => exact .inr ⟨rfl, fun _ h => absurd h List.not_mem_nil⟩
  | cons ch rest ih =>
    by_cases hpick : ch.isSendPending.2 = true ∧ ratio.of (loaded ch) < leastRatio
    · rw [scanChannels_pick ratio rest i least hpick]
      -- The channel is picked, unless a later one has a smaller ratio.
      rcases ih (i + 1) (ratio.of (loaded ch)) (some (i, loaded ch)) with
        ⟨j, ch', hj, hpend, hres⟩ | ⟨hres, -⟩
      · exact .inl ⟨j + 1, ch', hj, hpend, by rw [hres, Nat.add_right_comm, Nat.add_assoc]⟩
      · exact .inl ⟨0, ch, rfl, hpick.1, hres⟩
    · rw [scanChannels_skip ratio rest i least hpick]
      rcases ih (i + 1) leastRatio least with ⟨j, ch', hj, hpend, hres⟩ | ⟨hres, hall⟩
      · exact .inl ⟨j + 1, ch', hj, hpend, by rw [hres, Nat.add_right_comm, Nat.add_assoc]⟩
      · refine .inr ⟨hres, fun ch' hmem hpend hlt => ?_⟩
        rcases List.mem_cons.mp hmem with rfl | hmem
        · exact hpick ⟨hpend, hlt⟩
        · exact hall ch' hmem hpend hlt

/-- The connection after the scan. -/
def scanned (c : MConnection) : MConnection := { c with channels := c.channels.map loaded }

/-- Every channel of a connection is idle. -/
def Exhausted (c : MConnection) : Prop := ∀ ch ∈ c.channels.heap, Idle ch

/-- The packet of a channel, and the channel after it. -/
theorem nextMsgPacket_spec (ch : Channel) :
    ch.nextMsgPacket.1.id = ch.id ∧ ch.nextMsgPacket.1.sendQueue = ch.sendQueue ∧
    ch.nextMsgPacket.1.sending = ch.sending.drop maxMsgPacketPayloadSize ∧
    ch.nextMsgPacket.2.channelID = ch.id ∧
    ch.nextMsgPacket.2.eof = (if ch.sending.length ≤ maxMsgPacketPayloadSize then 1 else 0) ∧
    ch.nextMsgPacket.2.bytes = ch.sending.take maxMsgPacketPayloadSize := by
  have htake : ch.sending.take (min maxMsgPacketPayloadSize ch.sending.length) =
      ch.sending.take maxMsgPacketPayloadSize := List.take_eq_take_min.symm
  by_cases hle : ch.sending.length ≤ maxMsgPacketPayloadSize
  · rw [Channel.nextMsgPacket, if_pos hle, if_pos hle]
    -- The last packet: the source sets `sending` to nil, which is what is left.
    exact ⟨rfl, rfl, (List.drop_eq_nil_of_le hle).symm, rfl, rfl, htake⟩
  · have hmin : min maxMsgPacketPayloadSize ch.sending.length = maxMsgPacketPayloadSize :=
      Nat.min_eq_left (Nat.le_of_not_le hle)
    rw [Channel.nextMsgPacket, if_neg hle, if_neg hle, hmin]
    exact ⟨rfl, rfl, rfl, rfl, rfl, rfl⟩

/-- What `sendMsgPacket` does when the write succeeds: it finds every channel idle, or
it sends the next packet of a pending channel after the scan. -/
theorem sendMsgPacket_cases (codec : GoWire) (c : MConnection) (ratio : Ratio) :
    (Exhausted c ∧ c.sendMsgPacket codec ratio false = ⟨scanned c, [], true⟩) ∨
    (∃ i ch, c.channels.heap[i]? = some ch ∧ ¬ Idle ch ∧
      c.sendMsgPacket codec ratio false =
        ⟨(scanned c).setChannel i ((loaded ch).writeMsgPacketTo codec false).1,
          packetTypeMsg :: codec.writeBinary (loaded ch).nextMsgPacket.2, false⟩) := by
  have hfst := scanChannels_fst ratio c.channels.heap 0 maxFloat32 none
  rw [MConnection.sendMsgPacket, scanned, Arena.map, ← hfst]
  rcases scanChannels_snd ratio c.channels.heap 0 maxFloat32 none with
    ⟨i, ch, hi, hpend, hsnd⟩ | ⟨hsnd, hall⟩
  · refine .inr ⟨i, ch, hi, fun hidle => ?_, ?_⟩
    · rw [(pending_eq_false_iff ch).mpr hidle] at hpend
      cases hpend
    · rw [Nat.zero_add] at hsnd
      simp only [hsnd]
      rfl
  · refine .inl ⟨fun ch hmem => ?_, ?_⟩
    · -- A pending channel would have been picked: its ratio is below the first bound.
      refine (pending_eq_false_iff ch).mp (Bool.eq_false_iff.mpr fun hpend => ?_)
      exact hall ch hmem hpend (ratio.of_lt _)
    · simp only [hsnd]

/-! ### Channels as streams -/

/-- What is in flight: pings, pongs and packets. -/
inductive Item where
  | ping
  | pong
  | msg (packet : MsgPacket)

def Item.bytes (codec : GoWire) : Item → List UInt8
  | .ping => [packetTypePing]
  | .pong => [packetTypePong]
  | .msg packet => packetTypeMsg :: codec.writeBinary packet

theorem Item.bytes_ne_nil (codec : GoWire) (item : Item) : item.bytes codec ≠ [] := by
  cases item <;> exact List.cons_ne_nil _ _

/-- A packet as a fragment of the stream of its channel. -/
def fragment (packet : MsgPacket) : Fragment UInt8 := ⟨decide (packet.eof = 1), packet.bytes⟩

/-- The fragment that an item is for a channel. -/
def Item.fragmentOn (chID : UInt8) : Item → Option (Fragment UInt8)
  | .msg packet => if packet.channelID = chID then some (fragment packet) else none
  | _ => none

/-- The channels of a connection. -/
abbrev Channels := Arena Channel UInt8

/-- What a channel has, empty for an unknown channel. -/
def ofChannel {α : Type} (chs : Channels) (field : Channel → List α) (chID : UInt8) : List α :=
  (chs.find? chID).elim [] field

/-- A record of messages, each with its channel. -/
abbrev Record := List (UInt8 × List UInt8)

/-- The stream of a channel: the two ends, and its packets in flight. -/
def stream (snd rcv : Channels) (accepted delivered : Record) (items : List Item)
    (chID : UInt8) : Stream UInt8 where
  accepted := onChannel chID accepted
  queue := ofChannel snd Channel.sendQueue chID
  sending := ofChannel snd Channel.sending chID
  flight := items.filterMap (Item.fragmentOn chID)
  recving := ofChannel rcv Channel.recving chID
  delivered := onChannel chID delivered

/-- `RecvMessageCapacity` of a channel. -/
def capacity (chs : Channels) (chID : UInt8) : Int :=
  (chs.find? chID).elim 0 (·.desc.recvMessageCapacity)

/-- Channels with different ids. -/
structure Distinct (chs : Channels) : Prop where
  keyed : chs.Keyed Channel.id
  nodup : (chs.heap.map Channel.id).Nodup

/-- The channels of the two ends, the records of the messages, and the items that the
bytes in flight stand for. `cap` is the capacity of the receiver. -/
structure WireInv (codec : GoWire) (cap : UInt8 → Int) (snd rcv : Channels)
    (accepted delivered : Record) (wire : List UInt8) (items : List Item) : Prop where
  wire_eq : wire = (items.map (Item.bytes codec)).flatten
  packets : ∀ packet, Item.msg packet ∈ items →
    packet.bytes.length ≤ maxMsgPacketPayloadSize ∧ (rcv.find? packet.channelID).isSome
  distinct : Distinct snd
  keyed : rcv.Keyed Channel.id
  known : ∀ chID, (snd.find? chID).isSome → (rcv.find? chID).isSome
  streams : ∀ chID, (stream snd rcv accepted delivered items chID).Inv
  capacity_eq : ∀ chID, capacity rcv chID = cap chID
  fit : ∀ chID, ∀ m ∈ onChannel chID accepted, (m.length : Int) ≤ cap chID

section
variable {codec : GoWire} {cap : UInt8 → Int} {snd rcv : Channels} {accepted delivered : Record}
variable {wire : List UInt8} {items : List Item}

theorem onChannel_append (chID : UInt8) (l l' : List (UInt8 × List UInt8)) :
    onChannel chID (l ++ l') = onChannel chID l ++ onChannel chID l' := by
  rw [onChannel, List.filter_append, List.map_append]
  rfl

theorem onChannel_singleton (chID k : UInt8) (m : List UInt8) :
    onChannel chID [(k, m)] = if chID = k then [m] else [] := by
  by_cases hk : k = chID
  · rw [if_pos hk.symm, onChannel, List.filter_cons_of_pos (by simpa using hk)]
    rfl
  · rw [if_neg (Ne.symm hk), onChannel, List.filter_cons_of_neg (by simpa using hk)]
    rfl

variable {ch : Channel} {p : Nat} {chs : Channels} {chID : UInt8} {item : Item} {packet : MsgPacket}

theorem Distinct.map (h : Distinct chs) {f : Channel → Channel} (hid : ∀ ch, (f ch).id = ch.id) :
    Distinct (chs.map f) := by
  have hmap : (chs.heap.map f).map Channel.id = chs.heap.map Channel.id := by
    rw [List.map_map]
    exact List.map_congr_left fun ch _ => hid ch
  refine ⟨h.keyed.of_heap hmap, ?_⟩
  show ((chs.heap.map f).map Channel.id).Nodup
  rw [hmap]
  exact h.nodup

theorem Distinct.set (h : Distinct chs) {ch' : Channel} (hp : chs.heap[p]? = some ch)
    (hid : ch'.id = ch.id) : Distinct (chs.set p ch') := by
  refine ⟨h.keyed.set hp hid, ?_⟩
  show ((chs.heap.set p ch').map Channel.id).Nodup
  rw [map_set_eq_map hp hid]
  exact h.nodup

theorem ofChannel_of_find {α : Type} (h : chs.find? chID = some ch) (field : Channel → List α) :
    ofChannel chs field chID = field ch := by
  rw [ofChannel, h]
  rfl

theorem find?_of_lookup (hp : chs.index.lookup chID = some p) (hch : chs.heap[p]? = some ch) :
    chs.find? chID = some ch := Option.bind_eq_some_iff.mpr ⟨p, hp, hch⟩

/-! ### Messages are accepted -/

/-- `Send` and `TrySend`: nothing changes and the call fails, or the message is queued
on the channel. -/
theorem sendWith_cases {enqueue : Channel → Channel × Bool} {bytes : List UInt8}
    (henq : ∀ ch, enqueue ch = (ch, false) ∨ enqueue ch = (ch.enqueue bytes, true))
    (c : MConnection) (chID : UInt8) :
    ((c.sendWith enqueue chID).2 = false ∧ (c.sendWith enqueue chID).1.channels = c.channels) ∨
    ((c.sendWith enqueue chID).2 = true ∧ ∃ p ch, c.channels.index.lookup chID = some p ∧
      c.channels.heap[p]? = some ch ∧
      (c.sendWith enqueue chID).1.channels = c.channels.set p (ch.enqueue bytes)) := by
  unfold MConnection.sendWith
  by_cases hrun : c.running = false
  · rw [if_pos hrun]
    exact .inl ⟨rfl, rfl⟩
  · rw [if_neg hrun]
    cases hch : c.channel? chID with
    | none => exact .inl ⟨rfl, rfl⟩
    | some found =>
      obtain ⟨p, ch⟩ := found
      obtain ⟨q, hq, hbind⟩ := Option.bind_eq_some_iff.mp hch
      obtain ⟨ch', hch', heq⟩ := Option.bind_eq_some_iff.mp hbind
      cases heq
      rcases henq ch with h | h
      · refine .inl ?_
        simp only [h]
        -- The queue is full. The channel is written back as it was.
        exact ⟨rfl, Arena.set_self hch'⟩
      · refine .inr ?_
        simp only [h]
        exact ⟨rfl, p, ch, hq, hch', rfl⟩

theorem payload_pos : 0 < maxMsgPacketPayloadSize := by decide

/-- A message that is not empty and fits at the receiver is queued. -/
theorem WireInv.enqueue (h : WireInv codec cap snd rcv accepted delivered wire items)
    {bytes : List UInt8} (hp : snd.index.lookup chID = some p) (hch : snd.heap[p]? = some ch)
    (hne : bytes ≠ []) (hfit : (bytes.length : Int) ≤ cap chID) :
    WireInv codec cap (snd.set p (ch.enqueue bytes)) rcv (accepted ++ [(chID, bytes)]) delivered
      wire items := by
  have hfind := h.distinct.keyed.find?_set hp (ch.enqueue bytes)
  have hold := find?_of_lookup hp hch
  refine ⟨h.wire_eq, h.packets, h.distinct.set hch rfl, h.keyed, ?_, ?_, h.capacity_eq, ?_⟩
  · intro k hk
    rw [h.distinct.keyed.isSome_find?_set hp] at hk
    exact h.known k hk
  · intro k
    have hinv := h.streams k
    unfold stream at hinv ⊢
    rw [onChannel_append, onChannel_singleton]
    by_cases hkc : k = chID
    · subst hkc
      rw [if_pos rfl, ofChannel_of_find (hfind k ▸ if_pos rfl),
        ofChannel_of_find (hfind k ▸ if_pos rfl)]
      rw [ofChannel_of_find hold, ofChannel_of_find hold] at hinv
      -- On its own channel the message is a step of the stream. The other streams see
      -- nothing.
      exact (Stream.Step.accept _ bytes hne).inv payload_pos hinv
    · have hk : (snd.set p (ch.enqueue bytes)).find? k = snd.find? k := (hfind k).trans (if_neg hkc)
      rw [if_neg hkc, List.append_nil, ofChannel, ofChannel, hk]
      exact hinv
  · intro k m hm
    rw [onChannel_append, onChannel_singleton] at hm
    rcases List.mem_append.mp hm with hm | hm
    · exact h.fit k m hm
    · split at hm
      · next hkc =>
        rw [List.mem_singleton.mp hm, hkc]
        exact hfit
      · exact absurd hm List.not_mem_nil

/-! ### Packets are sent -/

/-- A change to every channel of the sender that keeps ids and streams. -/
theorem WireInv.map (h : WireInv codec cap snd rcv accepted delivered wire items)
    {f : Channel → Channel} (hid : ∀ ch, (f ch).id = ch.id)
    (hstreams : ∀ chID, (stream (snd.map f) rcv accepted delivered items chID).Inv) :
    WireInv codec cap (snd.map f) rcv accepted delivered wire items := by
  refine ⟨h.wire_eq, h.packets, h.distinct.map hid, h.keyed, fun k hk => ?_, hstreams,
    h.capacity_eq, h.fit⟩
  rw [Arena.find?_map, Option.isSome_map] at hk
  exact h.known k hk

/-- The scan of the send routine: an idle channel takes its next message. -/
theorem WireInv.scan (h : WireInv codec cap snd rcv accepted delivered wire items) :
    WireInv codec cap (snd.map loaded) rcv accepted delivered wire items := by
  refine h.map id_loaded fun k => ?_
  have hinv := h.streams k
  unfold stream at hinv ⊢
  cases hk : snd.find? k with
  | none =>
    have hk' : (snd.map loaded).find? k = none := by rw [Arena.find?_map, hk]; rfl
    rw [ofChannel, ofChannel, hk] at hinv
    rw [ofChannel, ofChannel, hk']
    exact hinv
  | some ch =>
    have hk' : (snd.map loaded).find? k = some (loaded ch) := by rw [Arena.find?_map, hk]; rfl
    rw [ofChannel_of_find hk, ofChannel_of_find hk] at hinv
    rw [ofChannel_of_find hk', ofChannel_of_find hk']
    -- Only a channel that was not sending and has a message takes one.
    rcases isSendPending_cases ch with ⟨-, hld⟩ | ⟨-, hld⟩ | ⟨bytes, queue, hs, hq, hld⟩
    · rw [loaded, hld]
      exact hinv
    · rw [loaded, hld]
      exact hinv
    · rw [loaded, hld]
      exact (Stream.Step.load _ bytes queue hs hq).inv payload_pos hinv

theorem WireInv.updateStats (h : WireInv codec cap snd rcv accepted delivered wire items)
    (decay : Int → Int) :
    WireInv codec cap (snd.map (Channel.updateStats decay)) rcv accepted delivered wire items := by
  refine h.map (fun _ => rfl) fun k => ?_
  have hinv := h.streams k
  unfold stream ofChannel at hinv ⊢
  rw [Arena.find?_map]
  cases hk : snd.find? k with
  | none => rwa [hk] at hinv
  | some ch => rwa [hk] at hinv

/-- The bytes in flight with one more item. -/
theorem WireInv.wire_append (h : WireInv codec cap snd rcv accepted delivered wire items)
    (item : Item) :
    wire ++ item.bytes codec = ((items ++ [item]).map (Item.bytes codec)).flatten := by
  rw [h.wire_eq, List.map_append, List.flatten_append]
  exact congrArg _ (List.append_nil _).symm

/-- An item that is no packet goes out. -/
theorem WireInv.signal (h : WireInv codec cap snd rcv accepted delivered wire items)
    (hitem : item = .ping ∨ item = .pong) :
    WireInv codec cap snd rcv accepted delivered (wire ++ item.bytes codec) (items ++ [item]) := by
  refine ⟨h.wire_append item, fun packet hmem => ?_, h.distinct, h.keyed, h.known, fun k => ?_,
    h.capacity_eq, h.fit⟩
  · rcases List.mem_append.mp hmem with hmem | hmem
    · exact h.packets packet hmem
    · rw [List.mem_singleton] at hmem
      rcases hitem with rfl | rfl <;> cases hmem
  · have hnone : [item].filterMap (Item.fragmentOn k) = [] := by
      rcases hitem with rfl | rfl <;> rfl
    have hinv := h.streams k
    unfold stream at hinv ⊢
    rw [List.filterMap_append, hnone, List.append_nil]
    exact hinv

/-- The next packet as a fragment. -/
theorem fragmentOn_nextMsgPacket (ch : Channel) (chID : UInt8) :
    [Item.msg ch.nextMsgPacket.2].filterMap (Item.fragmentOn chID) =
      if chID = ch.id then [⟨decide (ch.sending.length ≤ maxMsgPacketPayloadSize),
        ch.sending.take maxMsgPacketPayloadSize⟩] else [] := by
  obtain ⟨-, -, -, hchID, heof, hbytes⟩ := nextMsgPacket_spec ch
  have hlast : decide (ch.nextMsgPacket.2.eof = 1) =
      decide (ch.sending.length ≤ maxMsgPacketPayloadSize) := by
    rw [heof]
    split <;> simp [*]
  rw [List.filterMap_cons, Item.fragmentOn, hchID]
  by_cases hk : chID = ch.id
  · rw [if_pos hk, if_pos hk.symm, fragment, hlast, hbytes]
    rfl
  · rw [if_neg hk, if_neg (Ne.symm hk)]
    rfl

/-- The next packet of a channel goes out. -/
theorem WireInv.cut (h : WireInv codec cap snd rcv accepted delivered wire items)
    (hch : snd.heap[p]? = some ch) (hs : ch.sending ≠ []) :
    WireInv codec cap (snd.set p (ch.writeMsgPacketTo codec false).1) rcv accepted delivered
      (wire ++ packetTypeMsg :: codec.writeBinary ch.nextMsgPacket.2)
      (items ++ [.msg ch.nextMsgPacket.2]) := by
  obtain ⟨hid, hqueue, hsending, hchID, -, hbytes⟩ := nextMsgPacket_spec ch
  -- The scan gives a place. With different ids, the index leads from the id back to it.
  have hp := h.distinct.keyed.lookup_key h.distinct.nodup hch
  have hfind := h.distinct.keyed.find?_set hp (ch.writeMsgPacketTo codec false).1
  have hold := find?_of_lookup hp hch
  refine ⟨h.wire_append (.msg _), fun packet hmem => ?_, h.distinct.set hch hid, h.keyed, ?_, ?_,
    h.capacity_eq, h.fit⟩
  · rcases List.mem_append.mp hmem with hmem | hmem
    · exact h.packets packet hmem
    · cases List.mem_singleton.mp hmem
      rw [hbytes, hchID]
      refine ⟨List.length_take_le _ _, h.known ch.id ?_⟩
      rw [hold]
      rfl
  · intro k hk
    rw [h.distinct.keyed.isSome_find?_set hp] at hk
    exact h.known k hk
  · intro k
    have hinv := h.streams k
    unfold stream at hinv ⊢
    rw [List.filterMap_append, fragmentOn_nextMsgPacket]
    by_cases hkc : k = ch.id
    · subst hkc
      rw [if_pos rfl, ofChannel_of_find (hfind ch.id ▸ if_pos rfl),
        ofChannel_of_find (hfind ch.id ▸ if_pos rfl)]
      rw [ofChannel_of_find hold, ofChannel_of_find hold] at hinv
      have hstep := (Stream.Step.cut _ hs).inv payload_pos hinv
      -- `nextMsgPacket` cuts as the step of the stream does.
      rw [← hsending, ← hqueue] at hstep
      exact hstep
    · have hk : (snd.set p (ch.writeMsgPacketTo codec false).1).find? k = snd.find? k :=
        (hfind k).trans (if_neg hkc)
      rw [if_neg hkc, List.append_nil, ofChannel, ofChannel, hk]
      exact hinv

/-! ### Packets are received -/

/-- A packet within the capacity is collected, and delivers the message at its end. -/
theorem recvMsgPacket_of_le
    (hle : (ch.recving.length : Int) + (packet.bytes.length : Int) ≤ ch.desc.recvMessageCapacity) :
    ch.recvMsgPacket packet =
      if packet.eof = 1 then ({ ch with recving := [] }, .ok (some (ch.recving ++ packet.bytes)))
      else ({ ch with recving := ch.recving ++ packet.bytes }, .ok none) := by
  rw [Channel.recvMsgPacket, if_neg (not_lt.mpr hle)]

/-- The receiver has room for the next packet. -/
theorem WireInv.fits (h : WireInv codec cap snd rcv accepted delivered wire items)
    {rest : List Item} (hitems : items = .msg packet :: rest)
    (hch : rcv.find? packet.channelID = some ch) :
    (ch.recving.length : Int) + (packet.bytes.length : Int) ≤ ch.desc.recvMessageCapacity := by
  have hinv := h.streams packet.channelID
  have hflight : (stream snd rcv accepted delivered items packet.channelID).flight =
      fragment packet :: rest.filterMap (Item.fragmentOn packet.channelID) := by
    rw [stream, hitems]
    simp [Item.fragmentOn]
  have hcap : cap packet.channelID = ch.desc.recvMessageCapacity := by
    rw [← h.capacity_eq, capacity, hch]
    rfl
  have hn : ∀ m ∈ onChannel packet.channelID accepted,
      m.length ≤ ch.desc.recvMessageCapacity.toNat := by
    intro m hm
    have hle := h.fit packet.channelID m hm
    omega
  have hfits := hinv.fits hn hflight
  have hrecving : (stream snd rcv accepted delivered items packet.channelID).recving =
      ch.recving := ofChannel_of_find hch _
  -- A packet in flight is not empty, so the capacity is not 0 either.
  have hne : packet.bytes ≠ [] := by
    refine hinv.flight_nonempty (fragment packet) ?_
    rw [hflight]
    exact List.mem_cons_self
  have hpos := List.length_pos_iff.mpr hne
  rw [hrecving] at hfits
  simp only [fragment] at hfits
  omega

/-- The next packet arrives: `recving` and the delivered messages after it. -/
theorem WireInv.arrive
    (h : WireInv codec cap snd rcv accepted delivered wire (.msg packet :: items))
    (hp : rcv.index.lookup packet.channelID = some p) (hch : rcv.heap[p]? = some ch)
    {recving : List UInt8} {received : List (List UInt8)}
    (hpacket : (packet.eof = 1 ∧ recving = [] ∧ received = [ch.recving ++ packet.bytes]) ∨
      (packet.eof ≠ 1 ∧ recving = ch.recving ++ packet.bytes ∧ received = [])) :
    WireInv codec cap snd (rcv.set p { ch with recving := recving }) accepted
      (delivered ++ received.map (packet.channelID, ·)) (items.map (Item.bytes codec)).flatten
      items := by
  have hfind := h.keyed.find?_set hp { ch with recving := recving }
  have hsome := h.keyed.isSome_find?_set hp { ch with recving := recving }
  have hold := find?_of_lookup hp hch
  refine ⟨rfl, fun packet' hmem => ?_, h.distinct, h.keyed.set hch rfl, fun k hk => ?_, fun k => ?_,
    fun k => ?_, h.fit⟩
  · rw [hsome]
    exact h.packets packet' (.tail _ hmem)
  · rw [hsome]
    exact h.known k hk
  · have hinv := h.streams k
    unfold stream at hinv ⊢
    rw [onChannel_append]
    by_cases hkc : k = packet.channelID
    · subst hkc
      have hfrag : (Item.msg packet :: items).filterMap (Item.fragmentOn packet.channelID) =
          fragment packet :: items.filterMap (Item.fragmentOn packet.channelID) := by
        simp [Item.fragmentOn]
      have hnew := (hfind packet.channelID).trans (if_pos rfl)
      rw [ofChannel_of_find hnew]
      rw [ofChannel_of_find hold, hfrag] at hinv
      -- The mark of the packet decides which of the two arrivals it is.
      rcases hpacket with ⟨heof, rfl, rfl⟩ | ⟨heof, rfl, rfl⟩
      · rw [List.map_singleton, onChannel_singleton, if_pos rfl]
        refine Stream.Step.inv payload_pos ?_ hinv
        exact .arriveLast _ (fragment packet) _ rfl (decide_eq_true heof)
      · rw [List.map_nil, show onChannel packet.channelID [] = [] from rfl, List.append_nil]
        refine Stream.Step.inv payload_pos ?_ hinv
        exact .arriveMore _ (fragment packet) _ rfl (decide_eq_false heof)
    · -- Another channel: the packet is no fragment of its stream.
      have hfrag : (Item.msg packet :: items).filterMap (Item.fragmentOn k) =
          items.filterMap (Item.fragmentOn k) := by
        simp [Item.fragmentOn, Ne.symm hkc]
      have hnone : onChannel k (received.map (packet.channelID, ·)) = [] := by
        simp [onChannel, Ne.symm hkc]
      have hk : (rcv.set p { ch with recving := recving }).find? k = rcv.find? k :=
        (hfind k).trans (if_neg hkc)
      rw [hfrag] at hinv
      rw [hnone, List.append_nil, ofChannel, ofChannel, ofChannel, hk]
      exact hinv
  · rw [← h.capacity_eq, capacity, capacity, hfind]
    split
    · next hkc =>
      rw [hkc, hold]
      rfl
    · rfl

/-- A ping or a pong arrives. -/
theorem WireInv.skip (hitem : item = .ping ∨ item = .pong)
    (h : WireInv codec cap snd rcv accepted delivered wire (item :: items)) :
    WireInv codec cap snd rcv accepted (delivered ++ []) (items.map (Item.bytes codec)).flatten
      items := by
  refine ⟨rfl, fun packet hmem => h.packets packet (.tail _ hmem), h.distinct, h.keyed, h.known,
    fun k => ?_, h.capacity_eq, h.fit⟩
  have hnone : Item.fragmentOn k item = none := by
    rcases hitem with rfl | rfl <;> rfl
  have hinv := h.streams k
  unfold stream at hinv ⊢
  rw [List.filterMap_cons_none hnone] at hinv
  rw [List.append_nil]
  exact hinv

/-- An iteration of the receive routine reads the first item, and fails on none. -/
theorem recvPacket_spec (hcodec : codec.Documented) {c : MConnection}
    (h : WireInv codec cap snd c.channels accepted delivered wire (item :: items)) :
    ∃ res, c.recvPacket codec wire = .ok res ∧
      WireInv codec cap snd res.conn.channels accepted (delivered ++ res.received.toList) res.rest
        items := by
  have hwire : wire = item.bytes codec ++ (items.map (Item.bytes codec)).flatten := by
    rw [h.wire_eq]
    rfl
  rw [hwire]
  cases item with
  | ping => exact ⟨⟨c, _, none⟩, rfl, h.skip (.inl rfl)⟩
  | pong => exact ⟨⟨c, _, none⟩, rfl, h.skip (.inr rfl)⟩
  | msg packet =>
    obtain ⟨hlen, hsome⟩ := h.packets packet List.mem_cons_self
    obtain ⟨ch, hfound⟩ := Option.isSome_iff_exists.mp hsome
    obtain ⟨p, hp, hch⟩ := Option.bind_eq_some_iff.mp hfound
    have hchan : c.channel? packet.channelID = some (p, ch) :=
      Option.bind_eq_some_iff.mpr ⟨p, hp, Option.bind_eq_some_iff.mpr ⟨ch, hch, rfl⟩⟩
    have hrecv := recvMsgPacket_of_le (h.fits rfl hfound)
    -- The codec reads back the packet and leaves the rest of the wire.
    have hread := hcodec.read_write packet (items.map (Item.bytes codec)).flatten hlen
    show ∃ res, MConnection.recvPacket codec c
      (packetTypeMsg :: (codec.writeBinary packet ++ _)) = .ok res ∧ _
    by_cases heof : packet.eof = 1
    · rw [if_pos heof] at hrecv
      refine ⟨⟨c.setChannel p { ch with recving := [] }, _,
        some (packet.channelID, ch.recving ++ packet.bytes)⟩, ?_,
        h.arrive hp hch (.inl ⟨heof, rfl, rfl⟩)⟩
      simp only [MConnection.recvPacket, hread, hchan, hrecv]
      rfl
    · rw [if_neg heof] at hrecv
      refine ⟨⟨c.setChannel p { ch with recving := ch.recving ++ packet.bytes }, _, none⟩, ?_,
        h.arrive hp hch (.inr ⟨heof, rfl, rfl⟩)⟩
      simp only [MConnection.recvPacket, hread, hchan, hrecv]
      rfl

end

end BtmStats.Proofs.P2p
