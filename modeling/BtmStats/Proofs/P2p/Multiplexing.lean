import BtmStats.Proofs.P2p.MConnection

/-!
# `BtmStats.Proofs.P2p.Multiplexing`: runs of a multiplex connection

Every event keeps `WireInv`, so every run does. Two counts give progress: the packets
that the channels have yet to send fall by one with each call of `sendMsgPacket`, and
the items in flight fall by one with each iteration of the receive routine.
-/

set_option autoImplicit false

namespace BtmStats.Proofs.P2p

open Lib Spec Spec.P2p

section
variable {codec : GoWire} {cap : UInt8 → Int} {snd rcv : Channels} {accepted delivered : Record}
variable {wire : List UInt8} {items : List Item}

/-! ### Packets to send -/

/-- The number of packets that a channel has yet to send. -/
def channelToSend (ch : Channel) : Nat :=
  pieces maxMsgPacketPayloadSize ch.sending +
    (ch.sendQueue.map (pieces maxMsgPacketPayloadSize)).sum

def toSend (chs : Channels) : Nat := (chs.heap.map channelToSend).sum

variable {ch : Channel}

theorem channelToSend_idle (h : Idle ch) : channelToSend ch = 0 := by
  rw [channelToSend, h.1, h.2, pieces_nil payload_pos]
  rfl

theorem channelToSend_loaded (ch : Channel) : channelToSend (loaded ch) = channelToSend ch := by
  rcases isSendPending_cases ch with ⟨-, h⟩ | ⟨-, h⟩ | ⟨bytes, queue, hs, hq, h⟩
  · rw [loaded, h]
  · rw [loaded, h]
  · rw [loaded, h, channelToSend, channelToSend, hs, hq, pieces_nil payload_pos, List.map_cons,
      List.sum_cons, Nat.zero_add]

theorem toSend_scan (chs : Channels) : toSend (chs.map loaded) = toSend chs := by
  show ((chs.heap.map loaded).map channelToSend).sum = _
  rw [List.map_map]
  exact congrArg List.sum (List.map_congr_left fun ch _ => channelToSend_loaded ch)

/-- Cutting off a packet leaves one packet less. -/
theorem channelToSend_write (codec : GoWire) (hs : ch.sending ≠ []) :
    channelToSend ch = channelToSend (ch.writeMsgPacketTo codec false).1 + 1 := by
  obtain ⟨-, hqueue, hsending, -⟩ := nextMsgPacket_spec ch
  show _ = pieces _ ch.nextMsgPacket.1.sending +
    (ch.nextMsgPacket.1.sendQueue.map (pieces maxMsgPacketPayloadSize)).sum + 1
  rw [channelToSend, hqueue, hsending, pieces_drop payload_pos hs]
  omega

/-- Replacing one object changes a sum by the difference at its place. -/
theorem sum_map_set {α : Type} {f : α → Nat} {l : List α} {p : Nat} {a b : α}
    (ha : l[p]? = some a) (hf : f a = f b + 1) :
    (l.map f).sum = ((l.set p b).map f).sum + 1 := by
  induction l generalizing p with
  | nil => cases ha
  | cons x l ih =>
    cases p with
    | zero =>
      cases ha
      simp only [List.set_cons_zero, List.map_cons, List.sum_cons]
      omega
    | succ p =>
      simp only [List.set_cons_succ, List.map_cons, List.sum_cons]
      rw [ih ha]
      omega

/-- A queued message is not empty. -/
theorem WireInv.queue_nonempty (h : WireInv codec cap snd rcv accepted delivered wire items)
    (hmem : ch ∈ snd.heap) : ∀ m ∈ ch.sendQueue, m ≠ [] := by
  obtain ⟨p, hp⟩ := List.getElem?_of_mem hmem
  have hfind := find?_of_lookup (h.distinct.keyed.lookup_key h.distinct.nodup hp) hp
  have hinv := h.streams ch.id
  intro m hm
  refine hinv.nonempty m ?_
  rw [hinv.accepted_eq]
  refine List.mem_append_right _ ?_
  show m ∈ ofChannel snd Channel.sendQueue ch.id
  rw [ofChannel_of_find hfind]
  exact hm

/-- After the scan a channel that has something to send has it in `sending`. -/
theorem WireInv.sending_loaded (h : WireInv codec cap snd rcv accepted delivered wire items)
    (hmem : ch ∈ snd.heap) (hidle : ¬ Idle ch) : (loaded ch).sending ≠ [] := by
  rcases isSendPending_cases ch with ⟨hi, -⟩ | ⟨hs, hld⟩ | ⟨bytes, queue, hs, hq, hld⟩
  · exact absurd hi hidle
  · rw [loaded, hld]
    exact hs
  · rw [loaded, hld]
    exact h.queue_nonempty hmem bytes (by rw [hq]; exact List.mem_cons_self)

/-- Nothing to send is left exactly when every channel is idle. -/
theorem WireInv.toSend_eq_zero_iff (h : WireInv codec cap snd rcv accepted delivered wire items) :
    toSend snd = 0 ↔ ∀ ch ∈ snd.heap, Idle ch := by
  rw [toSend, List.sum_eq_zero_iff_forall_eq_nat, List.forall_mem_map]
  refine forall₂_congr fun ch hmem => ⟨fun hz => ?_, channelToSend_idle⟩
  obtain ⟨hs, hq⟩ := Nat.add_eq_zero_iff.mp hz
  refine ⟨eq_nil_of_pieces payload_pos hs, ?_⟩
  rw [List.sum_eq_zero_iff_forall_eq_nat, List.forall_mem_map] at hq
  rw [List.eq_nil_iff_forall_not_mem]
  intro m hm
  exact h.queue_nonempty hmem m hm (eq_nil_of_pieces payload_pos (hq m hm))

/-- A call of `sendMsgPacket` keeps the invariant, and there is one packet less to send
unless there was none. -/
theorem WireInv.sendMsgPacket {c : MConnection}
    (h : WireInv codec cap c.channels rcv accepted delivered wire items) (ratio : Ratio) :
    (∃ items', WireInv codec cap (c.sendMsgPacket codec ratio false).conn.channels rcv accepted
      delivered (wire ++ (c.sendMsgPacket codec ratio false).written) items') ∧
    toSend (c.sendMsgPacket codec ratio false).conn.channels = toSend c.channels - 1 := by
  rcases sendMsgPacket_cases codec c ratio with ⟨hex, hres⟩ | ⟨i, ch, hi, hidle, hres⟩
  · rw [hres]
    -- Every channel is idle: the scan changes nothing, and nothing is written.
    have hzero := h.toSend_eq_zero_iff.mpr hex
    show (∃ items', WireInv codec cap (c.channels.map loaded) rcv accepted delivered (wire ++ [])
      items') ∧ toSend (c.channels.map loaded) = _
    rw [List.append_nil, toSend_scan, hzero]
    exact ⟨⟨items, h.scan⟩, rfl⟩
  · rw [hres]
    -- A pending channel was picked, and the scan has put a message into its `sending`.
    have hs := h.sending_loaded (List.mem_of_getElem? hi) hidle
    have hi' : (c.channels.map loaded).heap[i]? = some (loaded ch) := by
      show (c.channels.heap.map loaded)[i]? = _
      rw [List.getElem?_map, hi]
      rfl
    refine ⟨⟨_, h.scan.cut hi' hs⟩, ?_⟩
    have hsum := sum_map_set hi' (channelToSend_write codec hs)
    rw [← toSend_scan c.channels]
    show toSend ((c.channels.map loaded).set i _) = ((c.channels.map loaded).heap.map _).sum - 1
    rw [hsum]
    rfl

/-! ### Runs -/

/-- The invariant of one direction. -/
structure PipeInv (codec : GoWire) (cap : UInt8 → Int) (w : Pipe) (items : List Item) : Prop where
  ended : w.ended = none
  wire : WireInv codec cap w.sender.channels w.receiver.channels w.accepted w.delivered w.wire items

/-- Messages that the receiver has room for. -/
def Acceptable (cap : UInt8 → Int) (record : Record) : Prop :=
  ∀ chID, ∀ m ∈ onChannel chID record, m ≠ [] ∧ (m.length : Int) ≤ cap chID

theorem Acceptable.of_append {record record' : Record} (h : Acceptable cap (record ++ record')) :
    Acceptable cap record ∧ Acceptable cap record' := by
  refine ⟨fun k m hm => h k m ?_, fun k m hm => h k m ?_⟩
  · rw [onChannel_append]
    exact List.mem_append_left _ hm
  · rw [onChannel_append]
    exact List.mem_append_right _ hm

variable {w : Pipe}

/-- A call of `Send` or `TrySend`. -/
theorem PipeInv.accept (h : PipeInv codec cap w items) {enqueue : Channel → Channel × Bool}
    {bytes : List UInt8} {chID : UInt8}
    (henq : ∀ ch, enqueue ch = (ch, false) ∨ enqueue ch = (ch.enqueue bytes, true))
    (hmsg : Acceptable cap (w.accept chID bytes (w.sender.sendWith enqueue chID)).accepted) :
    PipeInv codec cap (w.accept chID bytes (w.sender.sendWith enqueue chID)) items := by
  refine ⟨h.ended, ?_⟩
  have hinv := h.wire
  unfold Pipe.accept at hmsg ⊢
  rcases sendWith_cases henq w.sender chID with ⟨hfail, hsame⟩ | ⟨hok, p, ch, hp, hch, hset⟩
  · simp only [hfail, hsame, Bool.false_eq_true, if_false, List.append_nil]
    exact hinv
  · simp only [hok, if_true] at hmsg
    obtain ⟨hne, hfit⟩ := hmsg.of_append.2 chID bytes (by
      rw [onChannel_singleton, if_pos rfl]
      exact List.mem_singleton_self bytes)
    simp only [hok, hset, if_true]
    exact hinv.enqueue hp hch hne hfit

/-- An iteration of the receive routine. -/
theorem PipeInv.recv (hcodec : codec.Documented) (h : PipeInv codec cap w items) :
    PipeInv codec cap (w.step codec .recv) items.tail := by
  have hinv := h.wire
  cases items with
  | nil =>
    have hwire : w.wire = [] := hinv.wire_eq
    have hstep : w.step codec .recv = w := if_pos (.inl hwire)
    rw [hstep]
    exact h
  | cons item items =>
    -- An item has bytes, and the routine has not ended.
    have hwire : ¬ (w.wire = [] ∨ w.ended ≠ none) := by
      rintro (hnil | hend)
      · rw [hinv.wire_eq, List.map_cons, List.flatten_cons, List.append_eq_nil_iff] at hnil
        exact item.bytes_ne_nil codec hnil.1
      · exact hend h.ended
    obtain ⟨res, hres, hnext⟩ := recvPacket_spec hcodec hinv
    rw [Pipe.step, if_neg hwire, hres]
    exact ⟨h.ended, hnext⟩

/-- Every event keeps the invariant. -/
theorem PipeInv.step (hcodec : codec.Documented) (h : PipeInv codec cap w items) (op : PipeOp)
    (hmsg : Acceptable cap (w.step codec op).accepted) :
    ∃ items', PipeInv codec cap (w.step codec op) items' := by
  cases op with
  | send chID bytes timedOut =>
    refine ⟨items, h.accept (fun ch => ?_) hmsg⟩
    unfold Channel.sendBytes
    split
    · exact .inr rfl
    · exact .inl rfl
  | trySend chID bytes =>
    refine ⟨items, h.accept (fun ch => ?_) hmsg⟩
    unfold Channel.trySendBytes
    split
    · exact .inr rfl
    · exact .inl rfl
  | sendMsgPacket ratio =>
    obtain ⟨⟨items', hnext⟩, -⟩ := h.wire.sendMsgPacket ratio
    exact ⟨items', h.ended, hnext⟩
  | ping => exact ⟨_, h.ended, h.wire.signal (.inl rfl)⟩
  | pong => exact ⟨_, h.ended, h.wire.signal (.inr rfl)⟩
  | updateStats decay => exact ⟨items, h.ended, h.wire.updateStats decay⟩
  | recv => exact ⟨_, h.recv hcodec⟩

/-- An event adds to the accepted messages. -/
theorem accepted_step (codec : GoWire) (w : Pipe) (op : PipeOp) :
    ∃ more, (w.step codec op).accepted = w.accepted ++ more := by
  cases op with
  | send chID bytes timedOut => exact ⟨_, rfl⟩
  | trySend chID bytes => exact ⟨_, rfl⟩
  | recv =>
    refine ⟨[], ?_⟩
    rw [Pipe.step, List.append_nil]
    split
    · rfl
    · split <;> rfl
  | _ => exact ⟨[], (List.append_nil _).symm⟩

/-- A run whose accepted messages fit at the receiver keeps the invariant. -/
theorem PipeInv.run (hcodec : codec.Documented) (h : PipeInv codec cap w items)
    (ops : List PipeOp) (hmsg : Acceptable cap (w.run codec ops).accepted) :
    ∃ items', PipeInv codec cap (w.run codec ops) items' := by
  induction ops using List.reverseRecOn with
  | nil => exact ⟨items, h⟩
  | append_singleton ops op ih =>
    -- Induction from the end: what was accepted before the last event is acceptable too.
    have hrun : w.run codec (ops ++ [op]) = (w.run codec ops).step codec op :=
      List.foldl_append ..
    rw [hrun] at hmsg ⊢
    obtain ⟨more, hmore⟩ := accepted_step codec (w.run codec ops) op
    obtain ⟨items', hinv⟩ := ih (hmore ▸ hmsg).of_append.1
    exact hinv.step hcodec op hmsg

/-- Calls of `sendMsgPacket`, with any picks. -/
theorem PipeInv.sends (h : PipeInv codec cap w items) (ratios : List Ratio) :
    ∃ items', PipeInv codec cap (w.run codec (ratios.map .sendMsgPacket)) items' ∧
      toSend (w.run codec (ratios.map .sendMsgPacket)).sender.channels =
        toSend w.sender.channels - ratios.length ∧
      (w.run codec (ratios.map .sendMsgPacket)).accepted = w.accepted := by
  induction ratios generalizing w items with
  | nil => exact ⟨items, h, rfl, rfl⟩
  | cons ratio ratios ih =>
    obtain ⟨⟨items', hnext⟩, hless⟩ := h.wire.sendMsgPacket ratio
    have hstep : PipeInv codec cap (w.step codec (.sendMsgPacket ratio)) items' :=
      ⟨h.ended, hnext⟩
    obtain ⟨items'', hinv, hsend, hacc⟩ := ih hstep
    refine ⟨items'', hinv, hsend.trans ?_, hacc⟩
    show toSend (w.sender.sendMsgPacket codec ratio false).conn.channels - ratios.length = _
    rw [hless, List.length_cons]
    omega

/-- Iterations of the receive routine. -/
theorem PipeInv.recvs (hcodec : codec.Documented) (h : PipeInv codec cap w items) (k : Nat) :
    PipeInv codec cap (w.run codec (List.replicate k .recv)) (items.drop k) ∧
      (w.run codec (List.replicate k .recv)).sender = w.sender ∧
      (w.run codec (List.replicate k .recv)).accepted = w.accepted := by
  induction k generalizing w items with
  | zero => exact ⟨h, rfl, rfl⟩
  | succ k ih =>
    have hkeep : (w.step codec .recv).sender = w.sender ∧
        (w.step codec .recv).accepted = w.accepted := by
      rw [Pipe.step]
      split
      · exact ⟨rfl, rfl⟩
      · split <;> exact ⟨rfl, rfl⟩
    obtain ⟨hinv, hsender, hacc⟩ := ih (h.recv hcodec)
    rw [List.drop_tail] at hinv
    exact ⟨hinv, hsender.trans hkeep.1, hacc.trans hkeep.2⟩

/-! ### Exactly once and in order -/

/-- All that was accepted is delivered, and nothing is left collected. -/
def Complete (w : Pipe) : Prop :=
  ∀ chID, onChannel chID w.delivered = onChannel chID w.accepted ∧
    ∀ ch, w.receiver.channels.find? chID = some ch → ch.recving = []

/-- When every channel is idle and nothing is in flight, all is delivered. -/
theorem PipeInv.complete (h : PipeInv codec cap w items) (hidle : Exhausted w.sender)
    (hwire : w.wire = []) : Complete w := by
  -- With no bytes on the wire there is no item in flight.
  have hitems : items = [] := by
    cases items with
    | nil => rfl
    | cons item items =>
      rw [h.wire.wire_eq, List.map_cons, List.flatten_cons, List.append_eq_nil_iff] at hwire
      exact absurd hwire.1 (item.bytes_ne_nil codec)
  subst hitems
  intro k
  have hends : ofChannel w.sender.channels Channel.sendQueue k = [] ∧
      ofChannel w.sender.channels Channel.sending k = [] := by
    cases hk : w.sender.channels.find? k with
    | none =>
      rw [ofChannel, ofChannel, hk]
      exact ⟨rfl, rfl⟩
    | some ch =>
      obtain ⟨p, -, hch⟩ := Option.bind_eq_some_iff.mp hk
      obtain ⟨hs, hq⟩ := hidle ch (List.mem_of_getElem? hch)
      rw [ofChannel_of_find hk, ofChannel_of_find hk]
      exact ⟨hq, hs⟩
  obtain ⟨hdel, hrecv⟩ := (h.wire.streams k).drained hends.1 hends.2 rfl
  refine ⟨hdel, fun ch hch => ?_⟩
  rw [← ofChannel_of_find hch Channel.recving]
  exact hrecv

/-- What `newChannel` makes is empty and has the id of its descriptor. -/
theorem newChannel_spec {desc : ChannelDescriptor} (h : newChannel desc = .ok ch) :
    ch.id = desc.id ∧ ch.sendQueue = [] ∧ ch.sending = [] ∧ ch.recving = [] := by
  rw [newChannel] at h
  split at h
  · cases h
  · split at h
    · cases h
    · cases h
      exact ⟨rfl, rfl, rfl, rfl⟩

/-- Channels that have not been used, with these ids. -/
structure Unused (chs : Channels) (ids : List UInt8) : Prop where
  keyed : chs.Keyed Channel.id
  ids_eq : chs.heap.map Channel.id = ids
  empty : ∀ ch ∈ chs.heap, ch.sendQueue = [] ∧ ch.sending = [] ∧ ch.recving = []

theorem Unused.add {chs : Channels} {ids : List UInt8} (h : Unused chs ids)
    {desc : ChannelDescriptor} (hch : newChannel desc = .ok ch) :
    Unused (chs.add Channel.id ch) (ids ++ [desc.id]) := by
  obtain ⟨hid, hempty⟩ := newChannel_spec hch
  refine ⟨h.keyed.add ch, ?_, fun ch' hmem => ?_⟩
  · show (chs.heap ++ [ch]).map Channel.id = _
    rw [List.map_append, h.ids_eq, List.map_singleton, hid]
  · rcases List.mem_append.mp hmem with hmem | hmem
    · exact h.empty ch' hmem
    · rw [List.mem_singleton.mp hmem]
      exact hempty

/-- The loop of `NewMConnection`. -/
theorem Unused.addAll {chDescs : List ChannelDescriptor} {chs chs' : Channels} {ids : List UInt8}
    (h : Unused chs ids)
    (hadd : chDescs.foldlM (fun channels desc =>
      (newChannel desc).map fun channel => channels.add Channel.id channel) chs = .ok chs') :
    Unused chs' (ids ++ chDescs.map ChannelDescriptor.id) := by
  induction chDescs generalizing chs ids with
  | nil =>
    cases hadd
    rw [List.map_nil, List.append_nil]
    exact h
  | cons desc chDescs ih =>
    rw [List.foldlM_cons] at hadd
    cases hnew : newChannel desc with
    | error e =>
      rw [hnew] at hadd
      cases hadd
    | ok ch =>
      rw [hnew] at hadd
      have hrest := ih (h.add hnew) hadd
      rwa [List.append_assoc] at hrest

theorem unused_of_new {chDescs : List ChannelDescriptor} {c : MConnection}
    (h : newMConnection chDescs = .ok c) :
    Unused c.channels (chDescs.map ChannelDescriptor.id) := by
  have hempty : Unused Arena.empty [] :=
    ⟨Arena.Keyed.empty, rfl, fun _ hmem => absurd hmem List.not_mem_nil⟩
  unfold newMConnection at h
  cases hadd : chDescs.foldlM (fun channels desc =>
      (newChannel desc).map fun channel => channels.add Channel.id channel)
      (Arena.empty : Channels) with
  | error e =>
    rw [hadd] at h
    cases h
  | ok chs =>
    rw [hadd] at h
    cases h
    exact hempty.addAll hadd

/-- Two connections that were just made keep the invariant. -/
theorem PipeInv.fresh {sendDescs recvDescs : List ChannelDescriptor} {sender receiver : MConnection}
    (hsender : newMConnection sendDescs = .ok sender)
    (hreceiver : newMConnection recvDescs = .ok receiver)
    (hids : (sendDescs.map ChannelDescriptor.id).Nodup)
    (hknown : ∀ desc ∈ sendDescs, desc.id ∈ recvDescs.map ChannelDescriptor.id) :
    PipeInv codec (capacity receiver.channels) (Pipe.fresh sender receiver) [] := by
  have hs := unused_of_new hsender
  have hr := unused_of_new hreceiver
  have hnil : ∀ {chs : Channels} {ids : List UInt8}, Unused chs ids → ∀ k,
      ofChannel chs Channel.sendQueue k = [] ∧ ofChannel chs Channel.sending k = [] ∧
        ofChannel chs Channel.recving k = [] := by
    intro chs ids h k
    cases hk : chs.find? k with
    | none =>
      rw [ofChannel, ofChannel, ofChannel, hk]
      exact ⟨rfl, rfl, rfl⟩
    | some ch =>
      obtain ⟨p, -, hch⟩ := Option.bind_eq_some_iff.mp hk
      rw [ofChannel_of_find hk, ofChannel_of_find hk, ofChannel_of_find hk]
      exact h.empty ch (List.mem_of_getElem? hch)
  refine ⟨rfl, rfl, fun _ hmem => absurd hmem List.not_mem_nil, ⟨hs.keyed, hs.ids_eq ▸ hids⟩,
    hr.keyed, fun k hk => ?_, fun k => ?_, fun _ => rfl, fun _ _ hm => absurd hm List.not_mem_nil⟩
  · -- A channel of the sender is one of the receiver, by their descriptors.
    have hmem := (hs.keyed.isSome_find?_iff k).mp hk
    rw [hs.ids_eq] at hmem
    obtain ⟨desc, hdesc, rfl⟩ := List.mem_map.mp hmem
    refine (hr.keyed.isSome_find?_iff desc.id).mpr ?_
    rw [hr.ids_eq]
    exact hknown desc hdesc
  · show (stream sender.channels receiver.channels [] [] [] k).Inv
    rw [stream, (hnil hs k).1, (hnil hs k).2.1, (hnil hr k).2.2]
    exact Stream.Inv.empty

/-- Multiplexing is exactly once and in order. Along every run of two connections, in
which the accepted messages are not empty and within the capacity of the receiver,
the receive routine meets no error, and the messages delivered on a channel are the
first ones accepted on it. When every channel is idle and nothing is in flight, they
are all of them and nothing is left collected. Enough calls of `sendMsgPacket`,
whichever channels they pick, and enough iterations of the receive routine lead
there. -/
theorem multiplexing_exactly_once (hcodec : codec.Documented)
    {sendDescs recvDescs : List ChannelDescriptor} {sender receiver : MConnection}
    (hsender : newMConnection sendDescs = .ok sender)
    (hreceiver : newMConnection recvDescs = .ok receiver)
    (hids : (sendDescs.map ChannelDescriptor.id).Nodup)
    (hknown : ∀ desc ∈ sendDescs, desc.id ∈ recvDescs.map ChannelDescriptor.id)
    (ops : List PipeOp)
    (hmsg : Acceptable (capacity receiver.channels)
      ((Pipe.fresh sender receiver).run codec ops).accepted) :
    let w := (Pipe.fresh sender receiver).run codec ops
    w.ended = none ∧
    (∀ chID, onChannel chID w.delivered <+: onChannel chID w.accepted) ∧
    (Exhausted w.sender → w.wire = [] → Complete w) ∧
    ∃ n, ∀ ratios : List Ratio, n ≤ ratios.length → ∃ k, ∀ j, k ≤ j →
      let w' := w.run codec (ratios.map .sendMsgPacket ++ List.replicate j .recv)
      w'.ended = none ∧ w'.accepted = w.accepted ∧ Exhausted w'.sender ∧ w'.wire = [] ∧
        Complete w' := by
  intro w
  obtain ⟨items, hinv⟩ := (PipeInv.fresh hsender hreceiver hids hknown).run hcodec ops hmsg
  refine ⟨hinv.ended, fun k => (hinv.wire.streams k).delivered_initial, hinv.complete,
    toSend w.sender.channels, fun ratios hlen => ?_⟩
  -- First all packets are sent, each call one of them, and then all items are received.
  obtain ⟨items', hsent, hleft, hacc⟩ := hinv.sends ratios
  refine ⟨items'.length, fun j hj => ?_⟩
  obtain ⟨hrecv, hsame, hacc'⟩ := hsent.recvs hcodec j
  have hrun : w.run codec (ratios.map .sendMsgPacket ++ List.replicate j .recv) =
      (w.run codec (ratios.map .sendMsgPacket)).run codec (List.replicate j .recv) :=
    List.foldl_append ..
  have hidle : Exhausted (w.run codec (ratios.map .sendMsgPacket)).sender :=
    hsent.wire.toSend_eq_zero_iff.mp (hleft.trans (Nat.sub_eq_zero_of_le hlen))
  rw [List.drop_of_length_le hj] at hrecv
  rw [hrun]
  exact ⟨hrecv.ended, hacc'.trans hacc, hsame ▸ hidle, hrecv.wire.wire_eq,
    hrecv.complete (hsame ▸ hidle) hrecv.wire.wire_eq⟩

end

/-- A codec with the length of the payload in two bytes. -/
def plainWire : GoWire where
  writeBinary packet :=
    [packet.channelID, packet.eof] ++ toBytesBE 2 packet.bytes.length ++ packet.bytes
  readBinary _ input :=
    match input with
    | chID :: eof :: hi :: lo :: rest =>
      let n := ofBytesBE [hi, lo]
      .ok (⟨chID, eof, rest.take n⟩, rest.drop n)
    | _ => .error RootErr.eof.err

theorem plainWire_documented : plainWire.Documented where
  read_write packet rest hlen := by
    have hn : ofBytesBE (toBytesBE 2 packet.bytes.length) = packet.bytes.length :=
      ofBytesBE_toBytesBE_of_lt (by rw [maxMsgPacketPayloadSize] at hlen; omega)
    obtain ⟨hi, lo, hbytes⟩ := List.length_eq_two.mp (length_toBytesBE 2 packet.bytes.length)
    rw [hbytes] at hn
    show plainWire.readBinary _ (([packet.channelID, packet.eof] ++
      toBytesBE 2 packet.bytes.length ++ packet.bytes) ++ rest) = _
    rw [hbytes]
    show Except.ok (MsgPacket.mk _ _ ((packet.bytes ++ rest).take (ofBytesBE [hi, lo])),
      (packet.bytes ++ rest).drop (ofBytesBE [hi, lo])) = _
    rw [hn, List.take_left', List.drop_left'] <;> rfl

/-- The descriptor of a channel with the default capacities. -/
def plainDesc (chID : UInt8) : ChannelDescriptor := ⟨chID, 1, 0, 0, 0⟩

def plainChannel (chID : UInt8) : Channel :=
  ⟨(plainDesc chID).fillDefaults, chID, [], 0, [], [], 1, 0⟩

/-- A connection with two channels. -/
def plainConn : MConnection :=
  ⟨(Arena.empty.add Channel.id (plainChannel 1)).add Channel.id (plainChannel 2), true, false,
    false⟩

/-- Always the first pending channel. -/
def firstRatio : Ratio := ⟨fun _ => 0, fun _ => by decide +kernel⟩

/-- A message on each of two channels, sent and received. -/
theorem multiplexing_two_channels :
    let ops := [.trySend 2 [7], .trySend 1 [8, 9], .sendMsgPacket firstRatio,
      .sendMsgPacket firstRatio, .recv, .recv]
    let w := (Pipe.fresh plainConn plainConn).run plainWire ops
    w.accepted = [(2, [7]), (1, [8, 9])] ∧ Exhausted w.sender ∧ w.wire = [] ∧ Complete w := by
  intro ops w
  have hnew : newMConnection [plainDesc 1, plainDesc 2] = .ok plainConn := rfl
  have hacc : w.accepted = [(2, [7]), (1, [8, 9])] := by decide +kernel
  have hidle : Exhausted w.sender := by
    unfold Exhausted Idle
    decide +kernel
  have hwire : w.wire = [] := by decide +kernel
  have hmsg : Acceptable (capacity plainConn.channels) w.accepted := by
    rw [hacc]
    intro chID m hm
    obtain ⟨entry, hentry, rfl⟩ := List.mem_map.mp hm
    obtain ⟨hmem, hk⟩ := List.mem_filter.mp hentry
    obtain rfl : entry.1 = chID := of_decide_eq_true hk
    rcases List.mem_cons.mp hmem with rfl | hmem
    · exact ⟨by simp, by decide⟩
    · rw [List.mem_singleton.mp hmem]
      exact ⟨by simp, by decide⟩
  obtain ⟨-, -, hcomplete, -⟩ := multiplexing_exactly_once plainWire_documented hnew hnew
    (by decide) (by decide) ops hmsg
  exact ⟨hacc, hidle, hwire, hcomplete hidle hwire⟩

end BtmStats.Proofs.P2p
