import BtmStats.Spec.P2p.MConnection

/-!
# `BtmStats.Proofs.P2p.RecvBuffer`: what a channel makes of any packets

`recvMsgPacket` has three outcomes (`recvMsgPacket_cases`), and everything here is read off
them: the bound on the buffer is kept by each of them, and a packet that is taken extends
the message under way or ends it (`Reassembly.more`, `Reassembly.finish`). The buffer is a
slice whose array is used again for every message; only what it shows enters the results
(`Slice.visible_append`).
-/

set_option autoImplicit false

namespace BtmStats.Proofs.P2p

open Lib Spec Spec.P2p

/-! ### One packet -/

/-- The outcomes of `recvMsgPacket`: too many bytes, the end of a message, or a part of it. -/
theorem recvMsgPacket_cases (ch : RecvBuffer) (arrival : Arrival) :
    (ch.recvMsgPacket arrival = (ch, .error RootErr.binaryReadOverflow.err)) ∨
    ∃ ch' : RecvBuffer, ch'.recvMessageCapacity = ch.recvMessageCapacity ∧
      ((ch.recving.visible ++ arrival.packet.bytes).length : Int) ≤ ch.recvMessageCapacity ∧
      (arrival.packet.eof = 1 ∧ ch'.recving.visible = [] ∧
          ch.recvMsgPacket arrival =
            (ch', .ok (some (ch.recving.visible ++ arrival.packet.bytes))) ∨
        arrival.packet.eof ≠ 1 ∧
          ch'.recving.visible = ch.recving.visible ++ arrival.packet.bytes ∧
          ch.recvMsgPacket arrival = (ch', .ok none)) := by
  rw [RecvBuffer.recvMsgPacket]
  by_cases hover : ch.recvMessageCapacity <
      (ch.recving.len : Int) + (arrival.packet.bytes.length : Int)
  · exact .inl (if_pos hover)
  · have hle : ((ch.recving.visible ++ arrival.packet.bytes).length : Int) ≤
        ch.recvMessageCapacity := by
      rw [List.length_append, Slice.length_visible]
      omega
    have happend := Slice.visible_append ch.recving arrival.packet.bytes arrival.spare
    rw [if_neg hover]
    by_cases heof : arrival.packet.eof = 1
    · refine .inr ⟨{ ch with recving :=
        (ch.recving.append arrival.packet.bytes arrival.spare).clear }, rfl, hle,
        .inl ⟨heof, Slice.visible_clear _, ?_⟩⟩
      rw [← happend]
      exact if_pos heof
    · exact .inr ⟨{ ch with recving := ch.recving.append arrival.packet.bytes arrival.spare },
        rfl, hle, .inr ⟨heof, happend, if_neg heof⟩⟩

/-- With the buffer as the list of its bytes, this is `recvMsgPacket` of
`Spec.P2p.MConnection`. -/
theorem recvMsgPacket_refines {ch : Channel} {buf : RecvBuffer}
    (hcap : buf.recvMessageCapacity = ch.desc.recvMessageCapacity)
    (hrecving : buf.recving.visible = ch.recving) (arrival : Arrival) :
    (buf.recvMsgPacket arrival).1.recving.visible =
        (ch.recvMsgPacket arrival.packet).1.recving ∧
      (buf.recvMsgPacket arrival).2 = (ch.recvMsgPacket arrival.packet).2 := by
  rw [RecvBuffer.recvMsgPacket, Channel.recvMsgPacket, hcap, ← hrecving, Slice.length_visible]
  split
  · exact ⟨hrecving, rfl⟩
  · simp only [Slice.visible_append]
    split
    · exact ⟨rfl, rfl⟩
    · exact ⟨Slice.visible_append _ _ _, rfl⟩

/-! ### Messages -/

/-- The payloads one after the other. -/
def payload (packets : List MsgPacket) : List UInt8 := packets.flatMap MsgPacket.bytes

/-- The packets are groups that end with the byte 1, and a rest without it. The messages
are the payloads of the groups, and the payload of the rest is under way. -/
def Reassembly (packets : List MsgPacket) (messages : List (List UInt8))
    (pending : List UInt8) : Prop :=
  ∃ (groups : List (List MsgPacket × MsgPacket)) (tail : List MsgPacket),
    packets = (groups.flatMap fun g => g.1 ++ [g.2]) ++ tail ∧
    (∀ g ∈ groups, (∀ p ∈ g.1, p.eof ≠ 1) ∧ g.2.eof = 1) ∧ (∀ p ∈ tail, p.eof ≠ 1) ∧
    messages = groups.map (fun g => payload (g.1 ++ [g.2])) ∧ pending = payload tail

theorem reassembly_nil : Reassembly [] [] [] :=
  ⟨[], [], rfl, fun _ h => absurd h List.not_mem_nil, fun _ h => absurd h List.not_mem_nil, rfl,
    rfl⟩

theorem payload_concat (packets : List MsgPacket) (p : MsgPacket) :
    payload (packets ++ [p]) = payload packets ++ p.bytes := by
  simp [payload]

section
variable {packets : List MsgPacket} {messages : List (List UInt8)} {pending : List UInt8}
  {p : MsgPacket}

theorem Reassembly.more (h : Reassembly packets messages pending) (hp : p.eof ≠ 1) :
    Reassembly (packets ++ [p]) messages (pending ++ p.bytes) := by
  obtain ⟨groups, tail, rfl, hgroups, htail, rfl, rfl⟩ := h
  refine ⟨groups, tail ++ [p], List.append_assoc .., hgroups, ?_, rfl, (payload_concat tail p).symm⟩
  intro q hq
  rcases List.mem_append.mp hq with hq | hq
  · exact htail q hq
  · exact List.mem_singleton.mp hq ▸ hp

theorem Reassembly.finish (h : Reassembly packets messages pending) (hp : p.eof = 1) :
    Reassembly (packets ++ [p]) (messages ++ [pending ++ p.bytes]) [] := by
  obtain ⟨groups, tail, rfl, hgroups, htail, rfl, rfl⟩ := h
  refine ⟨groups ++ [(tail, p)], [], ?_, ?_, fun _ h => absurd h List.not_mem_nil, ?_, rfl⟩
  · simp
  · intro g hg
    rcases List.mem_append.mp hg with hg | hg
    · exact hgroups g hg
    · exact List.mem_singleton.mp hg ▸ ⟨htail, hp⟩
  · simp [payload_concat]

end

/-! ### Sequences of packets -/

/-- The call returned no error. -/
def isOk (result : Except Err (Option (List UInt8))) : Bool := result.toBool

/-- The messages that the calls returned. -/
def messagesOf (results : List (Except Err (Option (List UInt8)))) : List (List UInt8) :=
  results.filterMap fun result => result.toOption.join

theorem feed_cons (ch : RecvBuffer) (x : Arrival) (xs : List Arrival) :
    ch.feed (x :: xs) = (((ch.recvMsgPacket x).1.feed xs).1,
      (ch.recvMsgPacket x).2 :: ((ch.recvMsgPacket x).1.feed xs).2) := rfl

theorem feed_append (ch : RecvBuffer) (xs ys : List Arrival) :
    ch.feed (xs ++ ys) = (((ch.feed xs).1.feed ys).1,
      (ch.feed xs).2 ++ ((ch.feed xs).1.feed ys).2) := by
  induction xs generalizing ch with
  | nil => rfl
  | cons x xs ih =>
    rw [List.cons_append, feed_cons, feed_cons, ih]
    rfl

theorem feed_concat (ch : RecvBuffer) (xs : List Arrival) (x : Arrival) :
    ch.feed (xs ++ [x]) = (((ch.feed xs).1.recvMsgPacket x).1,
      (ch.feed xs).2 ++ [((ch.feed xs).1.recvMsgPacket x).2]) := feed_append ch xs [x]

theorem length_feed (ch : RecvBuffer) (xs : List Arrival) : (ch.feed xs).2.length = xs.length := by
  induction xs generalizing ch with
  | nil => rfl
  | cons x xs ih =>
    rw [feed_cons]
    exact congrArg (· + 1) (ih _)

/-- The results for the first packets are the first results. -/
theorem feed_take (ch : RecvBuffer) (xs : List Arrival) (n : Nat) :
    (ch.feed (xs.take n)).2 = (ch.feed xs).2.take n := by
  rcases Nat.le_total n xs.length with hn | hn
  · have hsplit := congrArg Prod.snd (feed_append ch (xs.take n) (xs.drop n))
    rw [List.take_append_drop] at hsplit
    rw [hsplit, List.take_left' (by rw [length_feed, List.length_take, Nat.min_eq_left hn])]
  · rw [List.take_of_length_le hn, List.take_of_length_le (by rwa [length_feed])]

variable {ch : RecvBuffer}

/-- The bound, over any packets: what is taken fits the capacity, and what does not fit is
not taken. Induction from the end of the sequence. -/
theorem feed_bounded (hstart : ch.recving.visible = []) (arrivals : List Arrival) :
    (ch.feed arrivals).1.recvMessageCapacity = ch.recvMessageCapacity ∧
      ((ch.feed arrivals).1.recving.visible.length : Int) ≤ max 0 ch.recvMessageCapacity := by
  induction arrivals using List.reverseRecOn with
  | nil =>
    refine ⟨rfl, ?_⟩
    show (ch.recving.visible.length : Int) ≤ _
    rw [hstart]
    exact le_max_left _ _
  | append_singleton xs x ih =>
    obtain ⟨hcap, hlen⟩ := ih
    rw [feed_concat]
    rcases recvMsgPacket_cases (ch.feed xs).1 x with herr | ⟨ch', hcap', hle, hout⟩
    · rw [herr]
      exact ⟨hcap, hlen⟩
    · rcases hout with ⟨-, hvis, hrun⟩ | ⟨-, hvis, hrun⟩
      · rw [hrun]
        refine ⟨hcap'.trans hcap, ?_⟩
        show (ch'.recving.visible.length : Int) ≤ _
        rw [hvis]
        exact le_max_left _ _
      · rw [hrun]
        refine ⟨hcap'.trans hcap, ?_⟩
        show (ch'.recving.visible.length : Int) ≤ _
        rw [hvis]
        exact (hle.trans hcap.le).trans (le_max_right _ _)

/-- Without an error the messages are those of the packets. Induction from the end of the
sequence. -/
theorem feed_reassembles (hstart : ch.recving.visible = []) (arrivals : List Arrival)
    (hok : (ch.feed arrivals).2.all isOk) :
    Reassembly (arrivals.map Arrival.packet) (messagesOf (ch.feed arrivals).2)
        (ch.feed arrivals).1.recving.visible ∧
      ∀ m ∈ messagesOf (ch.feed arrivals).2, (m.length : Int) ≤ ch.recvMessageCapacity := by
  induction arrivals using List.reverseRecOn with
  | nil =>
    refine ⟨?_, fun m h => absurd h List.not_mem_nil⟩
    show Reassembly [] [] ch.recving.visible
    rw [hstart]
    exact reassembly_nil
  | append_singleton xs x ih =>
    rw [feed_concat] at hok ⊢
    rw [List.all_append, Bool.and_eq_true] at hok
    obtain ⟨hasm, hlens⟩ := ih hok.1
    have hcap := (feed_bounded hstart xs).1
    rw [List.map_append, messagesOf, List.filterMap_append]
    rcases recvMsgPacket_cases (ch.feed xs).1 x with herr | ⟨ch', -, hle, hout⟩
    · rw [herr] at hok
      cases hok.2
    · rcases hout with ⟨heof, hvis, hrun⟩ | ⟨heof, hvis, hrun⟩
      · rw [hrun]
        refine ⟨hvis ▸ hasm.finish heof, fun m hm => ?_⟩
        rcases List.mem_append.mp hm with hm | hm
        · exact hlens m hm
        · obtain rfl := List.mem_singleton.mp hm
          exact hle.trans hcap.le
      · rw [hrun]
        show Reassembly _ (messagesOf (ch.feed xs).2 ++ []) ch'.recving.visible ∧
          ∀ m ∈ messagesOf (ch.feed xs).2 ++ [], (m.length : Int) ≤ ch.recvMessageCapacity
        rw [List.append_nil, hvis]
        exact ⟨hasm.more heof, hlens⟩

/-- A new buffer shows nothing. -/
theorem visible_newRecvBuffer {desc : ChannelDescriptor} (h : newRecvBuffer desc = .ok ch) :
    ch.recving.visible = [] := by
  rw [newRecvBuffer] at h
  cases hch : newChannel desc with
  | error p =>
    rw [hch] at h
    cases h
  | ok c =>
    rw [hch] at h
    cases h
    rfl

/-- For every channel that `newChannel` makes and all packets: the buffer is bounded, an error
leaves it as it is, and the calls before the first error return the messages of their
packets. -/
theorem recvMsgPackets_exact {desc : ChannelDescriptor} (hnew : newRecvBuffer desc = .ok ch)
    (arrivals : List Arrival) :
    ((ch.feed arrivals).1.recving.len : Int) ≤ max 0 ch.recvMessageCapacity ∧
    (∀ arrival err, ((ch.feed arrivals).1.recvMsgPacket arrival).2 = .error err →
      ((ch.feed arrivals).1.recvMsgPacket arrival).1.recving = (ch.feed arrivals).1.recving) ∧
    (∃ pending, Reassembly
      ((arrivals.take ((ch.feed arrivals).2.takeWhile isOk).length).map Arrival.packet)
      (messagesOf ((ch.feed arrivals).2.takeWhile isOk)) pending) ∧
    ∀ m ∈ messagesOf ((ch.feed arrivals).2.takeWhile isOk),
      (m.length : Int) ≤ ch.recvMessageCapacity := by
  have hstart := visible_newRecvBuffer hnew
  refine ⟨?_, ?_, ?_⟩
  · rw [← Slice.length_visible]
    exact (feed_bounded hstart arrivals).2
  · intro arrival err herr
    rcases recvMsgPacket_cases (ch.feed arrivals).1 arrival with hrun | ⟨ch', -, -, hout⟩
    · rw [hrun]
    · rcases hout with ⟨-, -, hrun⟩ | ⟨-, -, hrun⟩
      · rw [hrun] at herr
        cases herr
      · rw [hrun] at herr
        cases herr
  · -- The packets before the first error, on their own.
    have hfirst : (ch.feed (arrivals.take ((ch.feed arrivals).2.takeWhile isOk).length)).2 =
        (ch.feed arrivals).2.takeWhile isOk := by
      rw [feed_take]
      exact (List.prefix_iff_eq_take.mp (List.takeWhile_prefix isOk)).symm
    have hok := feed_reassembles hstart
      (arrivals.take ((ch.feed arrivals).2.takeWhile isOk).length) (by
        rw [hfirst]
        exact List.all_takeWhile)
    rw [hfirst] at hok
    exact ⟨⟨_, hok.1⟩, hok.2⟩

/-- The two packets of a message and the first of the next. -/
def threePackets : List Arrival :=
  [⟨⟨0x40, 0, [1, 2]⟩, []⟩, ⟨⟨0x40, 1, [3]⟩, []⟩, ⟨⟨0x40, 0, [4]⟩, []⟩]

/-- A channel with the capacities of the repository, a message in two packets and a packet of
the next one: the message is what the receiver returns, and what its packets hold. -/
theorem recvMsgPackets_exact_default :
    ∃ ch, newRecvBuffer ⟨0x40, 5, 100, 0, 0⟩ = .ok ch ∧
      (ch.feed threePackets).2 = [.ok none, .ok (some [1, 2, 3]), .ok none] ∧
      ((ch.feed threePackets).1.recving.len : Int) ≤ max 0 ch.recvMessageCapacity ∧
      (∃ pending, Reassembly (threePackets.map Arrival.packet) [[1, 2, 3]] pending) ∧
      (([1, 2, 3] : List UInt8).length : Int) ≤ ch.recvMessageCapacity := by
  have hvalue : (newRecvBuffer ⟨0x40, 5, 100, 0, 0⟩).map (fun ch => (ch.feed threePackets).2) =
      .ok [.ok none, .ok (some [1, 2, 3]), .ok none] := by decide +kernel
  cases hnew : newRecvBuffer ⟨0x40, 5, 100, 0, 0⟩ with
  | error p =>
    rw [hnew] at hvalue
    cases hvalue
  | ok ch =>
    rw [hnew] at hvalue
    have hresults : (ch.feed threePackets).2 = _ := Except.ok.inj hvalue
    obtain ⟨hlen, -, hmessages, hcapacity⟩ := recvMsgPackets_exact hnew threePackets
    rw [hresults] at hmessages hcapacity
    exact ⟨ch, rfl, hresults, hlen, hmessages, hcapacity _ (List.mem_singleton.mpr rfl)⟩

/-- A negative capacity is not replaced by the default, and no buffer is that short. -/
theorem recving_exceeds_negative_capacity :
    ∃ ch, newRecvBuffer ⟨0x40, 5, 100, 0, -1⟩ = .ok ch ∧
      ¬ ((ch.feed []).1.recving.len : Int) ≤ ch.recvMessageCapacity :=
  ⟨_, rfl, by decide⟩

end BtmStats.Proofs.P2p
