import Mathlib.Data.List.Perm.Basic
import BtmStats.Lib.Runs
import BtmStats.Proofs.P2p.SendRoutine

/-!
# `BtmStats.Proofs.P2p.QueueSize`: what `sendQueueSize` counts

A message counts from the increment of its call until its last packet is cut off. The call puts it
into the queue before it increments, and the send routine may cut it in between, so the counter
can lag behind, and even be negative. `Accounted` has the balance of a channel: the counter and the
calls that are between their two steps make up the messages in the queue and the one that is being
sent.

The routine cuts a packet only off a channel that it has found pending, and between the two nobody
else empties `sending` (`QueueInv.chosen`). An empty message would break this: it is pending and
leaves `sending` empty.

The counter is an `int32`. The balance holds in its arithmetic for every run, and so as numbers
whenever the difference fits.
-/

set_option autoImplicit false

namespace BtmStats.Proofs.P2p

open Lib Spec Spec.P2p

/-! ### One channel -/

/-- The messages of a channel that are not fully cut into packets. -/
def uncut (ch : Channel) : Nat := ch.sendQueue.length + if ch.sending = [] then 0 else 1

/-- The balance of a channel with a number of calls between their two steps. -/
structure Accounted (raising : Nat) (ch : Channel) : Prop where
  size : ch.sendQueueSize + Int32.ofNat raising = Int32.ofNat (uncut ch)
  nonempty : ∀ bytes ∈ ch.sendQueue, bytes ≠ []

section
variable {raising : Nat} {ch : Channel}

theorem Accounted.put (h : Accounted raising ch) {bytes : List UInt8} (hbytes : bytes ≠ []) :
    Accounted (raising + 1) (ch.put bytes) := by
  constructor
  · have huncut : uncut (ch.put bytes) = uncut ch + 1 := by
      show (ch.sendQueue ++ [bytes]).length + (if ch.sending = [] then 0 else 1) = _
      rw [List.length_append, List.length_singleton, uncut]
      omega
    rw [huncut, Int32.ofNat_add, Int32.ofNat_add, ← h.size]
    exact (Int32.add_assoc ..).symm
  · intro bytes' hmem
    rcases List.mem_append.mp hmem with hmem | hmem
    · exact h.nonempty bytes' hmem
    · rw [List.mem_singleton.mp hmem]
      exact hbytes

theorem Accounted.increment (h : Accounted (raising + 1) ch) : Accounted raising ch.increment := by
  refine ⟨?_, h.nonempty⟩
  show ch.sendQueueSize + 1 + Int32.ofNat raising = Int32.ofNat (uncut ch)
  rw [← h.size, Int32.ofNat_add, Int32.add_assoc, Int32.add_comm 1]
  rfl

/-- `isSendPending` moves a message from the queue into `sending`. -/
theorem Accounted.isSendPending (h : Accounted raising ch) :
    Accounted raising ch.isSendPending.1 := by
  rcases isSendPending_cases ch with ⟨-, hres⟩ | ⟨-, hres⟩ | ⟨bytes, queue, hs, hq, hres⟩
  · rwa [hres]
  · rwa [hres]
  · rw [hres]
    have hbytes : bytes ≠ [] := h.nonempty bytes (by rw [hq]; exact List.mem_cons_self)
    have huncut : uncut { ch with sending := bytes, sendQueue := queue } = uncut ch := by
      simp only [uncut, hs, hq, hbytes, if_true, if_false, List.length_cons]
    refine ⟨by rw [huncut]; exact h.size, fun b hb => h.nonempty b ?_⟩
    rw [hq]
    exact List.mem_cons_of_mem bytes hb

/-- A channel that is pending has something in `sending`. -/
theorem Accounted.sending_of_pending (h : Accounted raising ch)
    (hpending : ch.isSendPending.2 = true) : ch.isSendPending.1.sending ≠ [] := by
  rcases isSendPending_cases ch with ⟨-, hres⟩ | ⟨hs, hres⟩ | ⟨bytes, queue, hs, hq, hres⟩
  · rw [hres] at hpending
    cases hpending
  · rwa [hres]
  · rw [hres]
    exact h.nonempty bytes (by rw [hq]; exact List.mem_cons_self)

theorem sending_isSendPending (hs : ch.sending ≠ []) : ch.isSendPending.1.sending ≠ [] := by
  rcases isSendPending_cases ch with ⟨hidle, -⟩ | ⟨-, hres⟩ | ⟨_, _, hempty, -, -⟩
  · exact absurd hidle.1 hs
  · rwa [hres]
  · exact absurd hempty hs

/-- The last packet of a message takes it off the counter. -/
theorem Accounted.nextMsgPacket (h : Accounted raising ch) (hs : ch.sending ≠ []) :
    Accounted raising ch.nextMsgPacket.1 := by
  unfold Channel.nextMsgPacket
  by_cases hle : ch.sending.length ≤ maxMsgPacketPayloadSize
  · rw [if_pos hle]
    refine ⟨?_, h.nonempty⟩
    have huncut : uncut ch = ch.sendQueue.length + 1 := by
      simp only [uncut, hs, if_false]
    have hsize := h.size
    rw [huncut, Int32.ofNat_add] at hsize
    show ch.sendQueueSize - 1 + Int32.ofNat raising = Int32.ofNat ch.sendQueue.length
    rw [Int32.sub_eq_add_neg, Int32.add_assoc, Int32.add_comm (-1), ← Int32.add_assoc, hsize,
      Int32.add_assoc]
    exact Int32.add_zero _
  · rw [if_neg hle]
    have hrest : ch.sending.drop (min maxMsgPacketPayloadSize ch.sending.length) ≠ [] := by
      rw [Nat.min_eq_left (by omega), Ne, List.drop_eq_nil_iff]
      exact hle
    refine ⟨?_, h.nonempty⟩
    have hsize := h.size
    simp only [uncut, hs, hrest, if_false] at hsize ⊢
    exact hsize

theorem Accounted.writeMsgPacketTo (codec : GoWire) (h : Accounted raising ch)
    (hs : ch.sending ≠ []) (failed : Bool) :
    Accounted raising (ch.writeMsgPacketTo codec failed).1 := by
  have hnext := h.nextMsgPacket hs
  cases failed with
  | true => exact hnext
  | false => exact ⟨hnext.size, hnext.nonempty⟩

end

/-- The balance as numbers: it holds exactly where the counter can hold the difference. -/
theorem toInt_add_iff {size : Int32} {raising uncut : Nat}
    (h : size + Int32.ofNat raising = Int32.ofNat uncut) :
    size.toInt + raising = uncut ↔
      -2 ^ 31 ≤ (uncut : Int) - raising ∧ (uncut : Int) - raising < 2 ^ 31 := by
  have hsize : size = Int32.ofInt ((uncut : Int) - raising) := by
    rw [Int32.ofInt_sub, Int32.ofInt_eq_ofNat, Int32.ofInt_eq_ofNat]
    exact Int32.eq_sub_iff_add_eq.mpr h
  constructor
  · intro heq
    have hlow := Int32.le_toInt size
    have hhigh := Int32.toInt_lt size
    constructor <;> omega
  · rintro ⟨hlow, hhigh⟩
    rw [hsize, Int32.toInt_ofInt_of_le hlow hhigh]
    omega

/-! ### The connection -/

/-- The channel that the send routine has found pending. -/
def chosen : SendPhase → Option Nat
  | .scanning _ _ (some (_, p)) => some p
  | .writing _ p => some p
  | _ => none

/-- Every channel has its balance, and the chosen one has something in `sending`. -/
structure QueueInv (st : CountedSending) : Prop where
  calls : ∀ call ∈ st.calls, call.bytes ≠ []
  accounted : ∀ {p ch}, st.conn.channels.heap[p]? = some ch → Accounted (st.raising.count p) ch
  chosen : ∀ {p ch}, chosen st.phase = some p → st.conn.channels.heap[p]? = some ch →
    ch.sending ≠ []

/-- The calls of the run have non-empty messages. -/
def NonEmptyMessage : CountedEvent → Prop
  | .send (.call _ bytes _) => bytes ≠ []
  | _ => True

section
variable {st st' : CountedSending}

/-- A step of the routine that leaves the channels alone and chooses none. -/
theorem QueueInv.of_same (h : QueueInv st) (hchannels : st'.conn.channels = st.conn.channels)
    (hcalls : st'.calls = st.calls) (hraising : st'.raising = st.raising)
    (hphase : P2p.chosen st'.phase = none ∨ st'.phase = st.phase) : QueueInv st' := by
  refine ⟨?_, ?_, ?_⟩
  · rw [hcalls]
    exact h.calls
  · rw [hchannels, hraising]
    exact h.accounted
  · intro p ch hp hch
    rw [hchannels] at hch
    rcases hphase with hnone | hsame
    · rw [hnone] at hp
      cases hp
    · rw [hsame] at hp
      exact h.chosen hp hch

/-- One channel is replaced by one with the right balance. -/
theorem accounted_set {heap : List Channel} {raising raising' : List Nat}
    (h : ∀ {p ch}, heap[p]? = some ch → Accounted (raising.count p) ch) {p : Nat} {new : Channel}
    (hnew : Accounted (raising'.count p) new)
    (hothers : ∀ q, q ≠ p → raising'.count q = raising.count q) {q : Nat} {ch : Channel}
    (hch : (heap.set p new)[q]? = some ch) : Accounted (raising'.count q) ch := by
  by_cases hq : p = q
  · subst hq
    rw [List.getElem?_set_self'] at hch
    obtain ⟨_, -, rfl⟩ := Option.map_eq_some_iff.mp hch
    exact hnew
  · rw [List.getElem?_set_ne hq] at hch
    rw [hothers q (Ne.symm hq)]
    exact h hch

/-- One channel is replaced, and the property of the chosen one is kept. -/
theorem chosen_set {heap : List Channel} {p q : Nat} {old new ch : Channel}
    (h : ∀ {ch}, heap[q]? = some ch → ch.sending ≠ []) (hold : heap[p]? = some old)
    (hkeeps : old.sending ≠ [] → new.sending ≠ []) (hch : (heap.set p new)[q]? = some ch) :
    ch.sending ≠ [] := by
  by_cases hq : p = q
  · subst hq
    rw [getElem?_set_of_some hold] at hch
    cases hch
    exact hkeeps (h hold)
  · rw [List.getElem?_set_ne hq] at hch
    exact h hch

theorem mem_of_mem_eraseIdx_calls (h : QueueInv st) (k : Nat) :
    ∀ call ∈ st.calls.eraseIdx k, call.bytes ≠ [] :=
  fun call hmem => h.calls call (List.mem_of_mem_eraseIdx hmem)

theorem QueueInv.enqueue (h : QueueInv st) (k : Nat) (timedOut : Bool) :
    QueueInv (st.enqueue k timedOut) := by
  unfold CountedSending.enqueue
  split
  · exact h
  · next call hcall =>
    split
    · exact h
    · next ch hch =>
      split
      · exact h
      · split
        · have hbytes := h.calls call (List.mem_of_getElem? hcall)
          refine ⟨mem_of_mem_eraseIdx_calls h k, accounted_set h.accounted ?_ ?_,
            fun hp => chosen_set (h.chosen hp) hch id⟩
          · rw [List.count_cons_self]
            exact (h.accounted hch).put hbytes
          · intro q hq
            exact List.count_cons_of_ne (Ne.symm hq)
        · exact ⟨mem_of_mem_eraseIdx_calls h k, h.accounted, h.chosen⟩

theorem QueueInv.increment (h : QueueInv st) (k : Nat) : QueueInv (st.increment k) := by
  unfold CountedSending.increment
  split
  · exact h
  · next p hp =>
    split
    · exact h
    · next ch hch =>
      obtain ⟨hlt, hget⟩ := List.getElem?_eq_some_iff.mp hp
      -- The call leaves the ones between their steps.
      have hcount : ∀ q, st.raising.count q = (p :: st.raising.eraseIdx k).count q := by
        intro q
        rw [← hget]
        exact (List.getElem_cons_eraseIdx_perm hlt).symm.count_eq q
      refine ⟨h.calls, accounted_set h.accounted ?_ ?_,
        fun hp => chosen_set (h.chosen hp) hch id⟩
      · have hacc := h.accounted hch
        rw [hcount, List.count_cons_self] at hacc
        exact hacc.increment
      · intro q hq
        rw [hcount, List.count_cons_of_ne (Ne.symm hq)]

theorem QueueInv.call (h : QueueInv st) (chID : UInt8) {bytes : List UInt8} (hbytes : bytes ≠ [])
    (waits : Bool) :
    QueueInv { st with toSending := st.toSending.call chID bytes waits } := by
  unfold Sending.call
  split
  · exact h
  · split
    · exact h
    · refine ⟨fun call hmem => ?_, h.accounted, h.chosen⟩
      rcases List.mem_append.mp hmem with hmem | hmem
      · exact h.calls call hmem
      · rw [List.mem_singleton.mp hmem]
        exact hbytes

theorem QueueInv.chStats (h : QueueInv st) (decay : Int → Int) (failed : Bool) :
    QueueInv { st with
      conn := { st.conn with channels := st.conn.channels.map (Channel.updateStats decay) }
      phase := .after failed } := by
  refine ⟨h.calls, fun {p ch} hch => ?_, fun hp => by cases hp⟩
  change (st.conn.channels.heap.map (Channel.updateStats decay))[p]? = some ch at hch
  rw [List.getElem?_map] at hch
  obtain ⟨old, hold, rfl⟩ := Option.map_eq_some_iff.mp hch
  exact ⟨(h.accounted hold).size, (h.accounted hold).nonempty⟩

/-- A scan may cut a packet and end a message. -/
theorem QueueInv.scan (h : QueueInv st) {sent i : Nat} {least : Option (ℚ × Nat)}
    (hphase : st.phase = .scanning sent i least) (ratio : Ratio) :
    QueueInv { st with toSending := st.toSending.scan sent i least ratio } := by
  have hleast : ∀ {p ch}, least.map Prod.snd = some p → st.conn.channels.heap[p]? = some ch →
      ch.sending ≠ [] := by
    intro p ch hp hch
    refine h.chosen ?_ hch
    rw [hphase]
    obtain ⟨⟨_, _⟩, rfl, rfl⟩ := Option.map_eq_some_iff.mp hp
    rfl
  unfold Sending.scan
  split
  · next ch hch =>
    have hacc := h.accounted hch
    refine ⟨h.calls, accounted_set h.accounted hacc.isSendPending fun _ _ => rfl,
      fun {p ch'} hp hch' => ?_⟩
    dsimp only at hp
    split at hp
    · next hpick =>
      -- This channel is chosen.
      cases hp
      change (st.conn.channels.heap.set i _)[i]? = some ch' at hch'
      rw [getElem?_set_of_some hch] at hch'
      cases hch'
      exact hacc.sending_of_pending hpick.1
    · refine chosen_set (hleast ?_) hch sending_isSendPending hch'
      cases least with
      | none => cases hp
      | some least => exact hp
  · split
    · exact ⟨h.calls, h.accounted, fun hp => by cases hp⟩
    · refine ⟨h.calls, h.accounted, fun {p ch} hp hch => hleast ?_ hch⟩
      exact hp

theorem QueueInv.write (codec : GoWire) (h : QueueInv st) {sent i : Nat}
    (hphase : st.phase = .writing sent i) (failed : Bool) :
    QueueInv { st with toSending := st.toSending.write codec sent i failed } := by
  have hchosen : P2p.chosen st.phase = some i := by
    rw [hphase]
    rfl
  unfold Sending.write
  split
  · exact h
  · next ch hch =>
    have hnew := (h.accounted hch).writeMsgPacketTo codec (h.chosen hchosen hch) failed
    have hset : ∀ {p ch'},
        (st.conn.channels.heap.set i (ch.writeMsgPacketTo codec failed).1)[p]? = some ch' →
        Accounted (st.raising.count p) ch' :=
      accounted_set h.accounted hnew fun _ _ => rfl
    split
    · exact ⟨h.calls, hset, fun hp => by cases hp⟩
    · split
      · exact ⟨h.calls, hset, fun hp => by cases hp⟩
      · exact ⟨h.calls, hset, fun hp => by cases hp⟩

theorem QueueInv.check (h : QueueInv st) (failed : Bool) :
    QueueInv { st with toSending := st.toSending.check failed } := by
  unfold Sending.check
  split
  · exact h.of_same rfl rfl rfl (.inl rfl)
  · split
    · exact h.of_same rfl rfl rfl (.inl rfl)
    · exact h.of_same rfl rfl rfl (.inl rfl)

/-- Every event keeps the account of every channel. -/
theorem QueueInv.step (codec : GoWire) (h : QueueInv st) (event : CountedEvent)
    (hevent : NonEmptyMessage event) : QueueInv (st.step codec event) := by
  cases event with
  | increment k => exact h.increment k
  | send event =>
    cases event with
    | call chID bytes waits => exact h.call chID hevent waits
    | enqueue k timedOut => exact h.enqueue k timedOut
    | notify =>
      simp only [CountedSending.step, Sending.step, Sending.notify]
      split
      · exact h
      · exact h.of_same rfl rfl rfl (.inr rfl)
    | stop => exact h.of_same rfl rfl rfl (.inr rfl)
    | flush | ping failed | pong failed | allow | repost =>
      simp only [CountedSending.step, Sending.step]
      split
      · exact h.of_same rfl rfl rfl (.inl rfl)
      · exact h
    | chStats decay =>
      simp only [CountedSending.step, Sending.step]
      split
      · exact h.chStats decay false
      · exact h
    | quit =>
      simp only [CountedSending.step, Sending.step]
      split
      · split
        · exact h
        · exact h.of_same rfl rfl rfl (.inl rfl)
      · exact h
    | send =>
      simp only [CountedSending.step, Sending.step]
      split
      · split
        · exact h.of_same rfl rfl rfl (.inl rfl)
        · exact h
      · exact h
    | scan ratio =>
      simp only [CountedSending.step, Sending.step]
      split
      · next hphase => exact h.scan hphase ratio
      · exact h
    | write failed =>
      simp only [CountedSending.step, Sending.step]
      split
      · next hphase => exact h.write codec hphase failed
      · exact h
    | check =>
      simp only [CountedSending.step, Sending.step]
      split
      · exact h.check _
      · exact h

end

/-! ### Runs -/

theorem enqueueOf_of_room {waits timedOut : Bool} {bytes : List UInt8} {ch : Channel}
    (h : ch.hasRoom = true ∧ (waits = true → timedOut = false)) :
    enqueueOf waits bytes timedOut ch = (ch.enqueue bytes, true) := by
  cases waits with
  | true =>
    have hslot : ch.hasRoom = true ∧ timedOut = false := ⟨h.1, h.2 rfl⟩
    exact if_pos hslot
  | false => exact if_pos h.1

theorem enqueueOf_of_no_room {waits timedOut : Bool} {bytes : List UInt8} {ch : Channel}
    (h : ¬ (ch.hasRoom = true ∧ (waits = true → timedOut = false))) :
    enqueueOf waits bytes timedOut ch = (ch, false) := by
  cases waits with
  | true =>
    have hslot : ¬ (ch.hasRoom = true ∧ timedOut = false) := fun hc => h ⟨hc.1, fun _ => hc.2⟩
    exact if_neg hslot
  | false => exact if_neg fun hc => h ⟨hc, fun hw => Bool.noConfusion hw⟩

/-- A call whose two steps nothing separates is the step of `SendRoutine.lean`. -/
theorem enqueue_increment (st : CountedSending) (k : Nat) (timedOut : Bool)
    (hraising : st.raising = []) :
    ((st.enqueue k timedOut).increment 0).toSending = st.toSending.enqueue k timedOut := by
  have hidle : (st.increment 0).toSending = st.toSending := by
    simp only [CountedSending.increment, hraising, List.getElem?_nil]
  unfold CountedSending.enqueue Sending.enqueue
  cases hcall : st.calls[k]? with
  | none => exact hidle
  | some call =>
    simp only
    cases hch : st.conn.channels.heap[call.place]? with
    | none => exact hidle
    | some ch =>
      simp only
      by_cases hblocked : call.waits = true ∧ ch.hasRoom = false ∧ timedOut = false
      · rw [if_pos hblocked, if_pos hblocked]
        exact hidle
      rw [if_neg hblocked, if_neg hblocked, ← enqueueOf]
      by_cases hroom : ch.hasRoom = true ∧ (call.waits = true → timedOut = false)
      · have hput := getElem?_set_of_some hch (ch.put call.bytes)
        rw [if_pos hroom, enqueueOf_of_room hroom]
        simp only [CountedSending.increment, List.getElem?_cons_zero, MConnection.setChannel,
          Arena.set, hput, List.set_set, if_true]
        rfl
      · rw [if_neg hroom, enqueueOf_of_no_room hroom, setChannel_self hch]
        simp only [CountedSending.increment, hraising, List.getElem?_nil]
        rfl

/-- The channels of a new connection are as `newChannel` makes them. -/
theorem newChannel_of_mem {chDescs : List ChannelDescriptor} {c : MConnection}
    (h : newMConnection chDescs = .ok c) :
    ∀ ch ∈ c.channels.heap, ∃ desc, newChannel desc = .ok ch := by
  obtain ⟨chs, hadd, hc⟩ := bind_eq_ok_iff.mp h
  cases hc
  refine foldlM_preserves (P := fun chs : Channels => ∀ ch ∈ chs.heap,
    ∃ desc, newChannel desc = .ok ch) (fun chs chs' desc _ hchs hstep => ?_)
    (fun _ hmem => absurd hmem List.not_mem_nil) hadd
  cases hnew : newChannel desc with
  | error e =>
    rw [hnew] at hstep
    cases hstep
  | ok ch =>
    rw [hnew] at hstep
    cases hstep
    intro ch' hmem
    rcases List.mem_append.mp hmem with hmem | hmem
    · exact hchs ch' hmem
    · rw [List.mem_singleton.mp hmem]
      exact ⟨desc, hnew⟩

theorem newChannel_sendQueueSize {desc : ChannelDescriptor} {ch : Channel}
    (h : newChannel desc = .ok ch) : ch.sendQueueSize = 0 := by
  rw [newChannel] at h
  split at h
  · cases h
  · split at h
    · cases h
    · cases h
      rfl

theorem QueueInv.fresh {chDescs : List ChannelDescriptor} {c : MConnection}
    (hnew : newMConnection chDescs = .ok c) : QueueInv (.fresh c) := by
  refine ⟨fun _ hmem => absurd hmem List.not_mem_nil, fun {p ch} hch => ?_, fun hp => by cases hp⟩
  obtain ⟨desc, hdesc⟩ := newChannel_of_mem hnew ch (List.mem_of_getElem? hch)
  obtain ⟨-, hqueue, hsending, -⟩ := newChannel_spec hdesc
  constructor
  · rw [newChannel_sendQueueSize hdesc, uncut, hqueue, if_pos hsending]
    rfl
  · intro bytes hmem
    rw [hqueue] at hmem
    cases hmem

theorem QueueInv.run (codec : GoWire) {st : CountedSending} (h : QueueInv st)
    {events : List CountedEvent} (hevents : ∀ event ∈ events, NonEmptyMessage event) :
    QueueInv (st.run codec events) := by
  induction events generalizing st with
  | nil => exact h
  | cons event events ih =>
    obtain ⟨hevent, hrest⟩ := List.forall_mem_cons.mp hevents
    exact ih (h.step codec event hevent) hrest

/-- In every run of a new connection with non-empty messages, and for every channel, the counter
and the calls between their enqueue and their increment make up the messages in the queue and the
one being sent. The sum is one of `int32`; the numbers are equal exactly where the difference fits.
With no call in between the counter is the number of the messages that are not fully cut. -/
theorem sendQueueSize_accounts (codec : GoWire) {chDescs : List ChannelDescriptor}
    {c : MConnection} (hnew : newMConnection chDescs = .ok c) (events : List CountedEvent)
    (hevents : ∀ event ∈ events, NonEmptyMessage event) :
    let st := (CountedSending.fresh c).run codec events
    ∀ p ch, st.conn.channels.heap[p]? = some ch →
      ch.sendQueueSize + Int32.ofNat (st.raising.count p) = Int32.ofNat (uncut ch) ∧
      (ch.sendQueueSize.toInt + st.raising.count p = uncut ch ↔
        -2 ^ 31 ≤ (uncut ch : Int) - st.raising.count p ∧
          (uncut ch : Int) - st.raising.count p < 2 ^ 31) ∧
      (st.raising.count p = 0 → ch.sendQueueSize = Int32.ofNat (uncut ch)) := by
  intro st p ch hch
  have hinv : QueueInv st := (QueueInv.fresh hnew).run codec hevents
  have hsize := (hinv.accounted hch).size
  refine ⟨hsize, toInt_add_iff hsize, fun hzero => ?_⟩
  rw [hzero] at hsize
  exact (Int32.add_zero _).symm.trans hsize

/-- The second message is cut before its call increments: the counter is -1. -/
theorem sendQueueSize_negative :
    let scan := CountedEvent.send (.scan firstRatio)
    let events : List CountedEvent :=
      [.send (.call 1 [7] true), .send (.enqueue 0 false), .increment 0, .send .notify,
        .send .send, .send .allow, scan, scan, scan, .send (.write false),
        .send (.call 1 [8] true), .send (.enqueue 0 false), scan, scan, scan,
        .send (.write false)]
    let st := (CountedSending.fresh plainConn).run plainWire events
    (st.conn.channels.heap.map Channel.sendQueueSize = [-1, 0] ∧ st.raising = [0]) ∧
    ∀ p ch, st.conn.channels.heap[p]? = some ch →
      ch.sendQueueSize + Int32.ofNat (st.raising.count p) = Int32.ofNat (uncut ch) ∧
      (ch.sendQueueSize.toInt + st.raising.count p = uncut ch ↔
        -2 ^ 31 ≤ (uncut ch : Int) - st.raising.count p ∧
          (uncut ch : Int) - st.raising.count p < 2 ^ 31) ∧
      (st.raising.count p = 0 → ch.sendQueueSize = Int32.ofNat (uncut ch)) := by
  intro scan events st
  have hnew : newMConnection [plainDesc 1, plainDesc 2] = .ok plainConn := rfl
  refine ⟨by decide +kernel, sendQueueSize_accounts plainWire hnew events ?_⟩
  simp [events, scan, NonEmptyMessage]

end BtmStats.Proofs.P2p
