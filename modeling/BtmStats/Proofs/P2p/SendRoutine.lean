import BtmStats.Lib.Doorbell
import BtmStats.Proofs.P2p.Multiplexing
import BtmStats.Spec.P2p.SendRoutine

/-!
# `BtmStats.Proofs.P2p.SendRoutine`: the send routine does not oversleep

The send routine is the consumer of a doorbell (`Lib.Doorbell`): the cells are the
channels, the bell is the token of `c.send`, and the producers are the calls of `Send`
and `TrySend`. `doorbell` reads a state so, and `step_rings` says that every step of
the program is a step of the doorbell or changes nothing of it. `no_lost_wakeup` follows
for every run.

A scan that has found a pending channel counts as busy: it goes on over the other
channels, which may take their next message, and ends with a packet written.
-/

set_option autoImplicit false

namespace BtmStats.Proofs.P2p

open Lib Spec Spec.P2p

/-! ### The doorbell of a connection -/

/-- The channel at a place has nothing to send. -/
def IdleAt (c : MConnection) (i : Nat) : Prop := ∀ ch, c.channels.heap[i]? = some ch → Idle ch

/-- The send routine as a consumer. -/
def consumer (running : Bool) : SendPhase → Doorbell.Phase
  | .waiting | .after _ => if running then .asleep else .gone
  | .limited => if running then .looking 0 else .gone
  | .scanning _ i none => if running then .looking i else .gone
  | .scanning _ _ (some _) | .writing _ _ | .reposting | .ended => if running then .busy else .gone

def doorbell (st : Sending) : Doorbell.State :=
  ⟨IdleAt st.conn, st.conn.send, st.notifying, consumer st.conn.running st.phase⟩

theorem consumer_stopped (phase : SendPhase) : consumer false phase = .gone := by
  cases phase with
  | scanning sent i least => cases least <;> rfl
  | _ => rfl

/-- A step of the doorbell, or no change of it. -/
def Rings (st st' : Sending) : Prop :=
  doorbell st' = doorbell st ∨
    Doorbell.Step st.conn.channels.heap.length (doorbell st) (doorbell st')

theorem Rings.of_stopped (st : Sending) {st' : Sending} (h : st'.conn.running = false) :
    Rings st st' := by
  right
  have hgone : doorbell st' = { doorbell st' with phase := .gone } := by
    rw [doorbell, h, consumer_stopped]
  rw [hgone]
  exact .quit ..

/-! ### The steps -/

variable {codec : GoWire}

theorem Idle.updateStats_iff (decay : Int → Int) (ch : Channel) :
    Idle (ch.updateStats decay) ↔ Idle ch := Iff.rfl

theorem idleAt_updateStats (decay : Int → Int) (c : MConnection) :
    IdleAt { c with channels := c.channels.map (Channel.updateStats decay) } = IdleAt c := by
  funext i
  simp [IdleAt, Arena.map, Idle.updateStats_iff]

variable {st : Sending} {sent : Nat} {ch : Channel}

theorem setChannel_self {c : MConnection} {p : Nat} (h : c.channels.heap[p]? = some ch) :
    c.setChannel p ch = c := by
  rw [MConnection.setChannel, Arena.set_self h]

/-- What every step keeps: the number of channels, and that a stopped connection stays
stopped. -/
structure Frame (st st' : Sending) : Prop where
  length_eq : st'.conn.channels.heap.length = st.conn.channels.heap.length
  of_running : st'.conn.running = true → st.conn.running = true

theorem Frame.refl (st : Sending) : Frame st st := ⟨rfl, id⟩

theorem Frame.setChannel (st : Sending) (p : Nat) (ch : Channel) {st' : Sending}
    (h : st'.conn = st.conn.setChannel p ch) : Frame st st' := by
  refine ⟨?_, fun hrun => ?_⟩
  · rw [h]
    exact List.length_set
  · rw [h] at hrun
    exact hrun

theorem call_rings (st : Sending) (chID : UInt8) (bytes : List UInt8) (waits : Bool) :
    Frame st (st.call chID bytes waits) ∧ Rings st (st.call chID bytes waits) := by
  unfold Sending.call
  split
  · exact ⟨.refl st, .inl rfl⟩
  · split
    · exact ⟨.refl st, .inl rfl⟩
    · exact ⟨⟨rfl, id⟩, .inl rfl⟩

/-- The message of a call, put into the queue of its channel. -/
def enqueueOf (waits : Bool) (bytes : List UInt8) (timedOut : Bool) (ch : Channel) :
    Channel × Bool :=
  if waits then ch.sendBytes bytes timedOut else ch.trySendBytes bytes

/-- A call that finds no slot leaves its channel as it was. -/
theorem enqueueOf_failed {waits timedOut : Bool} {bytes : List UInt8}
    (h : (enqueueOf waits bytes timedOut ch).2 = false) :
    (enqueueOf waits bytes timedOut ch).1 = ch := by
  unfold enqueueOf Channel.sendBytes Channel.trySendBytes at *
  split_ifs at * <;> rfl

theorem enqueue_rings (st : Sending) (k : Nat) (timedOut : Bool) :
    Frame st (st.enqueue k timedOut) ∧ Rings st (st.enqueue k timedOut) := by
  unfold Sending.enqueue
  split
  · exact ⟨.refl st, .inl rfl⟩
  · rename_i call hcall
    split
    · exact ⟨.refl st, .inl rfl⟩
    · rename_i ch hch
      split
      · exact ⟨.refl st, .inl rfl⟩
      · refine ⟨.setChannel st _ _ rfl, ?_⟩
        rw [← enqueueOf]
        cases hres : (enqueueOf call.waits call.bytes timedOut ch).2 with
        | true =>
          -- The message is queued, and the call is between its two steps.
          right
          simp only [hres]
          exact .fill (doorbell st) _
        | false =>
          left
          simp only [hres, enqueueOf_failed hres, setChannel_self hch]
          rfl

theorem notify_rings (st : Sending) : Frame st st.notify ∧ Rings st st.notify := by
  unfold Sending.notify
  split
  · exact ⟨.refl st, .inl rfl⟩
  · exact ⟨⟨rfl, id⟩, .inr (.ring (doorbell st) (st.notifying - 1))⟩

/-- The doorbell of a running connection. -/
theorem doorbell_running {phase : SendPhase} (hrun : st.conn.running = true)
    (hphase : st.phase = phase) :
    doorbell st = ⟨IdleAt st.conn, st.conn.send, st.notifying, consumer true phase⟩ := by
  rw [doorbell, hrun, hphase]

theorem scan_frame (st : Sending) (sent i : Nat) (least : Option (ℚ × Nat)) (ratio : Ratio) :
    Frame st (st.scan sent i least ratio) := by
  unfold Sending.scan
  split
  · exact .setChannel st _ _ rfl
  · split
    · exact ⟨rfl, id⟩
    · exact ⟨rfl, id⟩

/-- A scan moves the doorbell as the abstract routine does. -/
theorem scan_rings {i : Nat} {least : Option (ℚ × Nat)} (hrun : st.conn.running = true)
    (hphase : st.phase = .scanning sent i least) (ratio : Ratio) :
    Rings st (st.scan sent i least ratio) := by
  right
  rw [doorbell_running hrun hphase]
  unfold Sending.scan
  cases hch : st.conn.channels.heap[i]? with
  | none =>
    have hlen : st.conn.channels.heap.length ≤ i := List.getElem?_eq_none_iff.mp hch
    cases least with
    | none =>
      simp only [doorbell, hrun]
      exact .sleep (doorbell st) i hlen
    | some least =>
      simp only [doorbell, hrun]
      exact .serve ⟨IdleAt st.conn, st.conn.send, st.notifying, .busy⟩ _
  | some ch =>
    simp only [doorbell, MConnection.setChannel, hrun]
    cases least with
    | some least =>
      -- A channel is chosen, this one or an earlier one.
      split
      · exact .serve ⟨IdleAt st.conn, st.conn.send, st.notifying, .busy⟩ _
      · exact .serve ⟨IdleAt st.conn, st.conn.send, st.notifying, .busy⟩ _
    | none =>
      rcases isSendPending_cases ch with ⟨hidle, h⟩ | ⟨hs, h⟩ | ⟨bytes, queue, hs, hq, h⟩
      · have hat : IdleAt st.conn i := by
          intro ch' hch'
          obtain rfl := Option.some.inj (hch.symm.trans hch')
          exact hidle
        simp only [h, Arena.set_self hch]
        exact .pass (doorbell st) i hat
      · simp only [h, Option.map_none, Option.getD_none, ratio.of_lt, and_self, if_true]
        exact .serve ⟨IdleAt st.conn, st.conn.send, st.notifying, .looking i⟩ _
      · simp only [h, Option.map_none, Option.getD_none, ratio.of_lt, and_self, if_true]
        exact .serve ⟨IdleAt st.conn, st.conn.send, st.notifying, .looking i⟩ _

theorem write_frame (st : Sending) (sent i : Nat) (failed : Bool) :
    Frame st (st.write codec sent i failed) := by
  unfold Sending.write
  split
  · exact .refl st
  · split
    · exact ⟨List.length_set, fun hrun => Bool.noConfusion hrun⟩
    · split
      · exact .setChannel st _ _ rfl
      · exact .setChannel st _ _ rfl

theorem write_rings {i : Nat} (hrun : st.conn.running = true) (hphase : st.phase = .writing sent i)
    (failed : Bool) : Rings st (st.write codec sent i failed) := by
  unfold Sending.write
  split
  · exact .inl rfl
  · split
    · exact .of_stopped st rfl
    · right
      rw [doorbell_running hrun hphase]
      split
      · simp only [doorbell, MConnection.setChannel, hrun]
        exact .again ⟨IdleAt st.conn, st.conn.send, st.notifying, .busy⟩ _
      · simp only [doorbell, MConnection.setChannel, hrun]
        exact .serve ⟨IdleAt st.conn, st.conn.send, st.notifying, .busy⟩ _

theorem check_frame (st : Sending) (failed : Bool) : Frame st (st.check failed) := by
  unfold Sending.check
  split
  · exact ⟨rfl, id⟩
  · split
    · exact ⟨rfl, fun hrun => Bool.noConfusion hrun⟩
    · exact ⟨rfl, id⟩

theorem check_rings {failed : Bool} (hrun : st.conn.running = true)
    (hphase : st.phase = .after failed) : Rings st (st.check failed) := by
  unfold Sending.check
  rw [if_neg (by rw [hrun]; exact Bool.noConfusion)]
  split
  · exact .of_stopped st rfl
  · left
    rw [doorbell_running hrun hphase, doorbell, hrun]
    rfl

theorem step_frame (st : Sending) (event : SendEvent) : Frame st (st.step codec event) := by
  cases event with
  | call chID bytes waits => exact (call_rings st chID bytes waits).1
  | enqueue k timedOut => exact (enqueue_rings st k timedOut).1
  | notify => exact (notify_rings st).1
  | stop => exact ⟨rfl, fun hrun => Bool.noConfusion hrun⟩
  | flush | ping failed | pong failed | allow | repost =>
    simp only [Sending.step]
    split <;> exact ⟨rfl, id⟩
  | chStats decay =>
    simp only [Sending.step]
    split
    · exact ⟨List.length_map _, id⟩
    · exact .refl st
  | quit | send =>
    simp only [Sending.step]
    split
    · split <;> exact ⟨rfl, id⟩
    · exact .refl st
  | scan ratio =>
    simp only [Sending.step]
    split
    · exact scan_frame ..
    · exact .refl st
  | write failed =>
    simp only [Sending.step]
    split
    · exact write_frame ..
    · exact .refl st
  | check =>
    simp only [Sending.step]
    split
    · exact check_frame ..
    · exact .refl st

/-- Every step of the program is a step of the doorbell. -/
theorem step_rings (hrun : st.conn.running = true) (event : SendEvent) :
    Rings st (st.step codec event) := by
  cases event with
  | call chID bytes waits => exact (call_rings st chID bytes waits).2
  | enqueue k timedOut => exact (enqueue_rings st k timedOut).2
  | notify => exact (notify_rings st).2
  | stop => exact .of_stopped st rfl
  | flush | ping failed | pong failed | allow =>
    simp only [Sending.step]
    split
    · rename_i hphase
      left
      rw [doorbell_running hrun hphase, doorbell, hrun]
      rfl
    · exact .inl rfl
  | chStats decay =>
    simp only [Sending.step]
    split
    · rename_i hphase
      left
      rw [doorbell_running hrun hphase, doorbell, idleAt_updateStats, hrun]
      rfl
    · exact .inl rfl
  | quit =>
    simp only [Sending.step, hrun, if_true]
    split <;> exact .inl rfl
  | send =>
    simp only [Sending.step]
    split
    · rename_i hphase
      split
      · right
        rw [doorbell_running hrun hphase]
        simp only [doorbell, hrun]
        exact .wake (doorbell st)
      · exact .inl rfl
    · exact .inl rfl
  | scan ratio =>
    simp only [Sending.step]
    split
    · exact scan_rings hrun (by assumption) ratio
    · exact .inl rfl
  | write failed =>
    simp only [Sending.step]
    split
    · exact write_rings hrun (by assumption) failed
    · exact .inl rfl
  | repost =>
    simp only [Sending.step]
    split
    · rename_i hphase
      right
      rw [doorbell_running hrun hphase]
      simp only [doorbell, hrun]
      exact .rest ⟨IdleAt st.conn, st.conn.send, st.notifying, .busy⟩
    · exact .inl rfl
  | check =>
    simp only [Sending.step]
    split
    · exact check_rings hrun (by assumption)
    · exact .inl rfl

/-! ### Uninterrupted runs

What `MConnection.lean` does in one piece is the run of the steps one after the other. -/

theorem run_append (st : Sending) (events events' : List SendEvent) :
    st.run codec (events ++ events') = (st.run codec events).run codec events' :=
  List.foldl_append

/-- A call that nothing interrupts. -/
theorem run_call (hcalls : st.calls = []) (hnotifying : st.notifying = 0) (chID : UInt8)
    (bytes : List UInt8) (timedOut waits : Bool) :
    (st.run codec [.call chID bytes waits, .enqueue 0 timedOut, .notify]).conn =
      (st.conn.sendWith (enqueueOf waits bytes timedOut) chID).1 := by
  obtain ⟨conn, phase, calls, notifying⟩ := st
  cases hcalls
  cases hnotifying
  show (((Sending.mk conn phase [] 0).call chID bytes waits).enqueue 0 timedOut).notify.conn = _
  unfold Sending.call MConnection.sendWith
  by_cases hrun : conn.running = false
  · rw [if_pos hrun, if_pos hrun]
    rfl
  · rw [if_neg hrun, if_neg hrun]
    cases hch : conn.channel? chID with
    | none => rfl
    | some found =>
      obtain ⟨p, ch⟩ := found
      have hheap : conn.channels.heap[p]? = some ch := by
        obtain ⟨q, -, hq⟩ := Option.bind_eq_some_iff.mp hch
        obtain ⟨ch', hch', hpair⟩ := Option.bind_eq_some_iff.mp hq
        cases hpair
        exact hch'
      simp only [Sending.enqueue, List.nil_append, List.getElem?_cons_zero, hheap]
      rw [← enqueueOf]
      split
      · rename_i hblocked
        -- A `Send` that still waits has changed nothing.
        have hfail : enqueueOf waits bytes timedOut ch = (ch, false) := by
          simp [enqueueOf, Channel.sendBytes, hblocked]
        rw [hfail, setChannel_self hheap]
        rfl
      · cases (enqueueOf waits bytes timedOut ch).2 with
        | true => simp [Sending.notify]
        | false => simp [Sending.notify]

/-- The state in the loop of `sendMsgPacket`, before place `i`. -/
def scanState (st : Sending) (sent : Nat) (heap : List Channel) (i : Nat)
    (least : Option (ℚ × Nat)) : Sending :=
  { st with
    conn := { st.conn with channels := { st.conn.channels with heap } }
    phase := .scanning sent i least }

/-- An iteration of the loop of `sendMsgPacket`. -/
theorem scan_cons {before rest : List Channel}
    (hheap : st.conn.channels.heap = before ++ ch :: rest) (least : Option (ℚ × Nat))
    (ratio : Ratio) :
    st.scan sent before.length least ratio =
      scanState st sent (before ++ [loaded ch] ++ rest) (before ++ [loaded ch]).length
        (if ch.isSendPending.2 = true ∧
            ratio.of (loaded ch) < (least.map Prod.fst).getD maxFloat32 then
          some (ratio.of (loaded ch), before.length)
        else least) := by
  have hch : st.conn.channels.heap[before.length]? = some ch := by simp [hheap]
  have hset : (before ++ ch :: rest).set before.length (loaded ch) =
      before ++ [loaded ch] ++ rest := by simp
  unfold Sending.scan
  rw [hch]
  simp only [MConnection.setChannel, Arena.set, hheap, hset, List.length_append,
    List.length_singleton, scanState]

/-- The loop of `sendMsgPacket` from a place on. -/
theorem run_scan (ratio : Ratio) (rest : List Channel) :
    ∀ (st : Sending) (sent : Nat) (before : List Channel) (least : Option (ℚ × Nat))
      (leastChannel : Option (Nat × Channel)),
      st.conn.channels.heap = before ++ rest → st.phase = .scanning sent before.length least →
      least.map Prod.snd = leastChannel.map Prod.fst →
      ∃ least' : Option (ℚ × Nat),
        least'.map Prod.snd = (scanChannels ratio rest before.length
          ((least.map Prod.fst).getD maxFloat32) leastChannel).2.map Prod.fst ∧
        st.run codec (List.replicate rest.length (.scan ratio)) =
          scanState st sent (before ++ rest.map loaded) (before.length + rest.length) least' := by
  induction rest with
  | nil =>
    intro st sent before least leastChannel hheap hphase hleast
    refine ⟨least, hleast, ?_⟩
    rw [scanState, List.map_nil, ← hheap, List.length_nil, Nat.add_zero, ← hphase]
    rfl
  | cons ch rest ih =>
    intro st sent before least leastChannel hheap hphase hleast
    have hstep : st.step codec (.scan ratio) = st.scan sent before.length least ratio := by
      simp only [Sending.step, hphase]
    have hlen : (before ++ [loaded ch]).length + rest.length =
        before.length + (ch :: rest).length := by
      simp only [List.length_append, List.length_cons, List.length_nil]
      omega
    -- Whatever the iteration chose, the rest of the loop is the induction hypothesis.
    have hrest : ∀ (least : Option (ℚ × Nat)) (leastChannel : Option (Nat × Channel)),
        st.step codec (.scan ratio) = scanState st sent (before ++ [loaded ch] ++ rest)
          (before ++ [loaded ch]).length least →
        least.map Prod.snd = leastChannel.map Prod.fst →
        ∃ least' : Option (ℚ × Nat),
          least'.map Prod.snd = (scanChannels ratio rest (before.length + 1)
            ((least.map Prod.fst).getD maxFloat32) leastChannel).2.map Prod.fst ∧
          st.run codec (List.replicate (ch :: rest).length (.scan ratio)) =
            scanState st sent (before ++ (ch :: rest).map loaded)
              (before.length + (ch :: rest).length) least' := by
      intro least leastChannel hst hleast
      obtain ⟨least', hleast', hrun⟩ := ih (st.step codec (.scan ratio)) sent
        (before ++ [loaded ch]) least leastChannel (by rw [hst]; rfl) (by rw [hst]; rfl) hleast
      rw [List.length_append] at hleast'
      refine ⟨least', hleast', hrun.trans ?_⟩
      rw [hst, hlen, List.append_assoc before [loaded ch] (rest.map loaded)]
      rfl
    rw [scan_cons hheap] at hstep
    by_cases hpick : ch.isSendPending.2 = true ∧
        ratio.of (loaded ch) < (least.map Prod.fst).getD maxFloat32
    · rw [scanChannels_pick ratio rest before.length leastChannel hpick]
      rw [if_pos hpick] at hstep
      exact hrest _ (some (before.length, loaded ch)) hstep rfl
    · rw [scanChannels_skip ratio rest before.length leastChannel hpick]
      rw [if_neg hpick] at hstep
      exact hrest _ leastChannel hstep hleast

/-- The end of the loop of `sendMsgPacket`. -/
theorem scan_end (st : Sending) (sent : Nat) {heap : List Channel} {i : Nat}
    (hi : heap.length ≤ i) (least : Option (ℚ × Nat)) (ratio : Ratio) :
    (scanState st sent heap i least).step codec (.scan ratio) =
      { scanState st sent heap i least with
        phase := ((least.map Prod.snd).map (SendPhase.writing sent)).getD (.after false) } := by
  have hnone : (scanState st sent heap i least).conn.channels.heap[i]? = none :=
    List.getElem?_eq_none_iff.mpr hi
  show (scanState st sent heap i least).scan sent i least ratio = _
  unfold Sending.scan
  rw [hnone]
  cases least <;> rfl

/-- `sendMsgPacket` that nothing interrupts. -/
theorem run_sendMsgPacket (hphase : st.phase = .scanning sent 0 none) (ratio : Ratio)
    (failed : Bool) :
    let scans := List.replicate st.conn.channels.heap.length (SendEvent.scan ratio)
    let res := st.conn.sendMsgPacket codec ratio failed
    let st' := st.run codec (scans ++ [.scan ratio, .write failed])
    st'.conn = res.conn ∧ (st'.phase = .after false ↔ res.exhausted = true) := by
  intro scans res st'
  obtain ⟨least, hleast, hscans⟩ : ∃ least, _ ∧ st.run codec scans = _ :=
    run_scan ratio st.conn.channels.heap st sent [] none none rfl hphase rfl
  rw [List.nil_append, List.length_nil, Nat.zero_add] at hscans
  have hst' : st' = ((scanState st sent (st.conn.channels.heap.map loaded)
      st.conn.channels.heap.length least).step codec (.scan ratio)).step codec (.write failed) := by
    rw [← hscans]
    exact run_append ..
  rw [scan_end st sent (List.length_map loaded).le, hleast] at hst'
  have hfst := scanChannels_fst ratio st.conn.channels.heap 0 maxFloat32 none
  have hres : res = st.conn.sendMsgPacket codec ratio failed := rfl
  rw [MConnection.sendMsgPacket] at hres
  rcases scanChannels_snd ratio st.conn.channels.heap 0 maxFloat32 none with
    ⟨j, ch, hj, -, hsnd⟩ | ⟨hsnd, -⟩
  · rw [Nat.zero_add] at hsnd
    have hload : (st.conn.channels.heap.map loaded)[j]? = some (loaded ch) := by
      rw [List.getElem?_map, hj, Option.map_some]
    simp only [hsnd, hfst] at hres
    rw [Option.map_none, Option.getD_none, List.length_nil, hsnd] at hst'
    simp only [Option.map_some, Option.getD_some, Sending.step, Sending.write, scanState, hload]
      at hst'
    rw [hst', hres]
    cases failed with
    | true => exact ⟨rfl, iff_of_true rfl rfl⟩
    | false =>
      simp only [Bool.false_eq_true, if_false]
      split
      · exact ⟨rfl, iff_of_false SendPhase.noConfusion not_false⟩
      · exact ⟨rfl, iff_of_false SendPhase.noConfusion not_false⟩
  · simp only [hsnd, hfst] at hres
    rw [Option.map_none, Option.getD_none, List.length_nil, hsnd] at hst'
    rw [hst', hres]
    exact ⟨rfl, iff_of_true rfl rfl⟩

/-! ### Runs -/

/-- The invariant: the doorbell is sound. -/
def Attentive (st : Sending) : Prop :=
  (doorbell st).Sound st.conn.channels.heap.length

theorem Attentive.fresh {chDescs : List ChannelDescriptor} {c : MConnection}
    (hnew : newMConnection chDescs = .ok c) : Attentive (.fresh c) := by
  have hidle : ∀ i < c.channels.heap.length, IdleAt c i := by
    intro i _ ch hch
    obtain ⟨hqueue, hsending, -⟩ := (unused_of_new hnew).empty ch (List.mem_of_getElem? hch)
    exact ⟨hsending, hqueue⟩
  unfold Attentive Doorbell.State.Sound
  cases hrun : c.running with
  | false =>
    simp only [doorbell, Sending.fresh, hrun]
    trivial
  | true =>
    simp only [doorbell, Sending.fresh, hrun]
    exact .inr hidle

/-- No step loses a wakeup. -/
theorem Attentive.step (h : Attentive st) (event : SendEvent) :
    Attentive (st.step codec event) := by
  have hframe : Frame st (st.step codec event) := step_frame st event
  have hrings : Rings st (st.step codec event) := by
    cases hrun : st.conn.running with
    | true => exact step_rings hrun event
    | false =>
      refine .of_stopped st (Bool.eq_false_iff.mpr fun hrun' => ?_)
      rw [hframe.of_running hrun'] at hrun
      cases hrun
  unfold Attentive at *
  rw [hframe.length_eq]
  rcases hrings with hsame | hstep
  · rw [hsame]
    exact h
  · exact hstep.sound h

theorem Attentive.run (h : Attentive st) (events : List SendEvent) :
    Attentive (st.run codec events) := by
  induction events generalizing st with
  | nil => exact h
  | cons event events ih => exact ih (h.step event)

/-- In every run of a connection: when the send routine is at its `select`, the connection
runs and no call stands between its enqueue and its notify, there is a token or nothing
to send. -/
theorem no_lost_wakeup (codec : GoWire) {chDescs : List ChannelDescriptor} {c : MConnection}
    (hnew : newMConnection chDescs = .ok c) (events : List SendEvent) :
    let st := (Sending.fresh c).run codec events
    st.conn.running = true → st.phase = .waiting → st.notifying = 0 →
      st.conn.send = true ∨
        ∀ ch ∈ st.conn.channels.heap, ch.sending = [] ∧ ch.sendQueue = [] := by
  intro st hrun hphase hnotifying
  have hsound : Attentive st := (Attentive.fresh hnew).run events
  have hasleep : (doorbell st).phase = .asleep := by
    rw [doorbell_running hrun hphase]
    rfl
  refine (hsound.bell_or_empty hasleep hnotifying).imp_right fun hempty ch hmem => ?_
  obtain ⟨i, hi, hch⟩ := List.mem_iff_getElem.mp hmem
  exact hempty i hi ch (List.getElem?_eq_some_iff.mpr ⟨hi, hch⟩)

/-- A message arrives on the first channel after the scan has passed it: the routine goes
back to its `select`, and the token is there. -/
theorem no_lost_wakeup_passed :
    let scan := SendEvent.scan firstRatio
    let events : List SendEvent :=
      [.call 1 [7] true, .enqueue 0 false, .notify, .send, .allow, scan, scan, scan, .write false,
        scan, .call 1 [8] false, .enqueue 0 false, .notify, scan, scan, .check]
    let st := (Sending.fresh plainConn).run plainWire events
    (st.conn.running = true ∧ st.phase = .waiting ∧ st.notifying = 0 ∧
      st.conn.channels.heap.map Channel.sendQueue = [[[8]], []]) ∧
    (st.conn.send = true ∨
      ∀ ch ∈ st.conn.channels.heap, ch.sending = [] ∧ ch.sendQueue = []) := by
  intro scan events st
  have hnew : newMConnection [plainDesc 1, plainDesc 2] = .ok plainConn := rfl
  have hst : st.conn.running = true ∧ st.phase = .waiting ∧ st.notifying = 0 ∧
      st.conn.channels.heap.map Channel.sendQueue = [[[8]], []] := by decide +kernel
  exact ⟨hst, no_lost_wakeup plainWire hnew events hst.1 hst.2.1 hst.2.2.1⟩

end BtmStats.Proofs.P2p
