import BtmStats.Spec.P2p.MConnection

/-!
# `BtmStats.Spec.P2p.SendRoutine`: the send routine against concurrent calls

The model of `sendRoutine`, `sendSomeMsgPackets` and `sendMsgPacket` of
`p2p/connection/connection.go` as one goroutine among others. `MConnection.lean` runs
`Send`, `TrySend` and `sendMsgPacket` each in one piece; here they are cut where another
goroutine can come in between:

* a call checks `IsRunning` and looks up its channel, then its `select` on `sendQueue`
  is decided, and then it posts the token on `c.send`;
* the routine takes the token, waits for the monitor, asks one channel after the other
  for a pending message, writes a packet of the one it chose, and after a whole batch
  posts the token itself.

A write that fails stops the connection. The recovery from a panic and the flow monitor
are left out.
-/

set_option autoImplicit false

namespace BtmStats.Spec.P2p

open Lib Spec

def numBatchMsgPackets : Nat := 10

/-- Where the send routine is. `sent` counts the packets of the batch; `least` is the
ratio and the place of the channel chosen so far. -/
inductive SendPhase where
  -- At its `select`.
  | waiting
  -- In `sendMonitor.Limit`.
  | limited
  -- In the loop of `sendMsgPacket`, before the channel at place `i`.
  | scanning (sent i : Nat) (least : Option (ℚ × Nat))
  -- Before `writeMsgPacketTo` of the channel at place `i`.
  | writing (sent i : Nat)
  -- A batch is written, and there may be more.
  | reposting
  -- After the `select`, with whether `err` was set.
  | after (failed : Bool)
  | ended
  deriving DecidableEq

/-- A call of `Send` or `TrySend` that has found its channel. -/
structure SendCall where
  place : Nat
  bytes : List UInt8
  -- `Send` waits for a slot, `TrySend` does not.
  waits : Bool

/-- A connection with its send routine, the calls that have found their channel, and
the number of calls whose message is queued and whose token is not posted yet. -/
structure Sending where
  conn : MConnection
  phase : SendPhase
  calls : List SendCall
  notifying : Nat

/-- A connection after its start. -/
def Sending.fresh (conn : MConnection) : Sending := ⟨conn, .waiting, [], 0⟩

/-- The steps of the calls and of the send routine. The choices that the program does
not make are in the event: which call goes on, whether the timer of a `Send` has fired,
what the floats give, and whether a write fails. -/
inductive SendEvent where
  | call (chID : UInt8) (bytes : List UInt8) (waits : Bool)
  | enqueue (k : Nat) (timedOut : Bool)
  | notify
  -- The cases of the `select`.
  | flush
  | chStats (decay : Int → Int)
  | ping (failed : Bool)
  | pong (failed : Bool)
  | quit
  | send
  -- The steps after the case `c.send`.
  | allow
  | scan (ratio : Ratio)
  | write (failed : Bool)
  | repost
  -- The end of an iteration of `sendRoutine`.
  | check
  -- `Stop` by another goroutine.
  | stop

namespace Sending

/-- The beginning of `Send` and `TrySend`. -/
def call (st : Sending) (chID : UInt8) (bytes : List UInt8) (waits : Bool) : Sending :=
  if st.conn.running = false then st
  else
    match st.conn.channel? chID with
    | none => st
    | some (p, _) => { st with calls := st.calls ++ [⟨p, bytes, waits⟩] }

/-- The `select` on `sendQueue` of a call. A `Send` waits while there is no slot and its
timer has not fired. -/
def enqueue (st : Sending) (k : Nat) (timedOut : Bool) : Sending :=
  match st.calls[k]? with
  | none => st
  | some call =>
    match st.conn.channels.heap[call.place]? with
    | none => st
    | some channel =>
      if call.waits = true ∧ channel.hasRoom = false ∧ timedOut = false then st
      else
        let (channel, success) :=
          if call.waits then channel.sendBytes call.bytes timedOut
          else channel.trySendBytes call.bytes
        { st with
          conn := st.conn.setChannel call.place channel
          calls := st.calls.eraseIdx k
          notifying := if success then st.notifying + 1 else st.notifying }

/-- The post of the token by a call. A token that is there already is enough. -/
def notify (st : Sending) : Sending :=
  if st.notifying = 0 then st
  else { st with conn := { st.conn with send := true }, notifying := st.notifying - 1 }

/-- An iteration of the loop of `sendMsgPacket`, or its end: with no channel chosen the
channels are exhausted. -/
def scan (st : Sending) (sent i : Nat) (least : Option (ℚ × Nat)) (ratio : Ratio) : Sending :=
  match st.conn.channels.heap[i]? with
  | some channel =>
    let (channel, pending) := channel.isSendPending
    let leastRatio := (least.map Prod.fst).getD maxFloat32
    { st with
      conn := st.conn.setChannel i channel
      phase := .scanning sent (i + 1)
        (if pending = true ∧ ratio.of channel < leastRatio then some (ratio.of channel, i)
        else least) }
  | none =>
    match least with
    | none => { st with phase := .after false }
    | some (_, j) => { st with phase := .writing sent j }

/-- The rest of `sendMsgPacket`, and the loop of `sendSomeMsgPackets` around it. -/
def write (codec : GoWire) (st : Sending) (sent i : Nat) (failed : Bool) : Sending :=
  match st.conn.channels.heap[i]? with
  | none => st
  | some channel =>
    let conn := st.conn.setChannel i (channel.writeMsgPacketTo codec failed).1
    if failed then { st with conn := conn.stopForError, phase := .after false }
    else if sent + 1 < numBatchMsgPackets then
      { st with conn := conn, phase := .scanning (sent + 1) 0 none }
    else { st with conn := conn, phase := .reposting }

/-- The end of an iteration of `sendRoutine`. -/
def check (st : Sending) (failed : Bool) : Sending :=
  if st.conn.running = false then { st with phase := .ended }
  else if failed then { st with conn := st.conn.stopForError, phase := .ended }
  else { st with phase := .waiting }

/-- One step. An event of the routine that does not belong to the place where the
routine is does nothing. -/
def step (codec : GoWire) (st : Sending) : SendEvent → Sending
  | .call chID bytes waits => st.call chID bytes waits
  | .enqueue k timedOut => st.enqueue k timedOut
  | .notify => st.notify
  | .stop => { st with conn := { st.conn with running := false } }
  | .flush =>
    match st.phase with
    | .waiting => { st with phase := .after false }
    | _ => st
  | .chStats decay =>
    match st.phase with
    | .waiting =>
      let channels := st.conn.channels.map (Channel.updateStats decay)
      { st with conn := { st.conn with channels }, phase := .after false }
    | _ => st
  | .ping failed | .pong failed =>
    match st.phase with
    | .waiting => { st with phase := .after failed }
    | _ => st
  | .quit =>
    -- `quit` is closed when the connection is stopped.
    match st.phase with
    | .waiting => if st.conn.running then st else { st with phase := .ended }
    | _ => st
  | .send =>
    match st.phase with
    | .waiting =>
      if st.conn.send then { st with conn := { st.conn with send := false }, phase := .limited }
      else st
    | _ => st
  | .allow =>
    match st.phase with
    | .limited => { st with phase := .scanning 0 0 none }
    | _ => st
  | .scan ratio =>
    match st.phase with
    | .scanning sent i least => st.scan sent i least ratio
    | _ => st
  | .write failed =>
    match st.phase with
    | .writing sent i => st.write codec sent i failed
    | _ => st
  | .repost =>
    match st.phase with
    | .reposting => { st with conn := { st.conn with send := true }, phase := .after false }
    | _ => st
  | .check =>
    match st.phase with
    | .after failed => st.check failed
    | _ => st

/-- A run: any interleaving of the calls with the routine. -/
def run (codec : GoWire) (st : Sending) (events : List SendEvent) : Sending :=
  events.foldl (step codec) st

end Sending

/-! ### The counter of a queue

`sendBytes` and `trySendBytes` of `p2p/connection/connection.go` put a message into `sendQueue`
and then raise `sendQueueSize` by an atomic addition. The steps above do both at once. Here the send
routine and other calls can come in between. All other steps are the same.
-/

/-- `ch.sendQueue <- bytes` -/
def Channel.put (ch : Channel) (bytes : List UInt8) : Channel :=
  { ch with sendQueue := ch.sendQueue ++ [bytes] }

/-- `atomic.AddInt32(&ch.sendQueueSize, 1)` -/
def Channel.increment (ch : Channel) : Channel := { ch with sendQueueSize := ch.sendQueueSize + 1 }

/-- A connection with its send routine and its calls. `raising` has the place of the channel for
each call between its two steps. -/
structure CountedSending extends Sending where
  raising : List Nat

/-- A new connection without calls. -/
def CountedSending.fresh (conn : MConnection) : CountedSending := ⟨.fresh conn, []⟩

/-- The steps: an `enqueue` is only the `select` of a call, and its increment is a step of its
own. -/
inductive CountedEvent where
  | send (event : SendEvent)
  | increment (k : Nat)

namespace CountedSending

/-- The `select` on `sendQueue` of a call. A `Send` waits while there is no slot and its timer has
not fired. -/
def enqueue (st : CountedSending) (k : Nat) (timedOut : Bool) : CountedSending :=
  match st.calls[k]? with
  | none => st
  | some call =>
    match st.conn.channels.heap[call.place]? with
    | none => st
    | some channel =>
      if call.waits = true ∧ channel.hasRoom = false ∧ timedOut = false then st
      else if channel.hasRoom = true ∧ (call.waits = true → timedOut = false) then
        { st with
          conn := st.conn.setChannel call.place (channel.put call.bytes)
          calls := st.calls.eraseIdx k
          raising := call.place :: st.raising }
      else { st with calls := st.calls.eraseIdx k }

/-- The increment of a call, after which it posts the token. -/
def increment (st : CountedSending) (k : Nat) : CountedSending :=
  match st.raising[k]? with
  | none => st
  | some p =>
    match st.conn.channels.heap[p]? with
    | none => st
    | some channel =>
      { st with
        conn := st.conn.setChannel p channel.increment
        raising := st.raising.eraseIdx k
        notifying := st.notifying + 1 }

/-- One step. The increment of a counter is an event of its own. -/
def step (codec : GoWire) (st : CountedSending) : CountedEvent → CountedSending
  | .send (.enqueue k timedOut) => st.enqueue k timedOut
  | .send event => { st with toSending := st.toSending.step codec event }
  | .increment k => st.increment k

/-- A run: any interleaving of the calls with the routine. -/
def run (codec : GoWire) (st : CountedSending) (events : List CountedEvent) : CountedSending :=
  events.foldl (step codec) st

end CountedSending

end BtmStats.Spec.P2p
