import BtmStats.Spec.P2p.Switch

/-!
# `BtmStats.Spec.P2p.PeerCalls`: `AddPeer` and `stopAndRemovePeer` step by step

The model of `AddPeer`, `startInitPeer`, `StopPeerForError`, `StopPeerGracefully` and
`stopAndRemovePeer` in `p2p/switch.go`, and of `stopForError` in
`p2p/connection/connection.go`, as calls of many goroutines. A call is a list of steps, and
a run interleaves the steps of all calls.

`AddPeer` checks the connection, starts the peer, tells the reactors, and calls `peers.Add`.
From the start on the routines of the peer run, and an error of the connection calls
`StopPeerForError` on it, once. `stopAndRemovePeer` tells the reactors, calls `peers.Remove`,
and stops the peer. What the reactors do with a peer is left out, except that their
`AddPeer` may fail.
-/

set_option autoImplicit false

namespace BtmStats.Spec.P2p.PeerCalls

open Lib Spec

/-- Where an `AddPeer` call is. -/
inductive AddPhase where
  /-- the connection passed the check -/
  | checked
  /-- the peer was started, and the reactors are told -/
  | started
  /-- `peers.Add` comes next -/
  | ready
  deriving DecidableEq

/-- An `AddPeer` call that has not returned. -/
structure AddCall where
  peer : Peer
  phase : AddPhase
  deriving DecidableEq

/-- Where a `stopAndRemovePeer` call is. -/
inductive StopPhase where
  /-- the reactors are told, and `peers.Remove` comes next -/
  | called
  /-- `peer.Stop` comes next -/
  | removed
  deriving DecidableEq

/-- A `stopAndRemovePeer` call that has not returned. -/
structure StopCall where
  peer : Peer
  phase : StopPhase
  deriving DecidableEq

/-- A switch and the calls on it. The lists of peers record what has happened: which
`AddPeer` calls returned and what, which peers were started, which connections called
`onError`, on which peers `stopAndRemovePeer` was called, for which it got past
`peers.Remove`, and which peers were stopped. -/
structure State where
  sw : Switch
  adding : List AddCall
  stopping : List StopCall
  returned : List (Peer × Option Err)
  started : List Peer
  errored : List Peer
  stopCalled : List Peer
  removed : List Peer
  stopped : List Peer
  next : Nat

/-- A switch before the first connection. -/
def State.fresh (nodeInfo : NodeInfo) (running : Bool) (addrBook : Pex.AddrBook) : State where
  sw := ⟨nodeInfo, running, .new, addrBook, ∅, none⟩
  adding := []
  stopping := []
  returned := []
  started := []
  errored := []
  stopCalled := []
  removed := []
  stopped := []
  next := 0

/-- The next step of some call, or a new call. Calls are named by their place in the
list. -/
inductive Event where
  /-- `AddPeer` on a new connection, up to `filterConnByPeer` -/
  | connect (outbound : Bool) (remoteAddr : Str) (challenge : FixedBytes 32)
      (authSigMsg : AuthSigMsg) (handshake : Handshake) (now : Int)
  /-- `sw.IsRunning()` and `peer.Start()` -/
  | start (i : Nat)
  /-- the reactors were told of the peer, up to the first error -/
  | reactors (i : Nat) (err : Option Err)
  /-- `peers.Add`, and the return of `AddPeer` -/
  | add (i : Nat)
  /-- an error of the connection of a started peer -/
  | connError (peer : Peer)
  /-- `StopPeerForError` or `StopPeerGracefully` by someone who has the peer -/
  | stopPeer (peer : Peer)
  /-- `peers.Remove` of a `stopAndRemovePeer` call -/
  | remove (j : Nat)
  /-- `peer.Stop`, and the return of `stopAndRemovePeer` -/
  | stop (j : Nat)

/-- `stopAndRemovePeer` is called. -/
def State.callStop (st : State) (peer : Peer) : State :=
  { st with
    stopping := st.stopping ++ [⟨peer, .called⟩]
    stopCalled := st.stopCalled ++ [peer] }

/-- `AddPeer` call `i` returns. -/
def State.returnAdd (st : State) (i : Nat) (peer : Peer) (err : Option Err) : State :=
  { st with adding := st.adding.eraseIdx i, returned := st.returned ++ [(peer, err)] }

/-- The peer is in the hands of others: it was started, or its `AddPeer` call returned. -/
def State.handedOut (st : State) (peer : Peer) : Bool :=
  decide (peer ∈ st.started) || decide (peer ∈ st.returned.map Prod.fst)

/-- One step of a call. An index without a call does nothing. -/
def State.step (verify : Verify) (env : SwitchEnv) (st : State) : Event → Except Panic State
  | .connect outbound remoteAddr challenge authSigMsg handshake now =>
    match newPeerConn verify outbound true remoteAddr challenge authSigMsg with
    | .error _ => .ok st
    | .ok pc => do
        let (sw, res) ← st.sw.addPeerCheck env now st.next pc handshake
        let calls := res.toOption.toList.map fun peer => ⟨peer, .checked⟩
        return { st with sw, adding := st.adding ++ calls, next := st.next + 1 }
  | .start i =>
    match st.adding[i]? with
    | some ⟨peer, .checked⟩ =>
      if st.sw.running then
        .ok { st with
          adding := st.adding.set i ⟨peer, .started⟩, started := st.started ++ [peer] }
      else .ok { st with adding := st.adding.set i ⟨peer, .ready⟩ }
    | _ => .ok st
  | .reactors i err =>
    match st.adding[i]?, err with
    | some ⟨peer, .started⟩, some err => .ok (st.returnAdd i peer (some err))
    | some ⟨peer, .started⟩, none => .ok { st with adding := st.adding.set i ⟨peer, .ready⟩ }
    | _, _ => .ok st
  | .add i =>
    match st.adding[i]? with
    | some ⟨peer, .ready⟩ =>
      let (peers, err) := st.sw.peers.add peer
      .ok { st.returnAdd i peer err with sw := { st.sw with peers } }
    | _ => .ok st
  | .connError peer =>
    -- `errored` is set by a compare-and-swap, so the callback runs once.
    if peer ∈ st.started ∧ peer ∉ st.errored then
      .ok { st.callStop peer with errored := st.errored ++ [peer] }
    else .ok st
  | .stopPeer peer => if st.handedOut peer then .ok (st.callStop peer) else .ok st
  | .remove j =>
    match st.stopping[j]? with
    | some ⟨peer, .called⟩ => do
        let peers ← st.sw.peers.remove peer
        return { st with
          sw := { st.sw with peers }
          stopping := st.stopping.set j ⟨peer, .removed⟩
          removed := st.removed ++ [peer] }
    | _ => .ok st
  | .stop j =>
    match st.stopping[j]? with
    | some ⟨peer, .removed⟩ =>
      .ok { st with
        stopping := st.stopping.eraseIdx j, stopped := st.stopped ++ [peer] }
    | _ => .ok st

/-- A run: any interleaving of the steps of the calls. -/
def State.run (verify : Verify) (env : SwitchEnv) (st : State) (events : List Event) :
    Except Panic State := events.foldlM (State.step verify env) st

end BtmStats.Spec.P2p.PeerCalls
