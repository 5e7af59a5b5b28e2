import BtmStats.Spec.Netsync.Receive
import BtmStats.Spec.P2p.PeerCalls

/-!
# `BtmStats.Spec.Netsync.SyncManager`: how a node takes up a peer

The model of `ProtocolReactor.AddPeer`, `syncTransactions` and `RemovePeer` in
`netsync/protocol_reactor.go` and of `startInitPeer` in `p2p/switch.go`, put together with the
switch of `Spec.P2p.PeerCalls` as in `NewSyncManager` of `netsync/handle.go`. A started peer is
handed to the reactors in the order of a map. The protocol reactor takes one peer at a time, under
`handshakeMu`. It asks the peer for its status and waits for an answer on `peerStatusCh`. A status
of another peer is taken off the channel and dropped. Then it registers the peer and announces it on
`txSyncCh` and `newPeerCh`.

The three channels have no buffer. A `Receive` that has a status waits until an `AddPeer` takes
it, and an `AddPeer` that announces its peer waits until `txsyncLoop` and `syncer` take the
announcement. What they do then is an event of its own here.

A `Receive` that panics is in a receive routine, which recovers and stops the peer. A connection
comes in after its secret handshake, with an Ed25519 key: what `MakeSecretConnection` does with
another key is in `Spec.P2p.Handshake`. `PEXReactor.AddPeer` may return any error.

The methods `AddPeer`, `SetPeerStatus` and `RemovePeer` of the peer set are not in the repository.
-/

set_option autoImplicit false

namespace BtmStats.Spec.Netsync

open Lib Spec
open Spec.Bc (Hash)
open Spec.P2p (Peer)

/-! ### The protocol reactor -/

/-- The errors of `ProtocolReactor.AddPeer`. -/
def errProtocolHandshakeTimeout : Err := (RootErr.errorf "Protocol handshake timeout").err

def errStatusRequest : Err := (RootErr.errorf "Status request error").err

def errDiffGenesisHash : Err := (RootErr.errorf "Different genesis hash").err

/-- `errPeerDropped`, as `AddPeer` returns it. -/
def errAddPeerDropped : Err := (RootErr.errorf "Peer dropped").err

/-- The set of peers of the package, and the text of a hash. -/
structure PeersApi (γ : Type) where
  /-- `Hash.String` -/
  string : Hash → Str
  addPeer : γ → Peer → γ
  setPeerStatus : γ → Str → UInt64 → Hash → γ
  /-- Whether `Peer` finds the peer. -/
  isRegistered : γ → Str → Bool
  removePeer : γ → Str → γ

/-- Where the call of `AddPeer` is that holds `handshakeMu`. -/
inductive HandshakePhase where
  /-- at the `select` -/
  | waiting
  /-- after `peers.AddPeer` -/
  | added (status : InitalPeerStatus)
  /-- after `peers.SetPeerStatus` -/
  | statusSet
  /-- at `txSyncCh <-` -/
  | txSync
  /-- at `newPeerCh <-` -/
  | newPeer
  deriving DecidableEq

/-- The reactor, and the calls on it: the `AddPeer` calls that wait for `handshakeMu`, the one that
has it, and the statuses of the `Receive` calls that wait at `peerStatusCh <-`. The last two lists
record with which status `peers.AddPeer` was called for a peer, and what `AddPeer` returned. -/
structure Handshakes (γ : Type) where
  pr : ProtocolReactor
  peers : γ
  queued : List Peer
  holder : Option (Peer × HandshakePhase)
  receiving : List InitalPeerStatus
  registered : List (Peer × InitalPeerStatus)
  returned : List (Peer × Option Err)

namespace Handshakes
variable {γ : Type} (api : PeersApi γ)

/-- `AddPeer` is called. -/
def call (st : Handshakes γ) (peer : Peer) : Handshakes γ :=
  { st with queued := st.queued ++ [peer] }

/-- A `Receive` gets to `peerStatusCh <-`. -/
def arrive (st : Handshakes γ) (statuses : List InitalPeerStatus) : Handshakes γ :=
  { st with receiving := st.receiving ++ statuses }

/-- The call that has `handshakeMu` goes on. -/
def advance (st : Handshakes γ) (peer : Peer) (phase : HandshakePhase) :
    Handshakes γ × Option (Peer × Option Err) :=
  ({ st with holder := some (peer, phase) }, none)

/-- The call that has `handshakeMu` returns. -/
def unlock (st : Handshakes γ) (peer : Peer) (err : Option Err) :
    Handshakes γ × Option (Peer × Option Err) :=
  ({ st with holder := none, returned := st.returned ++ [(peer, err)] }, some (peer, err))

/-- A status is taken off `peerStatusCh`. -/
def takeStatus (st : Handshakes γ) (peer : Peer) (status : InitalPeerStatus) :
    Handshakes γ × Option (Peer × Option Err) :=
  if status.peerID = peer.key then
    if api.string st.pr.genesisHash ≠ api.string status.genesisHash then
      st.unlock peer (some errDiffGenesisHash)
    else
      advance { st with
        peers := api.addPeer st.peers peer
        registered := st.registered ++ [(peer, status)] } peer (.added status)
  else (st, none)

/-- The steps of the calls. -/
inductive Event where
  /-- a queued call gets `handshakeMu` and asks for the status; `sent` is the result of `TrySend` -/
  | lock (i : Nat) (sent : Bool)
  /-- the `select` takes the status of a waiting `Receive` -/
  | status (i : Nat)
  | retryTicker (sent : Bool)
  | handshakeWait
  | setPeerStatus
  /-- `peers.Peer`, and the transactions of the pool: `pending` says whether there are some -/
  | peer (pending : Bool)
  /-- `txsyncLoop` takes from `txSyncCh` -/
  | takeTxSync
  /-- `syncer` takes from `newPeerCh` -/
  | takeNewPeer
  | removePeer (peerKey : Str)

/-- A step, and the call of `AddPeer` that returns by it. A step that is not enabled does
nothing. -/
def step (st : Handshakes γ) : Event → Handshakes γ × Option (Peer × Option Err)
  | .lock i sent =>
    match st.holder, st.queued[i]? with
    | none, some peer =>
      let st := { st with queued := st.queued.eraseIdx i }
      if sent then st.advance peer .waiting else st.unlock peer (some errStatusRequest)
    | _, _ => (st, none)
  | .status i =>
    match st.holder, st.receiving[i]? with
    | some (peer, .waiting), some status =>
      takeStatus api { st with receiving := st.receiving.eraseIdx i } peer status
    | _, _ => (st, none)
  | .retryTicker sent =>
    match st.holder with
    | some (peer, .waiting) =>
      if sent then (st, none) else st.unlock peer (some errStatusRequest)
    | _ => (st, none)
  | .handshakeWait =>
    match st.holder with
    | some (peer, .waiting) => st.unlock peer (some errProtocolHandshakeTimeout)
    | _ => (st, none)
  | .setPeerStatus =>
    match st.holder with
    | some (peer, .added status) =>
      advance { st with
        peers := api.setPeerStatus st.peers status.peerID status.height status.hash }
        peer .statusSet
    | _ => (st, none)
  | .peer pending =>
    match st.holder with
    | some (peer, .statusSet) =>
      if api.isRegistered st.peers peer.key then
        st.advance peer (if pending then .txSync else .newPeer)
      else st.unlock peer (some errAddPeerDropped)
    | _ => (st, none)
  | .takeTxSync =>
    match st.holder with
    | some (peer, .txSync) => st.advance peer .newPeer
    | _ => (st, none)
  | .takeNewPeer =>
    match st.holder with
    | some (peer, .newPeer) => st.unlock peer none
    | _ => (st, none)
  | .removePeer peerKey => ({ st with peers := api.removePeer st.peers peerKey }, none)

end Handshakes

/-! ### The node -/

/-- The reactors that `NewSyncManager` adds. -/
inductive ReactorName where
  | pex | protocol
  deriving DecidableEq

/-- A call of `startInitPeer`: the reactors whose `AddPeer` has not returned, in the order of the
loop, and whether the first of them was called. -/
structure InitCall where
  peer : Peer
  left : List ReactorName
  called : Bool
  deriving DecidableEq

/-- What the node uses of other packages. -/
structure NodeEnv (γ : Type) where
  verify : P2p.Verify
  switch : P2p.SwitchEnv
  receive : ReceiveEnv
  peers : PeersApi γ

/-- The switch, the protocol reactor, and the calls of `startInitPeer`. -/
structure SyncManager (γ : Type) where
  sw : P2p.PeerCalls.State
  handshakes : Handshakes γ
  inits : List InitCall

namespace SyncManager
variable {γ : Type} (env : NodeEnv γ)

/-- A node before the first connection. -/
def fresh (nodeInfo : P2p.NodeInfo) (running : Bool) (addrBook : Pex.AddrBook)
    (pr : ProtocolReactor) (peers : γ) : SyncManager γ where
  sw := .fresh nodeInfo running addrBook
  handshakes := ⟨pr, peers, [], none, [], [], []⟩
  inits := []

/-- What happens in a node. -/
inductive Event where
  /-- a step of the switch other than the two of `startInitPeer` -/
  | switch (e : P2p.PeerCalls.Event)
  /-- `peer.Start()`, and the order of the loop over the reactors -/
  | start (i : Nat) (order : IterOrder ReactorName)
  /-- `PEXReactor.AddPeer` is called and returns -/
  | pexAddPeer (i : Nat) (err : Option Err)
  /-- `ProtocolReactor.AddPeer` is called -/
  | protocolAddPeer (i : Nat)
  /-- the loop over the reactors is through -/
  | endInit (i : Nat)
  /-- a step of a call on the protocol reactor -/
  | handshake (e : Handshakes.Event)
  /-- a message of a started peer arrives -/
  | receive (src : Peer) (chain : ChainView) (orders : Nat → Nat → Types.MapTxOrders)
      (msgBytes : List UInt8)

/-- Call `i` of `startInitPeer` returns to `AddPeer` of the switch. -/
def endInitPeer (sm : SyncManager γ) (i : Nat) (peer : Peer) (err : Option Err) :
    Except Panic (SyncManager γ) := do
  let k := sm.sw.adding.idxOf ⟨peer, .started⟩
  let sw ← sm.sw.step env.verify env.switch (.reactors k err)
  return { sm with sw, inits := sm.inits.eraseIdx i }

/-- The `AddPeer` of the first reactor that is left in call `i` returned. -/
def reactorReturned (sm : SyncManager γ) (i : Nat) (err : Option Err) :
    Except Panic (SyncManager γ) :=
  match sm.inits[i]?, err with
  | none, _ => .ok sm
  | some c, some err => sm.endInitPeer env i c.peer (some err)
  | some c, none => .ok { sm with inits := sm.inits.set i ⟨c.peer, c.left.tail, false⟩ }

/-- A step of the protocol reactor. When `AddPeer` returns, its caller goes on. -/
def stepHandshakes (sm : SyncManager γ) (e : Handshakes.Event) : Except Panic (SyncManager γ) :=
  match sm.handshakes.step env.peers e with
  | (handshakes, none) => .ok { sm with handshakes }
  | (handshakes, some (peer, err)) =>
    let i := sm.inits.findIdx fun c => c.peer = peer ∧ c.called
    reactorReturned env { sm with handshakes } i err

/-- The statuses that a `Receive` sends on `peerStatusCh`. -/
def statuses (actions : List Action) : List InitalPeerStatus :=
  actions.filterMap fun
    | .peerStatus status => some status
    | _ => none

/-- `MConnection._recover` turns a panic of `Receive` into an error of the connection. -/
def recover (sm : SyncManager γ) (src : Peer) : Option Panic → Except Panic P2p.PeerCalls.State
  | none => .ok sm.sw
  | some _ => sm.sw.step env.verify env.switch (.connError src)

/-- One step of a node. -/
def step (sm : SyncManager γ) : Event → Except Panic (SyncManager γ)
  | .switch (.start _) | .switch (.reactors _ _) => .ok sm
  | .switch e => do return { sm with sw := ← sm.sw.step env.verify env.switch e }
  | .start i order => do
      let sw ← sm.sw.step env.verify env.switch (.start i)
      match sm.sw.adding[i]? with
      | some ⟨peer, .checked⟩ =>
        if sm.sw.sw.running then
          let call := ⟨peer, order.apply [.pex, .protocol], false⟩
          return { sm with sw, inits := sm.inits ++ [call] }
        else return { sm with sw }
      | _ => return { sm with sw }
  | .pexAddPeer i err =>
    match sm.inits[i]? with
    | some ⟨_, .pex :: _, false⟩ => sm.reactorReturned env i err
    | _ => .ok sm
  | .protocolAddPeer i =>
    match sm.inits[i]? with
    | some ⟨peer, .protocol :: left, false⟩ =>
      .ok { sm with
        handshakes := sm.handshakes.call peer
        inits := sm.inits.set i ⟨peer, .protocol :: left, true⟩ }
    | _ => .ok sm
  | .endInit i =>
    match sm.inits[i]? with
    | some ⟨peer, [], _⟩ => sm.endInitPeer env i peer none
    | _ => .ok sm
  | .handshake e => sm.stepHandshakes env e
  | .receive src chain orders msgBytes =>
    if src ∈ sm.sw.started then do
      let received := sm.handshakes.pr.receive env.receive chain orders src.key msgBytes
      let sw ← sm.recover env src received.panic
      return { sm with sw, handshakes := sm.handshakes.arrive (statuses received.actions) }
    else .ok sm

/-- A run: any interleaving of the steps of the calls. A run here can have more: a peer may send
messages while a `Receive` of it waits, and `RemovePeer` may be called for any key. -/
def run (sm : SyncManager γ) (events : List Event) : Except Panic (SyncManager γ) :=
  events.foldlM (step env) sm

end SyncManager

end BtmStats.Spec.Netsync
