import BtmStats.Spec.P2p.Peer
import BtmStats.Spec.Pex.AddrBook

/-!
# `BtmStats.Spec.P2p.Switch`: adding and removing peers

The model of `p2p/switch.go`, as far as it adds and removes peers and bans hosts.
`AddPeer` is not atomic: calls for other connections and removals may come between the
check of `filterConnByPeer` and `peers.Add`. So it is two steps, `addPeerCheck` and
`register`, and a run interleaves the steps of any number of calls. What the reactors do
with a peer is left out, except that their `AddPeer` may fail. The address book is shared
with the peer exchange, whose calls are steps too.

The database is modelled by the value that it holds under `bannedPeerKey`, if there is
one. What `encoding/json` does with the map of bans is a parameter.
-/

set_option autoImplicit false

namespace BtmStats.Spec.P2p

open Lib Spec
open Spec.Pex (AddrBook NetAddress)

/-- The ends of the bans by host. -/
abbrev BanMap := AList (fun _ : Str => Int)

/-- `json.Marshal` and `json.Unmarshal` at `map[string]time.Time`. -/
structure BanJson where
  marshal : BanMap → Except Err Str
  unmarshal : Str → Except Err BanMap

/-- What the switch uses of other packages: the host of `net.SplitHostPort`, empty on an
error, `NewNetAddressString`, what the address book uses, and `encoding/json`. -/
structure SwitchEnv where
  splitHost : Str → Str
  newNetAddress : Str → Option NetAddress
  book : Pex.Env
  json : BanJson

/-- `defaultBanDuration` in nanoseconds. -/
def defaultBanDuration : Int := Pex.hour

/-- The fields of a switch that the calls here use. -/
structure Switch where
  nodeInfo : NodeInfo
  running : Bool
  peers : PeerSet
  addrBook : AddrBook
  bannedPeer : BanMap
  db : Option Str

namespace Switch

section
variable (env : SwitchEnv)

/-! ### Bans -/

/-- `NewSwitch` on a database, with the node info that is set before the first connection.
It returns `nil` when the stored bans cannot be read. -/
def newSwitch (nodeInfo : NodeInfo) (running : Bool) (addrBook : AddrBook) (db : Option Str) :
    Option Switch :=
  match db with
  | none => some ⟨nodeInfo, running, .new, addrBook, ∅, none⟩
  | some datajson =>
    match env.json.unmarshal datajson with
    | .error _ => none
    | .ok bannedPeer => some ⟨nodeInfo, running, .new, addrBook, bannedPeer, some datajson⟩

/-- The end of `AddBannedPeer` and of `delBannedPeer`: the map is stored, unless it cannot
be encoded. -/
def storeBans (sw : Switch) (bannedPeer : BanMap) : Switch × Option Err :=
  match env.json.marshal bannedPeer with
  | .error e => ({ sw with bannedPeer }, some e)
  | .ok datajson => ({ sw with bannedPeer, db := some datajson }, none)

/-- `AddBannedPeer`: the host is banned from now on, and the map is stored. -/
def addBannedPeer (sw : Switch) (now : Int) (peer : Peer) : Switch × Option Err :=
  let key := env.splitHost peer.nodeInfo.remoteAddr
  sw.storeBans env (sw.bannedPeer.insert key (now + defaultBanDuration))

/-- `delBannedPeer` -/
def delBannedPeer (sw : Switch) (addr : Str) : Switch × Option Err :=
  sw.storeBans env (sw.bannedPeer.erase addr)

/-- `checkBannedPeer`: a ban that has run out is deleted. -/
def checkBannedPeer (sw : Switch) (now : Int) (peer : Str) : Switch × Option Err :=
  match sw.bannedPeer.lookup peer with
  | none => (sw, none)
  | some banEnd =>
    if now < banEnd then (sw, some RootErr.errConnectBannedPeer.err)
    -- The error of `delBannedPeer` is dropped.
    else ((sw.delBannedPeer env peer).1, none)

/-! ### Adding a peer -/

/-- `addrBookDelSelf`. Its callers do not look at its error. -/
def addrBookDelSelf (sw : Switch) : Except Panic Switch :=
  match env.newNetAddress sw.nodeInfo.listenAddr with
  | none => .ok sw
  | some addr => do
      let book ← sw.addrBook.removeAddress env.book addr
      return { sw with addrBook := book.addOurAddress env.book addr }

/-- `filterConnByPeer`. The node compares its own key with the key of the connection,
and looks for a duplicate under the key of the node info. -/
def filterConnByPeer (sw : Switch) (now : Int) (peer : Peer) :
    Except Panic (Switch × Option Err) := do
  match sw.checkBannedPeer env now (env.splitHost peer.nodeInfo.remoteAddr) with
  | (sw, some _) => return (sw, some RootErr.errConnectBannedPeer.err)
  | (sw, none) =>
    let pubKey ← peer.pubKey
    if sw.nodeInfo.pubKey = pubKey then
      -- The address of this node is moved from the book to its own addresses.
      return (← sw.addrBookDelSelf env, some RootErr.errConnectSelf.err)
    if sw.peers.has peer.key then return (sw, some RootErr.errDuplicatePeer.err)
    return (sw, none)

/-- `AddPeer` up to the check of the peer, whose object is placed at `addr`. -/
def addPeerCheck (sw : Switch) (now : Int) (addr : Nat) (pc : PeerConn) (handshake : Handshake) :
    Except Panic (Switch × Except Err Peer) :=
  match handshakeTimeout pc handshake with
  | .error e => .ok (sw, .error e)
  | .ok peerNodeInfo =>
    match sw.nodeInfo.compatibleWith peerNodeInfo with
    | .error e => .ok (sw, .error e)
    | .ok _ => do
        let peer := newPeer addr pc peerNodeInfo
        match ← sw.filterConnByPeer env now peer with
        | (sw, some e) => return (sw, .error e)
        | (sw, none) => return (sw, .ok peer)

end

/-- The rest of `AddPeer`. `startErr` is the first error of a reactor. -/
def register (sw : Switch) (peer : Peer) (startErr : Option Err) : Switch × Option Err :=
  match sw.running, startErr with
  -- Reactors are started only while the switch runs, and their error keeps the peer out.
  | true, some e => (sw, some e)
  | _, _ =>
    let (peers, err) := sw.peers.add peer
    ({ sw with peers }, err)

/-- `stopAndRemovePeer` -/
def stopAndRemovePeer (sw : Switch) (peer : Peer) : Except Panic Switch := do
  return { sw with peers := ← sw.peers.remove peer }

/-! ### Runs -/

/-- A switch, the peers whose `AddPeer` has admitted and not yet registered them, and the
place of the next peer object. -/
structure State where
  sw : Switch
  admitted : List Peer
  next : Nat

/-- A switch before the first connection. -/
def State.fresh (nodeInfo : NodeInfo) (running : Bool) (addrBook : AddrBook) : State :=
  ⟨⟨nodeInfo, running, .new, addrBook, ∅, none⟩, [], 0⟩

/-- The steps of a switch. A connection is authenticated by `MakeSecretConnection` and
handed to `AddPeer`; an admitted peer is registered, or fails to start; a peer is
stopped, or banned; the address book is called by others. -/
inductive Event where
  | connect (outbound : Bool) (remoteAddr : Str) (challenge : FixedBytes 32)
      (authSigMsg : AuthSigMsg) (handshake : Handshake) (now : Int)
  | register (i : Nat) (startErr : Option Err)
  | stop (peer : Peer)
  | ban (peer : Peer) (now : Int)
  | book (op : AddrBook.Op)

/-- One step. -/
def State.step (verify : Verify) (env : SwitchEnv) (st : State) : Event → Except Panic State
  | .connect outbound remoteAddr challenge authSigMsg handshake now =>
    match newPeerConn verify outbound true remoteAddr challenge authSigMsg with
    | .error _ => .ok st
    | .ok pc => do
        let (sw, res) ← st.sw.addPeerCheck env now st.next pc handshake
        -- A rejected peer changes at most the bans and the book.
        return ⟨sw, st.admitted ++ res.toOption.toList, st.next + 1⟩
  | .register i startErr =>
    match st.admitted[i]? with
    | none => .ok st
    | some peer =>
      .ok ⟨(st.sw.register peer startErr).1, st.admitted.eraseIdx i, st.next⟩
  | .stop peer => do return { st with sw := ← st.sw.stopAndRemovePeer peer }
  | .ban peer now => .ok { st with sw := (st.sw.addBannedPeer env now peer).1 }
  | .book op => do
      let addrBook ← st.sw.addrBook.step env.book op
      return { st with sw := { st.sw with addrBook } }

/-- A run: any interleaving of steps. -/
def State.run (verify : Verify) (env : SwitchEnv) (st : State) (events : List Event) :
    Except Panic State := events.foldlM (State.step verify env) st

end Switch

end BtmStats.Spec.P2p

/-! ### Bans over restarts

The calls of `p2p/switch.go` that read or write the bans, each under the lock of the
switch, and restarts. A restart keeps the database and makes a new switch from it. A clock
reading is a number of nanoseconds.
-/

namespace BtmStats.Spec.P2p.Bans

open Spec
open Spec.Pex (AddrBook)

/-- A call about bans, or a restart. -/
inductive Event where
  | ban (peer : Peer) (now : Int)
  | check (host : Str) (now : Int)
  | restart (nodeInfo : NodeInfo) (running : Bool) (addrBook : AddrBook)

/-- The reading of the clock, if the call reads it. -/
def Event.time? : Event → Option Int
  | .ban _ now => some now
  | .check _ now => some now
  | .restart .. => none

/-- The readings of the clock, in order. -/
def readings (events : List Event) : List Int := events.filterMap Event.time?

/-- A call of a switch. If `NewSwitch` returns `nil`, the node stops at its first use. -/
def step (env : SwitchEnv) (sw : Switch) : Event → Except Panic Switch
  | .ban peer now => .ok (sw.addBannedPeer env now peer).1
  | .check host now => .ok (sw.checkBannedPeer env now host).1
  | .restart nodeInfo running addrBook =>
    orPanic .nilDereference (Switch.newSwitch env nodeInfo running addrBook sw.db)

/-- The steps of a run. -/
def run (env : SwitchEnv) (sw : Switch) (events : List Event) : Except Panic Switch :=
  events.foldlM (step env) sw

end BtmStats.Spec.P2p.Bans

/-! ### The own address

`addrBookDelSelf` (`p2p/switch.go`) takes the lock of the address book twice, in
`RemoveAddress` and in `AddOurAddress`. Other calls on the book, such as those of the peer
exchange, may come between. So the call is two steps here, and a run interleaves them with
calls on the book.
-/

namespace BtmStats.Spec.P2p.DelSelf

open Spec
open Spec.Pex (AddrBook NetAddress)

/-- How far the call has come, with the address that `NewNetAddressString` has given. -/
inductive Phase where
  | called
  | removed (own : NetAddress)
  | returned (own : NetAddress)
  | failed
  deriving DecidableEq

/-- The switch and the place of the call. -/
structure State where
  sw : Switch
  phase : Phase

/-- The call goes on, or another call on the book comes between. -/
inductive Event where
  | next
  | book (op : AddrBook.Op)

section
variable (env : SwitchEnv)

/-- The call goes on, up to the next release of the lock. -/
def State.next (st : State) : Except Panic State :=
  match st.phase with
  | .called =>
    match env.newNetAddress st.sw.nodeInfo.listenAddr with
    | none => .ok { st with phase := .failed }
    | some own => do
        let book ← st.sw.addrBook.removeAddress env.book own
        return ⟨{ st.sw with addrBook := book }, .removed own⟩
  | .removed own =>
    .ok ⟨{ st.sw with addrBook := st.sw.addrBook.addOurAddress env.book own }, .returned own⟩
  | .returned _ | .failed => .ok st

/-- One step. -/
def State.step (st : State) : Event → Except Panic State
  | .next => st.next env
  | .book op => do
      let book ← st.sw.addrBook.step env.book op
      return { st with sw := { st.sw with addrBook := book } }

def State.run (st : State) (events : List Event) : Except Panic State :=
  events.foldlM (State.step env) st

end

end BtmStats.Spec.P2p.DelSelf
