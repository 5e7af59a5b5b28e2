import Mathlib.Data.List.AList
import BtmStats.Lib.BigEndian
import BtmStats.Spec.Encoding.Hex
import BtmStats.Spec.Runtime

/-!
# `BtmStats.Spec.P2p.Peer`: connections and peers

The model of `p2p/peer.go` and `p2p/node_info.go`, with the authentication at the end
of `MakeSecretConnection`. Signature verification and `net.SplitHostPort` are
parameters. The multiplex connection of a peer, its user data and the fields `Moniker`
and `Other` of a `NodeInfo` are left out.
-/

set_option autoImplicit false

namespace BtmStats.Spec.P2p

open Lib Spec

/-! ### Keys -/

/-- `crypto.PubKeyEd25519` -/
abbrev PubKey := FixedBytes 32

/-- `PubKeyEd25519.KeyString` -/
def keyString (pubKey : PubKey) : Str := Hex.formatUpper pubKey.1

/-! ### Node info -/

/-- What the parties tell each other about themselves. -/
structure NodeInfo where
  pubKey : PubKey
  network : Str
  remoteAddr : Str
  listenAddr : Str
  version : Str
  deriving DecidableEq

/-- The text of a string in an error message. -/
def textOf (s : Str) : String := String.ofList (s.map fun b => Char.ofNat b.toNat)

/-- The three parts of a version. -/
def splitVersion (version : Str) : Except Err (Str × Str × Str) :=
  match version.splitOn 0x2e with
  -- The separator is the full stop.
  | [major, minor, revision] => .ok (major, minor, revision)
  | _ => .error (RootErr.errorf ("Invalid version format " ++ textOf version)).err

/-- `CompatibleWith`. The version of this node is looked at first. -/
def NodeInfo.compatibleWith (info other : NodeInfo) : Except Err Unit := do
  let (iMajor, iMinor, _) ← splitVersion info.version
  let (oMajor, oMinor, _) ← splitVersion other.version
  if iMajor ≠ oMajor then
    throw (RootErr.errorf ("Peer is on a different major version. Got " ++ textOf oMajor ++
      ", expected " ++ textOf iMajor)).err
  if iMinor ≠ oMinor then
    throw (RootErr.errorf ("Peer is on a different minor version. Got " ++ textOf oMinor ++
      ", expected " ++ textOf iMinor)).err
  if info.network ≠ other.network then
    throw (RootErr.errorf ("Peer is on a different network. Got " ++ textOf other.network ++
      ", expected " ++ textOf info.network)).err

/-! ### Connections -/

/-- The key and the signature that the other end sends under encryption. -/
structure AuthSigMsg where
  key : PubKey
  sig : List UInt8
  deriving DecidableEq

/-- What authenticated a connection: the challenge that both ends sign, the signature
of the other end, and its key, `RemotePubKey`. -/
structure AuthConn where
  challenge : FixedBytes 32
  sig : List UInt8
  remPubKey : PubKey
  deriving DecidableEq

/-- `VerifyBytes` of a key, a message and a signature. -/
abbrev Verify := PubKey → List UInt8 → List UInt8 → Bool

/-- The end of `MakeSecretConnection`. -/
def authenticate (verify : Verify) (challenge : FixedBytes 32) (authSigMsg : AuthSigMsg) :
    Except Err AuthConn :=
  if verify authSigMsg.key challenge.1 authSigMsg.sig = false then
    .error (RootErr.errorf "Challenge verification failed").err
  else .ok ⟨challenge, authSigMsg.sig, authSigMsg.key⟩

/-- A connection: the address of the other end, and what authenticated it, `none` for a
connection that is not a `SecretConnection`. -/
structure Conn where
  remoteAddr : Str
  auth : Option AuthConn
  deriving DecidableEq

/-- `peerConn`; of its config `AuthEnc`. -/
structure PeerConn where
  outbound : Bool
  authEnc : Bool
  conn : Conn
  deriving DecidableEq

/-- `newPeerConn`: the secret handshake comes with `authEnc`. -/
def newPeerConn (verify : Verify) (outbound authEnc : Bool) (remoteAddr : Str)
    (challenge : FixedBytes 32) (authSigMsg : AuthSigMsg) : Except Err PeerConn :=
  if authEnc then
    match authenticate verify challenge authSigMsg with
    | .error e => .error (e.wrap "Error creating peer")
    | .ok auth => .ok ⟨outbound, authEnc, remoteAddr, some auth⟩
  else .ok ⟨outbound, authEnc, remoteAddr, none⟩

/-- What the handshake gets from the other end: the errors of the two directions and the
`NodeInfo` that was sent. -/
structure Handshake where
  writeErr : Option Err
  readErr : Option Err
  sent : NodeInfo

/-- `HandshakeTimeout`. The remote address is the one of the connection. -/
def handshakeTimeout (pc : PeerConn) (handshake : Handshake) : Except Err NodeInfo :=
  match handshake.writeErr with
  | some err1 => .error (err1.wrap "Error during handshake/write")
  | none =>
    match handshake.readErr with
    | some err2 => .error (err2.wrap "Error during handshake/read")
    | none => .ok { handshake.sent with remoteAddr := pc.conn.remoteAddr }

/-! ### Peers -/

/-- A peer. Two peers are the same object exactly when `addr` is the same. -/
structure Peer where
  addr : Nat
  peerConn : PeerConn
  nodeInfo : NodeInfo
  key : Str
  deriving DecidableEq

/-- `newPeer`: the key is the one of the node info. -/
def newPeer (addr : Nat) (pc : PeerConn) (nodeInfo : NodeInfo) : Peer :=
  ⟨addr, pc, nodeInfo, keyString nodeInfo.pubKey⟩

/-- `Peer.PubKey`. Without authentication the method calls itself. -/
def Peer.pubKey (p : Peer) : Except Panic PubKey :=
  if p.peerConn.authEnc then
    match p.peerConn.conn.auth with
    | some auth => .ok auth.remPubKey
    | none => .error .typeAssertion
  else .error .stackOverflow

/-! ### Sets of peers

The model of `p2p/peer_set.go`. Each method runs under the lock of the set. An item of
`lookup` is reached through the map only, so changing it is writing to the map.
-/

/-- A peer with its place in the list. -/
structure PeerSetItem where
  peer : Peer
  index : Nat
  deriving DecidableEq

/-- A table and a list of the same peers. -/
structure PeerSet where
  lookup : AList (fun _ : Str => PeerSetItem)
  list : List Peer

namespace PeerSet

def new : PeerSet := ⟨∅, []⟩

/-- `Add`: the set, and the error. -/
def add (ps : PeerSet) (peer : Peer) : PeerSet × Option Err :=
  match ps.lookup.lookup peer.key with
  | some _ => (ps, some RootErr.errDuplicatePeer.err)
  | none =>
    (⟨ps.lookup.insert peer.key ⟨peer, ps.list.length⟩, ps.list ++ [peer]⟩, none)

def has (ps : PeerSet) (peerKey : Str) : Bool := decide (peerKey ∈ ps.lookup)

def get (ps : PeerSet) (peerKey : Str) : Option Peer :=
  (ps.lookup.lookup peerKey).map PeerSetItem.peer

/-- `Remove` of the entry with the key of the peer. The last peer takes its place in the
list. -/
def remove (ps : PeerSet) (peer : Peer) : Except Panic PeerSet :=
  match ps.lookup.lookup peer.key with
  | none => .ok ps
  | some item => do
      -- `make` panics on the length -1 of an empty list.
      let lastPeer ← orPanic .sliceBounds ps.list.getLast?
      let newList := ps.list.dropLast
      if item.index = ps.list.length - 1 then return ⟨ps.lookup.erase peer.key, newList⟩
      let lastPeerItem ← orPanic .nilDereference (ps.lookup.lookup lastPeer.key)
      if newList.length ≤ item.index then throw .indexOutOfRange
      let lookup := ps.lookup.insert lastPeer.key { lastPeerItem with index := item.index }
      -- The deletion comes last, so it takes the entry just written if the keys agree.
      return ⟨lookup.erase peer.key, newList.set item.index lastPeer⟩

def size (ps : PeerSet) : Nat := ps.list.length

/-! ### Runs -/

/-- The calls that change a set. -/
inductive Call where
  | add (peer : Peer)
  | remove (peer : Peer)

def step (ps : PeerSet) : Call → Except Panic PeerSet
  | .add peer => .ok (ps.add peer).1
  | .remove peer => ps.remove peer

/-- The calls of any number of goroutines, in the order in which they get the lock. -/
def run (ps : PeerSet) (calls : List Call) : Except Panic PeerSet := calls.foldlM step ps

end PeerSet

end BtmStats.Spec.P2p
