import BtmStats.Spec.Runtime
import Mathlib.Data.List.AList

/-!
# `BtmStats.Spec.Netsync.BestPeer`: the highest peer

The model of `peerSet.BestPeer` in `netsync/peer.go` and of `blockKeeper.IsCaughtUp` in
`netsync/block_keeper.go`. The peers are a map, so the order of the loop is a parameter.

`AddPeer` of the peer set, which is not in the repository, registers the `*p2p.Peer` that the
switch has made. So `swPeer` of a registered peer is not nil, and has the type `ν` of such
pointers. The variable `bestPeer` of the loop is nil at the start.
-/

set_option autoImplicit false

namespace BtmStats.Spec.Netsync

open Spec

variable {ν : Type}

/-- The fields of a registered `peer` that `BestPeer` reads. -/
structure RegisteredPeer (ν : Type) where
  height : UInt64
  swPeer : ν

/-- The map of a `peerSet`, from the ids of the peers. -/
abbrev RegisteredPeers (ν : Type) := AList fun _ : Str => RegisteredPeer ν

/-- One iteration of `BestPeer`. -/
def betterPeer (best : Option ν × UInt64) (p : RegisteredPeer ν) : Option ν × UInt64 :=
  if best.1.isNone ∨ p.height > best.2 then (some p.swPeer, p.height) else best

/-- `peerSet.BestPeer` -/
def bestPeer (order : IterOrder ((_ : Str) × RegisteredPeer ν)) (peers : RegisteredPeers ν) :
    Option ν × UInt64 :=
  (order.apply peers.entries).foldl (fun best item => betterPeer best item.2) (none, 0)

/-- `blockKeeper.IsCaughtUp`, with what `chain.BestBlockHeight` returns. -/
def isCaughtUp (order : IterOrder ((_ : Str) × RegisteredPeer ν)) (peers : RegisteredPeers ν)
    (bestBlockHeight : UInt64) : Bool :=
  let (_, height) := bestPeer order peers
  decide (bestBlockHeight < height)

end BtmStats.Spec.Netsync
