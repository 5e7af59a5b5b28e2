import BtmStats.Spec.Types.Block

/-!
# `BtmStats.Spec.Netsync.BlockKeeper`: synchronisation with one peer

The model of `BlockRequest` and `BlockRequestWorker` in `netsync/block_keeper.go`. The type
`γ` is all that the block keeper shares with other parts of the node: the chain, the peers,
the switch and the channels.

What comes in while `BlockRequest` waits is the list of signals up to the time-out. A pending
response is never nil: `GetBlock` makes the block before it reads into it.
-/

set_option autoImplicit false

namespace BtmStats.Spec.Netsync

open Spec
open Spec.Bc (Hash)
open Spec.Types (Block)

/-- The errors of the block keeper, which are compared by identity. -/
inductive KeeperErr where
  | errGetBlockTimeout
  | errPeerDropped
  | errGetBlockByHash
  | errBroadcastStatus
  | errReqBlock
  | errPeerNotRegister
  deriving DecidableEq, Repr

/-- What the `select` of `BlockRequest` receives. A retry says whether the request could be
sent again. -/
inductive Signal where
  | pendingResponse (peerID : Str) (block : Block)
  | retryTicker (sent : Bool)
  | quitReqBlock (peerID : Str)

/-- What the block keeper calls of other parts. -/
structure KeeperApi (γ : Type) where
  /-- `Hash.String` -/
  string : Hash → Str
  bestBlockHeight : γ → UInt64
  bestBlockHash : γ → Hash
  /-- `GetBlockByHash`: none is an error. -/
  getBlockByHash : γ → Hash → Option Block
  /-- `ProcessBlock`: whether the block is an orphan, and the error. -/
  processBlock : γ → Block → (Bool × Option Err) × γ
  /-- Whether `peers.Peer` finds the peer. -/
  isRegistered : γ → Str → Bool
  /-- `requestBlockByHeight`: whether the request was sent. -/
  requestBlockByHeight : γ → Str → UInt64 → Bool × γ
  /-- What comes in before `syncWait` does. -/
  signals : γ → List Signal × γ
  /-- `addBanScore(20, 0, "block process error")` -/
  addBanScore : γ → Str → Bool × γ
  addBannedPeer : γ → Str → γ
  stopPeerGracefully : γ → Str → γ
  /-- `BroadcastNewStatus`: the peers to stop, which may be nil, or an error. -/
  broadcastNewStatus : γ → Block → Option (List (Option Str)) × γ

/-- The loop of `BlockRequest`. -/
def awaitBlock (peerID : Str) (height : UInt64) : List Signal → Except KeeperErr Block
  | [] => .error .errGetBlockTimeout
  | .pendingResponse id block :: rest =>
    if id ≠ peerID then awaitBlock peerID height rest
    else if block.blockHeader.height ≠ height then awaitBlock peerID height rest
    else .ok block
  | .retryTicker sent :: rest =>
    if sent = true then awaitBlock peerID height rest else .error .errReqBlock
  | .quitReqBlock id :: rest =>
    if id = peerID then .error .errPeerDropped else awaitBlock peerID height rest

/-- The variables of the loop of `BlockRequestWorker`. -/
structure Counters where
  num : UInt64
  orphanNum : UInt64
  isOrphan : Bool

/-- The height that is asked for next. -/
def Counters.reqNum (k : Counters) : UInt64 := if k.isOrphan then k.orphanNum else k.num

/-- What passes in an iteration of the loop: the height that `BlockRequest` is called with,
its answer, and the verdict of `ProcessBlock` on a block. -/
structure IterationRecord where
  height : UInt64
  answer : Except KeeperErr Block
  verdict : Option (Bool × Option Err)

namespace KeeperApi

variable {γ : Type} (api : KeeperApi γ)

/-- `BlockRequest`: ask a peer for the block at a height, and wait. -/
def blockRequest (s : γ) (peerID : Str) (height : UInt64) : Except KeeperErr Block × γ :=
  let (sent, s) := api.requestBlockByHeight s peerID height
  if sent = false then (.error .errReqBlock, s)
  else
    let (signals, s) := api.signals s
    (awaitBlock peerID height signals, s)

/-- One iteration of the loop. Without counters the loop is left by a `break`. -/
def requestNext (peerID : Str) (s : γ) (k : Counters) : γ × Option Counters :=
  match api.blockRequest s peerID k.reqNum with
  -- `BlockRequest` has no other errors than the three that stop the peer.
  | (.error _, s) => (api.stopPeerGracefully s peerID, none)
  | (.ok block, s) =>
    match api.processBlock s block with
    | ((_, some _), s) =>
      let (ban, s) := api.addBanScore s peerID
      (if ban then api.stopPeerGracefully (api.addBannedPeer s peerID) peerID else s, none)
    | ((true, none), s) =>
      (s, some { k with orphanNum := block.blockHeader.height - 1, isOrphan := true })
    | ((false, none), s) => (s, some { k with num := k.num + 1, isOrphan := false })

/-- The loop, with at most `fuel` requests: none says that it has not ended. -/
def requestLoop (peerID : Str) (maxPeerHeight : UInt64) : Nat → γ → Counters → Option γ
  | 0, s, k => if 0 < k.num ∧ k.num ≤ maxPeerHeight then none else some s
  | fuel + 1, s, k =>
    if 0 < k.num ∧ k.num ≤ maxPeerHeight then
      match api.requestNext peerID s k with
      | (s, none) => some s
      | (s, some k) => requestLoop peerID maxPeerHeight fuel s k
    else some s

/-- The record of an iteration, from the state before it. -/
def iteration (peerID : Str) (s : γ) (k : Counters) : IterationRecord :=
  match api.blockRequest s peerID k.reqNum with
  | (.error e, _) => ⟨k.reqNum, .error e, none⟩
  | (.ok block, s) => ⟨k.reqNum, .ok block, some (api.processBlock s block).1⟩

/-- The records of the loop, of at most `fuel` iterations. -/
def iterations (peerID : Str) (maxPeerHeight : UInt64) : Nat → γ → Counters → List IterationRecord
  | 0, _, _ => []
  | fuel + 1, s, k =>
    if 0 < k.num ∧ k.num ≤ maxPeerHeight then
      api.iteration peerID s k ::
        match api.requestNext peerID s k with
        | (_, none) => []
        | (s, some k) => iterations peerID maxPeerHeight fuel s k
    else []

/-- The loop over the peers that could not be told. -/
def stopPeers : List (Option Str) → γ → γ × Option KeeperErr
  | [], s => (s, none)
  | none :: _, s => (s, some .errPeerNotRegister)
  | some peerID :: rest, s => stopPeers rest (api.stopPeerGracefully s peerID)

/-- What follows the loop: the new status is broadcast. -/
def finishSync (currentHash : Hash) (s : γ) : γ × Option KeeperErr :=
  let bestHash := api.bestBlockHash s
  if api.string currentHash = api.string bestHash then (s, none)
  else
    match api.getBlockByHash s bestHash with
    | none => (s, some .errGetBlockByHash)
    | some block =>
      match api.broadcastNewStatus s block with
      | (none, s) => (s, some .errBroadcastStatus)
      | (some peers, s) => api.stopPeers peers s

/-- `BlockRequestWorker`. There is no result if the fuel does not last. -/
def blockRequestWorker (fuel : Nat) (s : γ) (peerID : Str) (maxPeerHeight : UInt64) :
    Option (γ × Option KeeperErr) :=
  let num := api.bestBlockHeight s + 1
  let currentHash := api.bestBlockHash s
  if api.isRegistered s peerID = false then some (s, some .errPeerNotRegister)
  else
    (api.requestLoop peerID maxPeerHeight fuel s ⟨num, 0, false⟩).map (api.finishSync currentHash)

end KeeperApi

end BtmStats.Spec.Netsync
