import BtmStats.Spec.Netsync.BlockKeeper
import BtmStats.Spec.Netsync.DecodeMessage

/-!
# `BtmStats.Spec.Netsync.Receive`: what a node does with a message

The model of `NewProtocolReactor` and `ProtocolReactor.Receive` in `netsync/protocol_reactor.go`,
and of the constructors of messages in `netsync/message.go`. `Receive` runs in the receive routine
of the peer that sent the message. What it does to the rest of the node is a list of actions, and
it can end with a panic. The blocks among the actions are what `BlockRequest` waits for.

The chain is seen through the three methods that `Receive` calls. `GetBlockByHash` and
`BestBlockHeader` are not in the repository, neither is `Tx.UnmarshalText`.
-/

set_option autoImplicit false

namespace BtmStats.Spec.Netsync

open Lib Spec Spec.Types
open Spec.Bc (Hash newHash)

/-- `initalPeerStatus` -/
structure InitalPeerStatus where
  peerID : Str
  height : UInt64
  hash : Hash
  genesisHash : Hash
  deriving DecidableEq

/-- What `Receive` uses of other packages. -/
structure ReceiveEnv where
  commitmentReadFrom : Fill BlockCommitment
  api : EntryApi
  sha3 : List UInt8 → FixedBytes 32
  writers : BlockWriters
  /-- `Tx.UnmarshalText` into a fresh transaction -/
  txUnmarshalText : List UInt8 → Except Panic (Except Err Tx)
  /-- `BlockHeader.Hash` -/
  hash : BlockHeader → Hash

/-- The chain. A block that is found is not nil. -/
structure ChainView where
  getBlockByHeight : UInt64 → Except Panic (Except Err Block)
  getBlockByHash : Hash → Except Panic (Except Err Block)
  bestBlockHeader : BlockHeader

/-- The fields of a `ProtocolReactor` that `Receive` reads. `NewSyncManager` passes a nil
fetcher. -/
structure ProtocolReactor where
  genesisHash : Hash
  hasFetcher : Bool

/-- What `Receive` calls or sends. -/
inductive Action where
  /-- `src.TrySend` on the blockchain channel, whose result is dropped -/
  | trySend (msg : BlockchainMessage)
  /-- `blockKeeper.AddBlock` -/
  | addBlock (block : Block) (peerID : Str)
  /-- `peerStatusCh <- peerStatus` -/
  | peerStatus (status : InitalPeerStatus)
  /-- `blockKeeper.AddTx` -/
  | addTx (tx : Tx) (peerID : Str)
  | markBlock (peerID : Str) (hash : Hash)
  /-- `fetcher.Enqueue` -/
  | enqueue (peerID : Str) (block : Block)
  | setPeerStatus (peerID : Str) (height : UInt64) (hash : Hash)

/-- A call of `Receive`: what it did, and the panic that it ended with. -/
structure Received where
  actions : List Action
  panic : Option Panic

/-- Return without a panic. -/
def Received.done (actions : List Action) : Received := ⟨actions, none⟩

/-- Call a function that can panic. -/
def Received.after {α : Type} (call : Except Panic α) (next : α → Received) : Received :=
  match call with
  | .error p => ⟨[], some p⟩
  | .ok a => next a

/-- Return on an error, which is only logged. -/
def Received.orLog {α : Type} (res : Except Err α) (next : α → Received) : Received :=
  match res with
  | .error _ => .done []
  | .ok a => next a

section
variable (env : ReceiveEnv)

/-- `NewBlockResponseMessage` -/
def newBlockResponseMessage (block : Block) : Except Err BlockResponseMessage := do
  let rawBlock ← block.marshalText env.writers
  return ⟨rawBlock⟩

/-- `NewStatusResponseMessage` -/
def newStatusResponseMessage (blockHeader : BlockHeader) (hash : Hash) : StatusResponseMessage :=
  ⟨blockHeader.height, (env.hash blockHeader).byte32, hash.byte32⟩

namespace ProtocolReactor

/-- The cases of `Receive`. A block response is unmarshalled twice, for the log and for the block
keeper. Each time `MapTx` has its own orders of iteration. -/
def handle (pr : ProtocolReactor) (chain : ChainView) (orders : Nat → Nat → MapTxOrders)
    (src : Str) : BlockchainMessage → Received
  | .blockRequest msg =>
    .after (if msg.height ≠ 0 then chain.getBlockByHeight msg.height
      else chain.getBlockByHash (newHash msg.rawHash)) fun res =>
    .orLog res fun block =>
    .orLog (newBlockResponseMessage env block) fun response =>
    .done [.trySend (.blockResponse response)]
  | .blockResponse msg =>
    .after (msg.getBlock env.commitmentReadFrom env.api env.sha3 (orders 0)) fun _ =>
    .after (msg.getBlock env.commitmentReadFrom env.api env.sha3 (orders 1)) fun block =>
    .done [.addBlock block src]
  | .statusRequest =>
    .done [.trySend (.statusResponse
      (newStatusResponseMessage env chain.bestBlockHeader pr.genesisHash))]
  | .statusResponse msg =>
    .done [.peerStatus ⟨src, msg.height, newHash msg.rawHash, newHash msg.genesisHash⟩]
  | .transactionNotify msg =>
    .after (env.txUnmarshalText msg.rawTx) fun res =>
    .orLog res fun tx => .done [.addTx tx src]
  | .mineBlock msg =>
    .after (msg.getMineBlock env.commitmentReadFrom env.api env.sha3 (orders 0)) fun res =>
    .orLog res fun block =>
      let hash := env.hash block.blockHeader
      if pr.hasFetcher then
        .done [.markBlock src hash, .enqueue src block,
          .setPeerStatus src block.blockHeader.height hash]
      -- `Enqueue` reads a channel of the nil fetcher.
      else ⟨[.markBlock src hash], some .nilDereference⟩

/-- `Receive`: decode the message and act on it. -/
def receive (pr : ProtocolReactor) (chain : ChainView) (orders : Nat → Nat → MapTxOrders)
    (src : Str) (msgBytes : List UInt8) : Received :=
  .after (decodeMessage msgBytes) fun decoded =>
    match decoded.err, decoded.msg with
    -- An error is logged, and so is the nil message.
    | some _, _ => .done []
    | none, none => .done []
    | none, some msg => pr.handle env chain orders src msg

end ProtocolReactor

/-! ### What a block request gets -/

/-- What can come while `BlockRequest` waits: a message of some peer, a tick, or the removal of
some peer by `RemovePeer`. -/
inductive Arrival where
  | message (src : Str) (chain : ChainView) (orders : Nat → Nat → MapTxOrders)
      (msgBytes : List UInt8)
  | retryTicker (sent : Bool)
  | removePeer (peerKey : Str)

/-- The block that an action puts on `pendingProcessCh`. -/
def Action.pendingResponse? : Action → Option Signal
  | .addBlock block peerID => some (.pendingResponse peerID block)
  | _ => none

/-- What the `select` of `BlockRequest` receives of it. -/
def Arrival.signals (pr : ProtocolReactor) : Arrival → List Signal
  | .message src chain orders msgBytes =>
    (pr.receive env chain orders src msgBytes).actions.filterMap Action.pendingResponse?
  | .retryTicker sent => [.retryTicker sent]
  | .removePeer peerKey => [.quitReqBlock peerKey]

end

end BtmStats.Spec.Netsync
