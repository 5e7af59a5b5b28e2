import BtmStats.Proofs.Netsync.BlockKeeper
import BtmStats.Proofs.Netsync.DecodeMessage
import BtmStats.Proofs.Netsync.Message
import BtmStats.Proofs.Types.BlockText
import BtmStats.Spec.Netsync.Receive

/-!
# `BtmStats.Proofs.Netsync.Receive`: requests and answers

A node that asks for a block writes a request, which the other node reads, answers with the text of
the block, and the first node reads that answer. `block_request_answered` follows a block through
the two calls of `Receive` and the loop of `BlockRequest`: the loop returns a block of the peer and
the height that were asked for, whatever other peers send, and an honest peer gets its block
through.
-/

set_option autoImplicit false

namespace BtmStats.Proofs.Netsync

open Lib Spec Spec.Netsync Spec.Types Proofs.Types
open Spec.Bc (Hash newHash)

/-! ### Actions -/

section
variable {α : Type} {a : Action}

@[simp] theorem mem_done {actions : List Action} :
    a ∈ (Received.done actions).actions ↔ a ∈ actions := .rfl

@[simp] theorem mem_after {call : Except Panic α} {next : α → Received} :
    a ∈ (Received.after call next).actions ↔ ∃ x, call = .ok x ∧ a ∈ (next x).actions := by
  cases call <;> simp [Received.after]

@[simp] theorem mem_orLog {res : Except Err α} {next : α → Received} :
    a ∈ (Received.orLog res next).actions ↔ ∃ x, res = .ok x ∧ a ∈ (next x).actions := by
  cases res <;> simp [Received.orLog]

end

section
variable {env : ReceiveEnv} {pr : ProtocolReactor} {chain : ChainView}
  {orders : Nat → Nat → MapTxOrders} {src : Str} {status : InitalPeerStatus}

/-- Only a status response sends a status on. -/
theorem handle_peerStatus {msg : BlockchainMessage}
    (h : .peerStatus status ∈ (pr.handle env chain orders src msg).actions) :
    ∃ m, msg = .statusResponse m ∧
      status = ⟨src, m.height, newHash m.rawHash, newHash m.genesisHash⟩ := by
  cases msg with
  | statusResponse m => exact ⟨m, rfl, by simpa [ProtocolReactor.handle] using h⟩
  | mineBlock m =>
    simp only [ProtocolReactor.handle, mem_after, mem_orLog] at h
    obtain ⟨_, -, block, -, h⟩ := h
    split at h <;> simp at h
  | blockRequest m => simp [ProtocolReactor.handle] at h
  | blockResponse m => simp [ProtocolReactor.handle] at h
  | statusRequest => simp [ProtocolReactor.handle] at h
  | transactionNotify m => simp [ProtocolReactor.handle] at h

/-- A status that is sent on is the one of the message, under the key of the sender. -/
theorem receive_peerStatus {msgBytes : List UInt8}
    (h : .peerStatus status ∈ (pr.receive env chain orders src msgBytes).actions) :
    ∃ msgType m, decodeMessage msgBytes = .ok ⟨msgType, some (.statusResponse m), none⟩ ∧
      status = ⟨src, m.height, newHash m.rawHash, newHash m.genesisHash⟩ := by
  rw [ProtocolReactor.receive, mem_after] at h
  obtain ⟨⟨msgType, msg?, err⟩, hdecode, h⟩ := h
  split at h
  · simp at h
  · simp at h
  · next msg herr hmsg =>
    obtain ⟨m, rfl, rfl⟩ := handle_peerStatus h
    obtain rfl : err = none := herr
    obtain rfl : msg? = some (.statusResponse m) := hmsg
    exact ⟨msgType, m, hdecode, rfl⟩

end

/-! ### An encoded message -/

theorem decodeMessage_binaryBytes {m : BlockchainMessage}
    (h : m.binaryBytes.length ≤ maxBlockchainResponseSize) :
    decodeMessage m.binaryBytes = .ok ⟨m.typeByte, some m, none⟩ := by
  have hread := (scans_read (by decide) maxBlockchainResponseSize_le).append (n := 0)
    ⟨readable_binaryBytes h, by rwa [Nat.zero_add]⟩ []
  rw [List.append_nil] at hread
  unfold decodeMessage
  rw [hread]
  rfl

section
variable {env : ReceiveEnv} {pr : ProtocolReactor} {chain : ChainView}
  {orders : Nat → Nat → MapTxOrders} {src : Str}

/-- A message that arrives as it was written is handled. -/
theorem receive_binaryBytes {m : BlockchainMessage}
    (h : m.binaryBytes.length ≤ maxBlockchainResponseSize) :
    pr.receive env chain orders src m.binaryBytes = pr.handle env chain orders src m := by
  rw [ProtocolReactor.receive, decodeMessage_binaryBytes h]
  rfl

variable {block : Block} {peerID : Str}

/-- Only a block response puts a block on the channel, under the key of the sender. -/
theorem handle_addBlock {msg : BlockchainMessage}
    (h : .addBlock block peerID ∈ (pr.handle env chain orders src msg).actions) :
    ∃ m, msg = .blockResponse m ∧ peerID = src ∧
      m.getBlock env.commitmentReadFrom env.api env.sha3 (orders 1) = .ok block := by
  cases msg with
  | blockResponse m =>
    simp only [ProtocolReactor.handle, mem_after, mem_done, List.mem_singleton,
      Action.addBlock.injEq] at h
    obtain ⟨_, -, copy, hcopy, rfl, rfl⟩ := h
    exact ⟨m, rfl, rfl, hcopy⟩
  | mineBlock m =>
    simp only [ProtocolReactor.handle, mem_after, mem_orLog] at h
    obtain ⟨_, -, _, -, h⟩ := h
    split at h <;> simp at h
  | statusResponse m => simp [ProtocolReactor.handle] at h
  | blockRequest m => simp [ProtocolReactor.handle] at h
  | statusRequest => simp [ProtocolReactor.handle] at h
  | transactionNotify m => simp [ProtocolReactor.handle] at h

/-! ### The loop of `BlockRequest` -/

/-- The signals that the loop goes on after. -/
def Ignored (peerID : Str) (height : UInt64) : Signal → Prop
  | .pendingResponse id block => id ≠ peerID ∨ block.blockHeader.height ≠ height
  | .retryTicker sent => sent = true
  | .quitReqBlock id => id ≠ peerID

theorem awaitBlock_append {height : UInt64} {before : List Signal}
    (h : ∀ s ∈ before, Ignored peerID height s) (after : List Signal) :
    awaitBlock peerID height (before ++ after) = awaitBlock peerID height after := by
  induction before with
  | nil => rfl
  | cons s before ih =>
    obtain ⟨hs, hrest⟩ := List.forall_mem_cons.mp h
    cases s with
    | pendingResponse id block =>
      rw [List.cons_append, awaitBlock]
      split
      · exact ih hrest
      · next hid => rw [if_pos (hs.resolve_left hid), ih hrest]
    | retryTicker sent =>
      rw [List.cons_append, awaitBlock, if_pos (show sent = true from hs)]
      exact ih hrest
    | quitReqBlock id =>
      rw [List.cons_append, awaitBlock, if_neg (show id ≠ peerID from hs)]
      exact ih hrest

/-! ### A block between two nodes -/

/-- A block on the channel came as a message of the peer that it is filed under. -/
theorem message_of_pendingResponse {arrivals : List Arrival}
    (h : .pendingResponse peerID block ∈ arrivals.flatMap (Arrival.signals env pr)) :
    ∃ chain orders msgBytes msgType m err, .message peerID chain orders msgBytes ∈ arrivals ∧
      decodeMessage msgBytes = .ok ⟨msgType, some (.blockResponse m), none⟩ ∧
      Block.unmarshalText env.commitmentReadFrom env.api env.sha3 (orders 1) .zero m.rawBlock =
        .ok (block, err) := by
  obtain ⟨arrival, hmem, h⟩ := List.mem_flatMap.mp h
  cases arrival with
  | retryTicker sent => cases List.mem_singleton.mp h
  | removePeer peerKey => cases List.mem_singleton.mp h
  | message src chain orders msgBytes =>
    obtain ⟨action, haction, h⟩ := List.mem_filterMap.mp h
    cases action with
    | addBlock b id =>
      cases h
      rw [ProtocolReactor.receive, mem_after] at haction
      obtain ⟨⟨msgType, msg?, err⟩, hdecode, haction⟩ := haction
      split at haction
      · simp at haction
      · simp at haction
      · next msg herr hmsg =>
        obtain ⟨m, rfl, rfl, hblock⟩ := handle_addBlock haction
        obtain rfl : err = none := herr
        obtain rfl : msg? = some (.blockResponse m) := hmsg
        rw [BlockResponseMessage.getBlock, bind_eq_ok_iff] at hblock
        obtain ⟨⟨b', err⟩, htext, hblock⟩ := hblock
        cases hblock
        exact ⟨chain, orders, msgBytes, msgType, m, err, hmem, hdecode, htext⟩
    | _ => cases h

/-- The answer to a request for a block of the chain. -/
theorem blockRequest_served {height : UInt64} {rawHash : FixedBytes 32} {text : List UInt8}
    (hpos : height ≠ 0) (hchain : chain.getBlockByHeight height = .ok (.ok block))
    (htext : block.marshalText env.writers = .ok text) :
    pr.receive env chain orders src (BlockchainMessage.blockRequest ⟨height, rawHash⟩).binaryBytes =
      .done [.trySend (.blockResponse ⟨text⟩)] := by
  have hsize : (BlockchainMessage.blockRequest ⟨height, rawHash⟩).binaryBytes.length ≤
      maxBlockchainResponseSize := by
    simp [BlockchainMessage.binaryBytes, BlockchainMessage.writeFields, Wire.writeUint64, rawHash.2,
      maxBlockchainResponseSize]
  rw [receive_binaryBytes hsize]
  simp [ProtocolReactor.handle, hpos, hchain, newBlockResponseMessage, htext, Received.after,
    Received.orLog, bind, Except.bind, pure, Except.pure]

variable (pr chain orders src) in
/-- The text of a block arrives. -/
theorem blockResponse_filed (doc : env.api.Documented)
    (hundone : Undone env.writers env.commitmentReadFrom env.sha3) {text : List UInt8}
    (htext : block.marshalText env.writers = .ok text)
    (hsize : (BlockchainMessage.blockResponse ⟨text⟩).binaryBytes.length ≤
      maxBlockchainResponseSize) (hmap : ∀ tx ∈ block.transactions, Mappable tx.txData) :
    ∃ copy, pr.receive env chain orders src (BlockchainMessage.blockResponse ⟨text⟩).binaryBytes =
        .done [.addBlock copy src] ∧
      copy.blockHeader = block.blockHeader ∧
      copy.transactions.map Tx.txData = block.transactions.map (resized env.writers) ∧
      ∀ i tx, copy.transactions[i]? = some tx →
        newTx env.api env.sha3 (orders 1 i) tx.txData = .ok tx := by
  obtain ⟨hencodable, hcount⟩ := encodable_of_marshalText htext
  obtain rfl : Hex.encode (blockBytes env.writers block) = text :=
    Except.ok.inj ((marshalText_eq hencodable hcount).symm.trans htext)
  obtain ⟨logged, hlogged, -⟩ :=
    unmarshalText_written doc hundone (orders 0) hencodable hcount hmap
  obtain ⟨copy, hcopy, hsame⟩ :=
    unmarshalText_written doc hundone (orders 1) hencodable hcount hmap
  refine ⟨copy, ?_, hsame⟩
  rw [receive_binaryBytes hsize]
  simp [ProtocolReactor.handle, getBlock_eq _ hlogged, getBlock_eq _ hcopy, Received.after]

/-- A request for the block at a height, between two nodes. Whatever arrives meanwhile from any
peer, `BlockRequest` returns only a block with this height that came as a block response of the peer
that was asked. If the height is not 0 and the other node has the block, with transactions that can
be mapped, and its text fits into a message, then `Receive` there sends the block response with this
text, and `BlockRequest` returns its block when nothing that ends the wait came before it. The copy
has the transactions of the block with the `SerializedSize` of their encoding, mapped anew. -/
theorem block_request_answered (env : ReceiveEnv) (doc : env.api.Documented)
    (hundone : Undone env.writers env.commitmentReadFrom env.sha3) (client : ProtocolReactor)
    (peerID : Str) (height : UInt64) :
    (∀ (arrivals : List Arrival) (block : Block),
      awaitBlock peerID height (arrivals.flatMap (Arrival.signals env client)) = .ok block →
      block.blockHeader.height = height ∧
      ∃ chain orders msgBytes msgType m err, .message peerID chain orders msgBytes ∈ arrivals ∧
        decodeMessage msgBytes = .ok ⟨msgType, some (.blockResponse m), none⟩ ∧
        Block.unmarshalText env.commitmentReadFrom env.api env.sha3 (orders 1) .zero m.rawBlock =
          .ok (block, err)) ∧
    ∀ (server : ProtocolReactor) (chain : ChainView) (orders : Nat → Nat → MapTxOrders)
      (clientID : Str) (rawHash : FixedBytes 32) (block : Block) (text : List UInt8), height ≠ 0 →
      chain.getBlockByHeight height = .ok (.ok block) → block.blockHeader.height = height →
      block.marshalText env.writers = .ok text →
      (BlockchainMessage.blockResponse ⟨text⟩).binaryBytes.length ≤ maxBlockchainResponseSize →
      (∀ tx ∈ block.transactions, Mappable tx.txData) →
      server.receive env chain orders clientID
          (BlockchainMessage.blockRequest ⟨height, rawHash⟩).binaryBytes =
        .done [.trySend (.blockResponse ⟨text⟩)] ∧
      ∀ chain' orders' before after,
        (∀ s ∈ before.flatMap (Arrival.signals env client), Ignored peerID height s) →
        ∃ copy, awaitBlock peerID height
            ((before ++ .message peerID chain' orders'
              (BlockchainMessage.blockResponse ⟨text⟩).binaryBytes :: after).flatMap
                (Arrival.signals env client)) = .ok copy ∧
          copy.blockHeader = block.blockHeader ∧
          copy.transactions.map Tx.txData = block.transactions.map (resized env.writers) ∧
          ∀ i tx, copy.transactions[i]? = some tx →
            newTx env.api env.sha3 (orders' 1 i) tx.txData = .ok tx := by
  constructor
  · intro arrivals block h
    obtain ⟨hheight, hmem⟩ := awaitBlock_ok h
    exact ⟨hheight, message_of_pendingResponse hmem⟩
  · intro server chain orders clientID rawHash block text hpos hchain hheight htext hsize hmap
    refine ⟨blockRequest_served hpos hchain htext, fun chain' orders' before after hbefore => ?_⟩
    obtain ⟨copy, hreceive, hheader, hrest⟩ :=
      blockResponse_filed client chain' orders' peerID doc hundone htext hsize hmap
    refine ⟨copy, ?_, hheader, hrest⟩
    have hsignals : Arrival.signals env client (.message peerID chain' orders'
        (BlockchainMessage.blockResponse ⟨text⟩).binaryBytes) = [.pendingResponse peerID copy] := by
      rw [Arrival.signals, hreceive]
      rfl
    rw [List.flatMap_append, List.flatMap_cons, hsignals, awaitBlock_append hbefore,
      List.singleton_append, awaitBlock, if_neg (not_not.mpr rfl), hheader,
      if_neg (not_not.mpr hheight)]

end

/-! ### A plain node -/

/-- An environment without cryptography. -/
def plainReceiveEnv : ReceiveEnv where
  commitmentReadFrom := readTwoHashes
  api := tagApi
  sha3 := zeroSha3
  writers := plainWriters
  txUnmarshalText _ := .ok (.error RootErr.eof.err)
  hash _ := Hash.zero

/-- A chain that has no block. -/
def emptyChain : ChainView where
  getBlockByHeight _ := .ok (.error RootErr.eof.err)
  getBlockByHash _ := .ok (.error RootErr.eof.err)
  bestBlockHeader := .zero

/-- A block at height 1, with a coinbase. -/
def servedBlock : Block :=
  { plainBlock coinbaseAlone with
    blockHeader := { (plainBlock coinbaseAlone).blockHeader with height := 1 } }

/-- A chain that has this block. -/
def servedChain : ChainView :=
  { emptyChain with
    getBlockByHeight := fun height =>
      if height = 1 then .ok (.ok servedBlock) else .ok (.error RootErr.eof.err) }

/-- The peer with key 1 is asked for the block at height 1. It is asked again, another peer is
removed, and then the answer comes. -/
theorem servedBlock_fetched :
    let pr : ProtocolReactor := ⟨Hash.zero, false⟩
    let orders := fun _ _ : Nat => idOrders
    ∃ text, servedBlock.marshalText plainWriters = .ok text ∧
      pr.receive plainReceiveEnv servedChain orders [0]
          (BlockchainMessage.blockRequest ⟨1, Hash.zero.byte32⟩).binaryBytes =
        .done [.trySend (.blockResponse ⟨text⟩)] ∧
      ∃ copy, awaitBlock [1] 1
          (([Arrival.retryTicker true, .removePeer [2]] ++ [Arrival.message [1] emptyChain orders
            (BlockchainMessage.blockResponse ⟨text⟩).binaryBytes]).flatMap
              (Arrival.signals plainReceiveEnv pr)) = .ok copy ∧
        copy.blockHeader = servedBlock.blockHeader ∧
        copy.transactions.map Tx.txData = [coinbaseAlone] := by
  intro pr orders
  have htext : ∃ text, servedBlock.marshalText plainWriters = .ok text ∧
      (BlockchainMessage.blockResponse ⟨text⟩).binaryBytes.length ≤ maxBlockchainResponseSize :=
    ⟨_, rfl, by decide +kernel⟩
  obtain ⟨text, htext, hsize⟩ := htext
  obtain ⟨hresponse, hfetch⟩ := (block_request_answered plainReceiveEnv tagApi_documented
    plainWriters_undone pr [1] 1).2 pr servedChain orders [0] Hash.zero.byte32 servedBlock text
    (by decide) rfl rfl htext hsize (by
      intro tx htx input hmem _
      obtain rfl := List.mem_singleton.mp htx
      exact ⟨by decide, coinbaseInput, rfl, by decide⟩)
  have hbefore : ∀ s ∈ ([.retryTicker true, .removePeer [2]] : List Arrival).flatMap
      (Arrival.signals plainReceiveEnv pr), Ignored [1] 1 s := by
    intro s hs
    rcases List.mem_cons.mp hs with rfl | hs
    · rfl
    · obtain rfl := List.mem_singleton.mp hs
      exact (by decide : ([2] : Str) ≠ [1])
  obtain ⟨copy, hcopy, hheader, hdata, -⟩ := hfetch emptyChain orders _ [] hbefore
  exact ⟨text, htext, hresponse, copy, hcopy, hheader, hdata⟩

end BtmStats.Proofs.Netsync
