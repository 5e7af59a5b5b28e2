import BtmStats.Spec.Collections.Prque
import BtmStats.Spec.Types.Block

/-!
# `BtmStats.Spec.Netsync.Fetcher`: import of announced blocks

The model of `netsync/fetcher.go`. The goroutine of `loop` is a machine with one step for
the read of the height, one for each iteration of the inner loop, and one for each event of
the `select`.

The chain is shared with other goroutines. A call gives its answer and the chain that the
next call sees, so anything may have happened to the chain in between. The peers that
`insert` bans or tells about a block are left out, and so is `queues`, which nothing uses.
-/

set_option autoImplicit false

namespace BtmStats.Spec.Netsync

open Spec Spec.Bc Spec.Types Spec.Collections

/-- What the fetcher calls of other packages, for chains of type `γ`. -/
structure FetcherApi (γ : Type) where
  /-- `BlockHeader.Hash` -/
  hash : BlockHeader → Hash
  /-- `Hash.String` -/
  string : Hash → Str
  bestBlockHeight : γ → UInt64 × γ
  bestBlockHash : γ → Hash × γ
  /-- `GetBlockByHash`, without its error. -/
  getBlockByHash : γ → Hash → Option Block × γ
  processBlock : γ → Block → (Bool × Option Err) × γ

/-- `maxQueueDist` -/
def maxQueueDist : Int64 := 1024

/-- `blockPending`: a block and the peer that it came from. -/
structure BlockPending where
  peerID : Str
  block : Block

/-- The queue of the fetcher, and the hashes that it believes to be in it. -/
structure Fetcher where
  queue : Prque BlockPending
  queued : AList (fun _ : Hash => BlockPending)

def newFetcher : Fetcher := ⟨.new, ∅⟩

namespace Fetcher

/-- `f.queue.Push(op, -float32(op.block.Height))` -/
def pushBlock (queue : Prque BlockPending) (op : BlockPending) : Prque BlockPending :=
  queue.push op (-(toFloat32 op.block.blockHeader.height : Int))

/-- `forgetBlock` -/
def forgetBlock (f : Fetcher) (hash : Hash) : Fetcher :=
  { f with queued := f.queued.erase hash }

section
variable {γ : Type} (api : FetcherApi γ)

/-- `enqueue`: blocks too far from the best one or queued already are dropped. -/
def enqueue (f : Fetcher) (chain : γ) (peer : Str) (block : Block) : Fetcher × γ :=
  let hash := api.hash block.blockHeader
  let (best, chain) := api.bestBlockHeight chain
  let dist := block.blockHeader.height.toInt64 - best.toInt64
  if dist < 0 ∨ dist > maxQueueDist then (f, chain)
  else if hash ∈ f.queued then (f, chain)
  else
    let op := ⟨peer, block⟩
    ({ queue := pushBlock f.queue op, queued := f.queued.insert hash op }, chain)

/-- One iteration of the inner loop, with the height that was read before it. The result
says whether the loop goes on. -/
def importNext (height : UInt64) (f : Fetcher) (chain : γ) : Except Panic (Fetcher × γ × Bool) :=
  if f.queue.empty = true then .ok (f, chain, false)
  else do
    let (op, queue) ← f.queue.popItem
    let number := op.block.blockHeader.height
    if number > height + 1 then return ({ f with queue := pushBlock queue op }, chain, false)
    let f := { f with queue }
    let hash := api.hash op.block.blockHeader
    let (block, chain) := api.getBlockByHash chain hash
    if block.isSome = true then return (f.forgetBlock hash, chain, true)
    let (best, chain) := api.bestBlockHash chain
    if api.string op.block.blockHeader.previousBlockHash ≠ api.string best then
      return (f.forgetBlock hash, chain, true)
    -- `insert`: its error is logged and held against the peer, and nothing is forgotten.
    let (_, chain) := api.processBlock chain op.block
    return (f, chain, true)

end

/-! ### The loop -/

/-- Where the goroutine is: at the start of the outer loop, in the inner loop with the
height that it has read, or at the `select`. -/
inductive Phase where
  | outer
  | inner (height : UInt64)
  | select
  | returned
  deriving DecidableEq

/-- The fetcher, the chain and the place of the goroutine. -/
structure State (γ : Type) where
  fetcher : Fetcher
  chain : γ
  phase : Phase

/-- The goroutine goes on by itself, or the `select` gets an event. -/
inductive Event where
  | next
  | newMinedBlock (op : BlockPending)
  | quit

variable {γ : Type}

/-- The goroutine before its first iteration. -/
def State.start (chain : γ) : State γ := ⟨newFetcher, chain, .outer⟩

/-- One step. An event that the place does not wait for does nothing. -/
def State.step (api : FetcherApi γ) (st : State γ) : Event → Except Panic (State γ)
  | .next =>
    match st.phase with
    | .outer =>
      let (height, chain) := api.bestBlockHeight st.chain
      .ok { st with chain, phase := .inner height }
    | .inner height => do
        let (fetcher, chain, more) ← importNext api height st.fetcher st.chain
        return ⟨fetcher, chain, if more then .inner height else .select⟩
    | .select | .returned => .ok st
  | .newMinedBlock op =>
    match st.phase with
    | .select =>
      let (fetcher, chain) := st.fetcher.enqueue api st.chain op.peerID op.block
      .ok ⟨fetcher, chain, .outer⟩
    | _ => .ok st
  | .quit => .ok (if st.phase = .select then { st with phase := .returned } else st)

/-- The steps of a run. -/
def State.run (api : FetcherApi γ) (st : State γ) (events : List Event) :
    Except Panic (State γ) :=
  events.foldlM (State.step api) st

end Fetcher

end BtmStats.Spec.Netsync
