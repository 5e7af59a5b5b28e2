import BtmStats.Spec.Types.Map

/-!
# `BtmStats.Spec.Netsync.TxSync`: initial transaction sync

The model of `txsyncLoop` in `netsync/sync.go`, and of `syncTransactions` in
`netsync/protocol_reactor.go`, which feeds it. A peer is its key here.

`send` starts a goroutine that calls `SendTransactions` with what the shared variable `pack`
has when it runs, and puts the result into `done`. So the call is a step of its own. The
slices are lists: `syncTransactions` makes a new array for each peer and `pack` has its own,
so the in-place shift of one is not seen through another. `StorageSize` adds exactly.

The state also records what has arrived, the packs that `send` has filled, and the calls of
`SendTransactions` with whether they succeeded.
-/

set_option autoImplicit false

namespace BtmStats.Spec.Netsync

open Spec
open Spec.Types (Tx)

/-- `txsyncPackSize` -/
def txsyncPackSize : Nat := 100 * 1024

/-- `txsync` -/
structure TxSync where
  p : Str
  txs : List Tx

/-- `tx.TxData.SerializedSize` -/
def txSize (tx : Tx) : Nat := tx.txData.serializedSize.toNat

/-- `syncTransactions`: what is sent to `txSyncCh` for a peer, given the pool. -/
def syncTransactions (p : Str) (pending : List Tx) : Option TxSync :=
  if pending.length = 0 then none else some ⟨p, pending⟩

namespace TxSync

/-- The loop that fills a pack: the transactions from one on, with the size so far. -/
def fillPack (size : Nat) : List Tx → List Tx
  | [] => []
  | tx :: txs => if size < txsyncPackSize then tx :: fillPack (size + txSize tx) txs else []

/-- The loop and its goroutines. The last three lists record what happened. -/
structure State where
  pending : AList (fun _ : Str => TxSync)
  sending : Bool
  pack : TxSync
  /-- The goroutines that have not called `SendTransactions` yet. -/
  running : Nat
  /-- What is in `done`: whether the send succeeded. -/
  done : List Bool
  returned : Bool
  arrived : List TxSync
  filled : List TxSync
  sent : List (TxSync × Bool)

/-- The loop before its first `select`. -/
def State.start : State where
  pending := ∅
  sending := false
  pack := ⟨[], []⟩
  running := 0
  done := []
  returned := false
  arrived := []
  filled := []
  sent := []

/-- `send`, for a sync that is in `pending`. -/
def State.send (st : State) (s : TxSync) : State :=
  let pack := ⟨s.p, fillPack 0 s.txs⟩
  let txs := s.txs.drop pack.txs.length
  { st with
    pending := if txs.length = 0 then st.pending.erase s.p else st.pending.insert s.p ⟨s.p, txs⟩
    sending := true
    pack := pack
    running := st.running + 1
    filled := st.filled ++ [pack] }

/-- `pick`, with the draw of `rand.Intn` and the order of the iteration. -/
def State.pick (st : State) (draw : Nat) (order : IterOrder TxSync) : Option TxSync :=
  if st.pending.entries.length = 0 then none
  else (order.apply (st.pending.entries.map Sigma.snd))[draw % st.pending.entries.length]?

/-- A case of the `select`, or a goroutine that sends. -/
inductive Event where
  | txSyncCh (s : TxSync)
  /-- The goroutine of a send calls `SendTransactions`. -/
  | sendTransactions (succeeds : Bool)
  | done (draw : Nat) (order : IterOrder TxSync)
  | quitSync

/-- Take a sync into `pending`. One of the same peer is replaced. -/
def State.register (st : State) (s : TxSync) : State :=
  { st with pending := st.pending.insert s.p s, arrived := st.arrived ++ [s] }

/-- The case of the `select` for a new sync. -/
def State.receive (st : State) (s : TxSync) : State :=
  if st.sending then st.register s else (st.register s).send s

/-- A peer whose send has failed is no longer tracked. -/
def State.settle (st : State) (succeeds : Bool) : State :=
  { st with
    sending := false
    pending := if succeeds then st.pending else st.pending.erase st.pack.p }

/-- The case of the `select` for the result of a send. -/
def State.finish (st : State) (succeeds : Bool) (draw : Nat) (order : IterOrder TxSync) : State :=
  let st := st.settle succeeds
  match st.pick draw order with
  | none => st
  | some s => st.send s

/-- One step of the loop or of a goroutine. -/
def State.step (st : State) : Event → Except Panic State
  | .txSyncCh s => .ok (if st.returned then st else st.receive s)
  | .sendTransactions succeeds =>
    .ok (if st.running = 0 then st else
      { st with
        running := st.running - 1
        done := st.done ++ [succeeds]
        sent := st.sent ++ [(st.pack, succeeds)] })
  | .done draw order =>
    match st.returned, st.done with
    | false, succeeds :: done => .ok (State.finish { st with done } succeeds draw order)
    | _, _ => .ok st
  | .quitSync => .ok { st with returned := true }

/-- The steps of a run. -/
def State.run (st : State) (events : List Event) : Except Panic State :=
  events.foldlM State.step st

end TxSync

end BtmStats.Spec.Netsync
