import Mathlib.Logic.Function.Basic
import BtmStats.Spec.Runtime

/-!
# `BtmStats.Spec.Pex.MsgLimit`: the message limiter of the PEX reactor

The model of `incrementMsgCount`, `reachedMaxMsgLimit` and `flushMsgCountByPeer` of
`p2p/pex/pex_reactor.go`, as `Receive` and the timer call them, and of `cmn.CMap` as far as
they use it. A method of `CMap` holds its lock, so it is one step; `incrementMsgCount` has two of
them. One goroutine receives the messages of a peer address. What `Receive` does after the check
does not touch the counters and is left out.
-/

set_option autoImplicit false

namespace BtmStats.Spec.Pex

open Spec

def defaultMaxMsgCountByPeer : UInt16 := 1000

/-- `cmn.CMap` with values of one type. -/
abbrev CMap (α : Type) := Str → Option α

/-- `CMap.Set` -/
def CMap.set {α : Type} (m : CMap α) (key : Str) (value : α) : CMap α :=
  Function.update m key (some value)

/-- `NewCMap`, and what `CMap.Clear` leaves. -/
def CMap.empty {α : Type} : CMap α := fun _ => none

/-- The counter that `incrementMsgCount` writes after it has read the map. It wraps around. -/
def nextMsgCount (countI : Option UInt16) : UInt16 := countI.getD 0 + 1

/-- `incrementMsgCount` -/
def incrementMsgCount (msgCountByPeer : CMap UInt16) (addr : Str) : CMap UInt16 :=
  msgCountByPeer.set addr (nextMsgCount (msgCountByPeer addr))

/-- `reachedMaxMsgLimit`. The type assertion panics on nil. -/
def reachedMaxMsgLimit (msgCountByPeer : CMap UInt16) (addr : Str) : Except Panic Bool := do
  let count ← orPanic .typeAssertion (msgCountByPeer addr)
  return decide (defaultMaxMsgCountByPeer ≤ count)

namespace MsgLimit

/-- Where the goroutine of an address is in `Receive`. -/
inductive Phase where
  /-- not in `Receive`, or after the check -/
  | idle
  /-- in `incrementMsgCount`, before `Set`, with the counter to write -/
  | incrementing (count : UInt16)
  /-- before `reachedMaxMsgLimit` -/
  | checking
  deriving DecidableEq

/-- A return of `reachedMaxMsgLimit`, with the number of calls of `incrementMsgCount` for the
address since the last `Clear`. -/
structure Verdict where
  addr : Str
  calls : Nat
  reached : Bool
  deriving DecidableEq

/-- The counters and the goroutines. `calls` and `verdicts` record what has happened. -/
structure State where
  msgCountByPeer : CMap UInt16
  phase : Str → Phase
  calls : Str → Nat
  verdicts : List Verdict

/-- A reactor before the first message. -/
def State.fresh : State := ⟨.empty, fun _ => .idle, fun _ => 0, []⟩

/-- A step of a goroutine. -/
inductive Event where
  /-- `Receive` calls `incrementMsgCount`, up to its `Get` -/
  | get (addr : Str)
  /-- the `Set` of `incrementMsgCount` -/
  | set (addr : Str)
  /-- `reachedMaxMsgLimit` -/
  | check (addr : Str)
  /-- the tick of `flushMsgCountByPeer` -/
  | clear
  deriving DecidableEq

/-- One step. An event that does not belong to the place where its goroutine is does nothing. -/
def State.step (s : State) : Event → Except Panic State
  | .get addr =>
    match s.phase addr with
    | .idle => .ok { s with
        phase := Function.update s.phase addr
          (.incrementing (nextMsgCount (s.msgCountByPeer addr)))
        calls := Function.update s.calls addr (s.calls addr + 1) }
    | _ => .ok s
  | .set addr =>
    match s.phase addr with
    | .incrementing count => .ok { s with
        msgCountByPeer := s.msgCountByPeer.set addr count
        phase := Function.update s.phase addr .checking }
    | _ => .ok s
  | .check addr =>
    match s.phase addr with
    | .checking => do
        let reached ← reachedMaxMsgLimit s.msgCountByPeer addr
        return { s with
          phase := Function.update s.phase addr .idle
          verdicts := s.verdicts ++ [⟨addr, s.calls addr, reached⟩] }
    | _ => .ok s
  | .clear => .ok { s with msgCountByPeer := .empty, calls := fun _ => 0 }

/-- A run: any interleaving of the steps of `Receive` on any addresses with the timer. -/
def State.run (s : State) (events : List Event) : Except Panic State := events.foldlM State.step s

end MsgLimit

end BtmStats.Spec.Pex
