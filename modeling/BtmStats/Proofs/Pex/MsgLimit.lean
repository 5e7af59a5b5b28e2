import Mathlib.Algebra.Ring.Nat
import BtmStats.Lib.Runs
import BtmStats.Spec.Pex.MsgLimit

/-!
# `BtmStats.Proofs.Pex.MsgLimit`: when the message limiter counts right

The counter of an address is the number of its calls since the last `Clear`, modulo `2 ^ 16`, as
long as no `Clear` comes while a goroutine is between the read in `incrementMsgCount` and the
check. `Counts` says so for each place where a goroutine can be: the counter is in the map, in the
hands of the goroutine, or both are due.

A `Clear` before the write is undone by it, and the counter keeps the calls from before. A `Clear`
before the check makes it panic (`check_panics_after_clear`).
-/

set_option autoImplicit false

namespace BtmStats.Proofs.Pex

open Lib Spec Spec.Pex Spec.Pex.MsgLimit

/-- A `Clear` comes when no goroutine is between the read of a counter and the check of it. -/
def BetweenCalls (s : State) : Event → Prop
  | .clear => ∀ addr, s.phase addr = .idle
  | _ => True

/-- What the verdict says is right. -/
def Exact (v : Verdict) : Prop := v.reached = true ↔ 1000 ≤ v.calls

/-- The counter of an address and its number of calls, by the place of its goroutine. -/
def Counted (calls : Nat) (counter : Option UInt16) : Phase → Prop
  | .idle => counter.getD 0 = UInt16.ofNat calls
  | .incrementing count => count = UInt16.ofNat calls
  | .checking => counter = some (UInt16.ofNat calls)

/-- The counters are the numbers of calls modulo `2 ^ 16`, now and at the verdicts so far. -/
structure Counts (s : State) : Prop where
  counted : ∀ addr, Counted (s.calls addr) (s.msgCountByPeer addr) (s.phase addr)
  verdicts : ∀ v ∈ s.verdicts, v.reached = true ↔ 1000 ≤ v.calls % 2 ^ 16

theorem counts_fresh : Counts .fresh := ⟨fun _ => rfl, fun _ h => absurd h List.not_mem_nil⟩

theorem reached_iff (calls : Nat) :
    defaultMaxMsgCountByPeer ≤ UInt16.ofNat calls ↔ 1000 ≤ calls % 2 ^ 16 := by
  rw [UInt16.le_iff_toNat_le, UInt16.toNat_ofNat']
  rfl

theorem reachedMaxMsgLimit_of_counter {m : CMap UInt16} {addr : Str} {calls : Nat}
    (h : m addr = some (UInt16.ofNat calls)) :
    reachedMaxMsgLimit m addr = .ok (decide (1000 ≤ calls % 2 ^ 16)) := by
  rw [reachedMaxMsgLimit, h]
  exact congrArg Except.ok (decide_eq_decide.mpr (reached_iff calls))

section
variable {s : State} {addr : Str}

theorem step_get (h : s.phase addr = .idle) :
    s.step (.get addr) = .ok { s with
      phase := Function.update s.phase addr (.incrementing (nextMsgCount (s.msgCountByPeer addr)))
      calls := Function.update s.calls addr (s.calls addr + 1) } := by
  simp only [State.step, h]

theorem step_set {count : UInt16} (h : s.phase addr = .incrementing count) :
    s.step (.set addr) = .ok { s with
      msgCountByPeer := s.msgCountByPeer.set addr count
      phase := Function.update s.phase addr .checking } := by
  simp only [State.step, h]

theorem step_check {calls : Nat} (h : s.phase addr = .checking)
    (hcounter : s.msgCountByPeer addr = some (UInt16.ofNat calls)) :
    s.step (.check addr) = .ok { s with
      phase := Function.update s.phase addr .idle
      verdicts := s.verdicts ++ [⟨addr, s.calls addr, decide (1000 ≤ calls % 2 ^ 16)⟩] } := by
  simp only [State.step, h, reachedMaxMsgLimit_of_counter hcounter]
  rfl

/-- `incrementMsgCount` that nothing interrupts. -/
theorem run_incrementMsgCount (h : s.phase addr = .idle) :
    ∃ s', s.run [.get addr, .set addr] = .ok s' ∧ s'.phase addr = .checking ∧
      s'.msgCountByPeer = incrementMsgCount s.msgCountByPeer addr := by
  let count := nextMsgCount (s.msgCountByPeer addr)
  let read : State := { s with
    phase := Function.update s.phase addr (.incrementing count)
    calls := Function.update s.calls addr (s.calls addr + 1) }
  let written : State := { read with
    msgCountByPeer := s.msgCountByPeer.set addr count
    phase := Function.update read.phase addr .checking }
  have hset : read.step (.set addr) = .ok written := step_set (Function.update_self ..)
  refine ⟨written, ?_, Function.update_self .., rfl⟩
  show (s.step (.get addr) >>= fun s => s.step (.set addr) >>= pure) = _
  rw [step_get h]
  exact congrArg (· >>= pure) hset

/-- Only the address of the event is touched. -/
theorem counted_update (h : Counts s) (addr : Str) {calls : Nat} {counter : Option UInt16}
    {phase : Phase} (hnew : Counted calls counter phase) (a : Str) :
    Counted (Function.update s.calls addr calls a)
      (Function.update s.msgCountByPeer addr counter a) (Function.update s.phase addr phase a) := by
  by_cases ha : a = addr
  · subst ha
    simpa only [Function.update_self] using hnew
  · simpa only [Function.update_of_ne ha] using h.counted a

/-- Each step succeeds, and if a `Clear` comes between calls the counters stay right. -/
theorem Counts.step (h : Counts s) (event : Event) :
    ∃ s', s.step event = .ok s' ∧ (BetweenCalls s event → Counts s') := by
  cases event with
  | get addr =>
    cases hphase : s.phase addr with
    | idle =>
      refine ⟨_, step_get hphase, fun _ => ⟨fun a => ?_, h.verdicts⟩⟩
      have haddr := h.counted addr
      rw [hphase] at haddr
      have hnew : Counted (s.calls addr + 1) (s.msgCountByPeer addr)
          (.incrementing (nextMsgCount (s.msgCountByPeer addr))) := by
        show (s.msgCountByPeer addr).getD 0 + 1 = UInt16.ofNat (s.calls addr + 1)
        rw [show (s.msgCountByPeer addr).getD 0 = _ from haddr, UInt16.ofNat_add]
        rfl
      simpa only [Function.update_eq_self] using counted_update h addr hnew a
    | incrementing count => exact ⟨s, by simp only [State.step, hphase], fun _ => h⟩
    | checking => exact ⟨s, by simp only [State.step, hphase], fun _ => h⟩
  | set addr =>
    cases hphase : s.phase addr with
    | incrementing count =>
      refine ⟨_, step_set hphase, fun _ => ⟨fun a => ?_, h.verdicts⟩⟩
      have haddr := h.counted addr
      rw [hphase] at haddr
      have hnew : Counted (s.calls addr) (some count) .checking := congrArg some haddr
      simpa only [CMap.set, Function.update_eq_self] using counted_update h addr hnew a
    | idle => exact ⟨s, by simp only [State.step, hphase], fun _ => h⟩
    | checking => exact ⟨s, by simp only [State.step, hphase], fun _ => h⟩
  | check addr =>
    cases hphase : s.phase addr with
    | checking =>
      have haddr := h.counted addr
      rw [hphase] at haddr
      refine ⟨_, step_check hphase haddr, fun _ => ⟨fun a => ?_, fun v hv => ?_⟩⟩
      · have hnew : Counted (s.calls addr) (s.msgCountByPeer addr) .idle := by
          rw [show s.msgCountByPeer addr = _ from haddr]
          rfl
        simpa only [Function.update_eq_self] using counted_update h addr hnew a
      · rcases List.mem_append.mp hv with hv | hv
        · exact h.verdicts v hv
        · obtain rfl := List.mem_singleton.mp hv
          exact decide_eq_true_iff
    | idle => exact ⟨s, by simp only [State.step, hphase], fun _ => h⟩
    | incrementing count => exact ⟨s, by simp only [State.step, hphase], fun _ => h⟩
  | clear =>
    refine ⟨_, rfl, fun hidle => ⟨fun a => ?_, h.verdicts⟩⟩
    show Counted 0 none (s.phase a)
    rw [hidle a]
    rfl

/-! ### A `Clear` inside a call -/

/-- A `Clear` between `incrementMsgCount` and `reachedMaxMsgLimit` leaves no counter to find. -/
theorem check_panics_after_clear (h : s.phase addr = .checking) :
    s.run [.clear, .check addr] = .error .typeAssertion := by
  show ({ s with msgCountByPeer := .empty, calls := fun _ => 0 } : State).step (.check addr) >>=
    pure = _
  simp only [State.step, h]
  rfl

/-- A `Clear` inside `incrementMsgCount` is undone by the write: the check sees the calls from
before, and none of them is since the `Clear`. -/
theorem check_stale_after_clear {calls : Nat}
    (h : s.phase addr = .incrementing (UInt16.ofNat calls)) :
    ∃ s', s.run [.clear, .set addr, .check addr] = .ok s' ∧
      s'.verdicts = s.verdicts ++ [⟨addr, 0, decide (1000 ≤ calls % 2 ^ 16)⟩] := by
  let cleared : State := { s with msgCountByPeer := .empty, calls := fun _ => 0 }
  let written : State := { cleared with
    msgCountByPeer := cleared.msgCountByPeer.set addr (UInt16.ofNat calls)
    phase := Function.update cleared.phase addr .checking }
  have hset : cleared.step (.set addr) = .ok written := step_set h
  let checked : State := { written with
    phase := Function.update written.phase addr .idle
    verdicts := s.verdicts ++ [⟨addr, 0, decide (1000 ≤ calls % 2 ^ 16)⟩] }
  have hcheck : written.step (.check addr) = .ok checked :=
    step_check (Function.update_self ..) (Function.update_self ..)
  refine ⟨checked, ?_, rfl⟩
  show (cleared.step (.set addr) >>= fun s => s.step (.check addr) >>= pure) = _
  rw [hset]
  show (written.step (.check addr) >>= pure) = _
  rw [hcheck]
  rfl

end

/-! ### Runs -/

/-- In every run in which each `Clear` comes between calls, no check panics, and the verdicts are
all right exactly if no number of calls of 1000 or more is below 1000 modulo `2 ^ 16`. -/
theorem limiter_exact_iff (events : List Event)
    (hclear : Along State.step BetweenCalls .fresh events) :
    ∃ s, State.fresh.run events = .ok s ∧
      ((∀ v ∈ s.verdicts, Exact v) ↔
        ∀ v ∈ s.verdicts, v.calls < 1000 ∨ 1000 ≤ v.calls % 2 ^ 16) := by
  obtain ⟨s, hrun, hcounts⟩ := along_succeeds (fun _ event h => h.step event) counts_fresh hclear
  refine ⟨s, hrun, forall₂_congr fun v hv => ?_⟩
  rw [Exact, hcounts.verdicts v hv]
  constructor
  · intro hexact
    rcases Nat.lt_or_ge v.calls 1000 with hlt | hge
    · exact Or.inl hlt
    · exact Or.inr (hexact.mpr hge)
  · intro hor
    constructor
    · exact fun hmod => Nat.le_trans hmod (Nat.mod_le _ _)
    · exact fun hge => hor.resolve_left (Nat.not_lt.mpr hge)

/-- Two messages of one peer with a `Clear` between them. -/
theorem limiter_exact_twice :
    ∃ s, State.fresh.run [.get [1], .set [1], .check [1], .clear, .get [1], .set [1], .check [1]] =
      .ok s ∧ ((∀ v ∈ s.verdicts, Exact v) ↔
        ∀ v ∈ s.verdicts, v.calls < 1000 ∨ 1000 ≤ v.calls % 2 ^ 16) := by
  refine limiter_exact_iff _ ?_
  iterate 3 refine (along_cons_iff rfl).mpr ⟨trivial, ?_⟩
  refine (along_cons_iff rfl).mpr ⟨fun addr => ?_, ?_⟩
  · simp only [Function.update_idem]
    exact congrFun (Function.update_eq_self [1] State.fresh.phase) addr
  iterate 3 refine (along_cons_iff rfl).mpr ⟨trivial, ?_⟩
  exact trivial

/-- The `Clear` comes after the first message is counted and before it is checked. -/
theorem limiter_panics :
    State.fresh.run [.get [1], .set [1], .clear, .check [1]] = .error .typeAssertion := by
  rfl

end BtmStats.Proofs.Pex
