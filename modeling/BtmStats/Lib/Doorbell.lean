import Mathlib.Logic.Basic

/-!
# `BtmStats.Lib.Doorbell`: a consumer that sleeps until a one-slot bell rings

Producers fill cells and then ring a bell that remembers one ring. The consumer takes
the ring, looks at the cells one after the other, serves the first that it finds
filled, and goes back to sleep when it has passed all of them. Any number of producers
may stand between their two steps.

The consumer does not look at all cells at once, so a cell that it has passed may be
filled while it looks at the next. `Awake` is why this is harmless: such a producer has
still to ring, or its ring is remembered.
-/

set_option autoImplicit false

namespace BtmStats.Lib.Doorbell

/-- Where the consumer is: asleep, about to look at a cell with all cells before it
passed, busy with a cell that it found filled, or gone for good. -/
inductive Phase where
  | asleep
  | looking (k : Nat)
  | busy
  | gone

/-- The cells that hold nothing, whether a ring is remembered, how many producers have
filled a cell and not rung yet, and the consumer. -/
structure State where
  empty : Nat → Prop
  bell : Bool
  ringing : Nat
  phase : Phase

/-- The steps over `n` cells. Where the cells may change in any way, `e` is what is
empty afterwards. -/
inductive Step (n : Nat) : State → State → Prop where
  | fill (s : State) (e : Nat → Prop) :
      Step n s { s with empty := e, ringing := s.ringing + 1 }
  | ring (s : State) (r : Nat) : Step n s { s with bell := true, ringing := r }
  | wake (s : State) :
      Step n { s with phase := .asleep } { s with bell := false, phase := .looking 0 }
  | pass (s : State) (k : Nat) (hk : s.empty k) :
      Step n { s with phase := .looking k } { s with phase := .looking (k + 1) }
  | serve (s : State) (e : Nat → Prop) : Step n s { s with empty := e, phase := .busy }
  | again (s : State) (e : Nat → Prop) :
      Step n { s with phase := .busy } { s with empty := e, phase := .looking 0 }
  | sleep (s : State) (k : Nat) (hk : n ≤ k) :
      Step n { s with phase := .looking k } { s with phase := .asleep }
  -- The consumer stops early, and rings for itself.
  | rest (s : State) : Step n s { s with bell := true, phase := .asleep }
  | quit (s t : State) : Step n s { t with phase := .gone }

/-- Somebody will see to it that the cells are looked at again. -/
def State.Awake (s : State) : Prop := s.bell = true ∨ 0 < s.ringing

/-- The cells that the consumer has passed are empty, or it will look again. -/
def State.Sound (n : Nat) (s : State) : Prop :=
  match s.phase with
  | .asleep => s.Awake ∨ ∀ i < n, s.empty i
  | .looking k => s.Awake ∨ ∀ i < k, s.empty i
  | .busy | .gone => True

variable {n : Nat} {s t : State}

theorem State.Sound.of_awake (h : s.Awake) : s.Sound n := by
  unfold State.Sound
  cases s.phase with
  | asleep => exact .inl h
  | looking k => exact .inl h
  | busy => trivial
  | gone => trivial

/-- A step keeps the doorbell sound. -/
theorem Step.sound (hstep : Step n s t) (h : s.Sound n) : t.Sound n := by
  cases hstep with
  | fill e => exact .of_awake (.inr (Nat.succ_pos _))
  | ring r => exact .of_awake (.inl rfl)
  | wake s => exact .inr fun i hi => absurd hi (Nat.not_lt_zero i)
  | pass s k hk =>
    refine h.imp_right fun hbefore i hi => ?_
    rcases Nat.lt_succ_iff_lt_or_eq.mp hi with hi | rfl
    · exact hbefore i hi
    · exact hk
  | serve e => trivial
  | again s e => exact .inr fun i hi => absurd hi (Nat.not_lt_zero i)
  | sleep s k hk => exact h.imp_right fun hbefore i hi => hbefore i (Nat.lt_of_lt_of_le hi hk)
  | rest => exact .of_awake (.inl rfl)
  | quit t => trivial

/-- No wake-up is lost: with the consumer asleep and no producer between its steps, a
ring is remembered or all cells are empty. -/
theorem State.Sound.bell_or_empty (h : s.Sound n) (hphase : s.phase = .asleep)
    (hringing : s.ringing = 0) : s.bell = true ∨ ∀ i < n, s.empty i := by
  rw [State.Sound, hphase] at h
  rcases h with (hbell | hpos) | hempty
  · exact .inl hbell
  · rw [hringing] at hpos
    exact absurd hpos (Nat.lt_irrefl 0)
  · exact .inr hempty

end BtmStats.Lib.Doorbell
