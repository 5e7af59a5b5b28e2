import Mathlib.Algebra.BigOperators.Intervals
import Mathlib.Algebra.Order.BigOperators.Group.Finset

/-!
# `BtmStats.Lib.Halving`: sums of halved amounts

An amount is paid once in every round and is halved after every `I` rounds, rounded down.
Without rounding the sum over all rounds is `2 * b * I`. Rounding makes it smaller, however
many rounds there are (`sum_halving_lt`).
-/

set_option autoImplicit false

namespace BtmStats.Lib

/-- The sum of an amount that is halved to 0. -/
theorem sum_halving_zero (I N : Nat) : ∑ h ∈ Finset.range N, 0 / 2 ^ (h / I) = 0 :=
  Finset.sum_eq_zero fun _ _ => Nat.zero_div _

/-- After the first `I` rounds the sum goes on with half of the amount. -/
theorem sum_halving_add (b : Nat) {I : Nat} (hI : 0 < I) (M : Nat) :
    ∑ h ∈ Finset.range (I + M), b / 2 ^ (h / I) =
      I * b + ∑ h ∈ Finset.range M, (b / 2) / 2 ^ (h / I) := by
  rw [Finset.sum_range_add]
  congr 1
  · have hconst : ∀ h ∈ Finset.range I, b / 2 ^ (h / I) = b := by
      intro h hh
      rw [Nat.div_eq_of_lt (Finset.mem_range.mp hh), Nat.pow_zero, Nat.div_one]
    rw [Finset.sum_const_nat hconst, Finset.card_range]
  · refine Finset.sum_congr rfl fun h _ => ?_
    rw [Nat.add_div_left h hI, Nat.pow_succ', Nat.div_div_eq_div_mul]

/-- Strong induction on the amount: the first `I` rounds pay `I * b`, and what follows pays
less than that. -/
theorem sum_halving_lt {I : Nat} (hI : 0 < I) (b : Nat) :
    ∀ N, 0 < b → ∑ h ∈ Finset.range N, b / 2 ^ (h / I) < 2 * b * I := by
  induction b using Nat.strong_induction_on with
  | _ b ih =>
    intro N hb
    have hpos : 0 < I * b := Nat.mul_pos hI hb
    have htwice : 2 * b * I = I * b + I * b := by
      rw [Nat.mul_assoc, Nat.mul_comm b I, Nat.two_mul]
    rw [htwice]
    by_cases hN : N ≤ I
    · -- Every round pays at most `b`.
      calc ∑ h ∈ Finset.range N, b / 2 ^ (h / I) ≤ ∑ _h ∈ Finset.range N, b :=
            Finset.sum_le_sum fun _ _ => Nat.div_le_self _ _
        _ = N * b := by rw [Finset.sum_const_nat fun _ _ => rfl, Finset.card_range]
        _ ≤ I * b := Nat.mul_le_mul_right b hN
        _ < I * b + I * b := Nat.lt_add_of_pos_right hpos
    · obtain ⟨M, rfl⟩ := Nat.exists_eq_add_of_le (Nat.le_of_not_le hN)
      rw [sum_halving_add b hI M]
      refine Nat.add_lt_add_left ?_ _
      by_cases hhalf : b / 2 = 0
      · rw [hhalf, sum_halving_zero]
        exact hpos
      · have hrest := ih (b / 2) (Nat.div_lt_self hb (by decide)) M (Nat.pos_of_ne_zero hhalf)
        calc _ < 2 * (b / 2) * I := hrest
          _ ≤ b * I := Nat.mul_le_mul_right I (Nat.mul_div_le b 2)
          _ = I * b := Nat.mul_comm b I

end BtmStats.Lib
