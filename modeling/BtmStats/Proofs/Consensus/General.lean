import BtmStats.Lib.Halving
import BtmStats.Spec.Config.Genesis

/-!
# `BtmStats.Proofs.Consensus.General`: the supply is capped

As numbers, the reward at a height above 0 is the base reward halved once for every 840000
blocks (`toNat_blockSubsidy`). The height 0 belongs to the first 840000 blocks and has a
reward of its own. So the sum up to any height is the difference of the two rewards at
height 0 and a sum of halved amounts (`Lib.Halving`), and the cap is what that sum would be
without rounding.
-/

set_option autoImplicit false

namespace BtmStats.Proofs.Consensus

open Lib Spec.Consensus

/-- A shift divides by a power of two, also when nothing is left. -/
theorem toNat_shiftRight (x s : UInt64) : (shiftRight x s).toNat = x.toNat / 2 ^ s.toNat := by
  rw [shiftRight]
  by_cases hs : s < 64
  · have hs' : s.toNat < 64 := UInt64.lt_iff_toNat_lt.mp hs
    rw [if_pos hs, UInt64.toNat_shiftRight, Nat.mod_eq_of_lt hs', Nat.shiftRight_eq_div_pow]
  · have hs' : 64 ≤ s.toNat := Nat.not_lt.mp (UInt64.lt_iff_toNat_lt.not.mp hs)
    rw [if_neg hs, Nat.div_eq_of_lt (x.toNat_lt.trans_le (Nat.pow_le_pow_right (by decide) hs'))]
    rfl

theorem toNat_blockSubsidy {height : UInt64} (h : height ≠ 0) :
    (blockSubsidy height).toNat = 41250000000 / 2 ^ (height.toNat / 840000) := by
  rw [blockSubsidy, if_neg h, toNat_shiftRight, UInt64.toNat_div]
  rfl

/-- The rewards of the heights from 0 up to `n`. -/
def supply (n : Nat) : Nat := ∑ h ∈ Finset.range (n + 1), (blockSubsidy (UInt64.ofNat h)).toNat

/-- The same sum in `uint64`. -/
def accumulated : Nat → UInt64
  | 0 => blockSubsidy 0
  | n + 1 => accumulated n + blockSubsidy (UInt64.ofNat (n + 1))

theorem toNat_blockSubsidy_ofNat {h : Nat} (hpos : 0 < h) (hlt : h < 2 ^ 64) :
    (blockSubsidy (UInt64.ofNat h)).toNat = 41250000000 / 2 ^ (h / 840000) := by
  have hnat : (UInt64.ofNat h).toNat = h := by
    rw [UInt64.toNat_ofNat', Nat.mod_eq_of_lt hlt]
  have hne : UInt64.ofNat h ≠ 0 := by
    intro h0
    rw [h0] at hnat
    exact absurd hnat (Nat.ne_of_lt hpos)
  rw [toNat_blockSubsidy hne, hnat]

/-- The supply is a sum of halved amounts, and what the first block has in addition. -/
theorem supply_eq {n : Nat} (hn : n < 2 ^ 64) :
    supply n = 140700000000000000 +
      ∑ h ∈ Finset.range (n + 1), 41250000000 / 2 ^ (h / 840000) := by
  have hrest : ∀ h ∈ Finset.range n, (blockSubsidy (UInt64.ofNat (h + 1))).toNat =
      41250000000 / 2 ^ ((h + 1) / 840000) := by
    intro h hh
    have hlt := Finset.mem_range.mp hh
    exact toNat_blockSubsidy_ofNat (Nat.succ_pos h) (by omega)
  have hfirst : (blockSubsidy (UInt64.ofNat 0)).toNat =
      140700000000000000 + 41250000000 / 2 ^ (0 / 840000) := by decide
  rw [supply, Finset.sum_range_succ', Finset.sum_range_succ', Finset.sum_congr rfl hrest, hfirst]
  omega

theorem supply_lt {n : Nat} (hn : n < 2 ^ 64) : supply n < 210000000000000000 := by
  have hlt := sum_halving_lt (show 0 < 840000 by decide) 41250000000 (n + 1) (by decide)
  rw [supply_eq hn]
  omega

/-- The sum in `uint64` never wraps. Induction on the height. -/
theorem toNat_accumulated {n : Nat} (hn : n < 2 ^ 64) : (accumulated n).toNat = supply n := by
  induction n with
  | zero => decide
  | succ n ih =>
    have hlt := supply_lt hn
    have hstep : supply (n + 1) = supply n + (blockSubsidy (UInt64.ofNat (n + 1))).toNat :=
      Finset.sum_range_succ _ _
    rw [accumulated, UInt64.toNat_add, ih (by omega), ← hstep, Nat.mod_eq_of_lt]
    exact hlt.trans (by decide)

/-- The supply is capped, and the rewards above height 0 only fall, down to 0. -/
theorem blockSubsidy_capped :
    (∀ n : UInt64, supply n.toNat < 210000000000000000 ∧ supply n.toNat < 2 ^ 63 ∧
      (accumulated n.toNat).toNat = supply n.toNat) ∧
    (∀ h h' : UInt64, 1 ≤ h → h ≤ h' → blockSubsidy h' ≤ blockSubsidy h) ∧
    ∃ last : UInt64, ∀ h : UInt64, last ≤ h → blockSubsidy h = 0 := by
  refine ⟨fun n => ?_, ?_, 30240000, ?_⟩
  · have hlt := supply_lt n.toNat_lt
    exact ⟨hlt, hlt.trans (by decide), toNat_accumulated n.toNat_lt⟩
  · intro h h' hpos hle
    have hle' : h.toNat ≤ h'.toNat := UInt64.le_iff_toNat_le.mp hle
    have hne : ∀ {x : UInt64}, 1 ≤ x.toNat → x ≠ 0 := by
      rintro x hx rfl
      exact absurd hx (by decide)
    have hpos' : 1 ≤ h.toNat := UInt64.le_iff_toNat_le.mp hpos
    rw [UInt64.le_iff_toNat_le, toNat_blockSubsidy (hne hpos'),
      toNat_blockSubsidy (hne (hpos'.trans hle'))]
    exact Nat.div_le_div_left (Nat.pow_le_pow_right (by decide) (Nat.div_le_div_right hle'))
      (Nat.pow_pos (by decide))
  · intro h hlast
    have hlast' : 30240000 ≤ h.toNat := UInt64.le_iff_toNat_le.mp hlast
    have hne : h ≠ 0 := by
      rintro rfl
      exact absurd hlast' (by decide)
    -- The base reward is below 2 ^ 36, and the heights from here on shift by 36 at least.
    have hpow : 2 ^ 36 ≤ 2 ^ (h.toNat / 840000) :=
      Nat.pow_le_pow_right (by decide) ((Nat.le_div_iff_mul_le (by decide)).mpr hlast')
    apply UInt64.toNat_inj.mp
    rw [toNat_blockSubsidy hne, Nat.div_eq_of_lt (Nat.lt_of_lt_of_le (by decide) hpow)]
    rfl

end BtmStats.Proofs.Consensus
