import BtmStats.Spec.Netsync.BestPeer
import Mathlib.Data.List.Induction

/-!
# `BtmStats.Proofs.Netsync.BestPeer`: the highest peer, and what is made of it

`BestPeer` returns the largest height of a peer whatever the order of the loop, and 0 without
peers (`bestPeer_isBest`). `IsCaughtUp` compares it with the height of the chain the other
way round: it is true exactly when some peer is higher (`isCaughtUp_eq_true_iff`). So it says
the opposite of its name for every set of peers and every height.
-/

set_option autoImplicit false

namespace BtmStats.Proofs.Netsync

open Spec Spec.Netsync

variable {ν : Type}

/-- `best` is what the loop makes of the peers `seen`. -/
structure IsBest (seen : List ((_ : Str) × RegisteredPeer ν)) (best : Option ν × UInt64) :
    Prop where
  isNone_iff : best.1.isNone ↔ seen = []
  le : ∀ item ∈ seen, item.2.height ≤ best.2
  reached : best.2 = 0 ∨ ∃ item ∈ seen, item.2.height = best.2

/-- The best peer so far, after one more. -/
theorem IsBest.step {seen : List ((_ : Str) × RegisteredPeer ν)} {best : Option ν × UInt64}
    (h : IsBest seen best) (item : (_ : Str) × RegisteredPeer ν) :
    IsBest (seen ++ [item]) (betterPeer best item.2) := by
  rw [betterPeer]
  by_cases hbetter : best.1.isNone ∨ item.2.height > best.2
  · rw [if_pos hbetter]
    refine ⟨by simp, fun x hx => ?_, .inr ⟨item, by simp, rfl⟩⟩
    rcases List.mem_append.mp hx with hx | hx
    · rcases hbetter with hnone | hgt
      · -- Nothing was seen before.
        rw [h.isNone_iff.mp hnone] at hx
        exact absurd hx List.not_mem_nil
      · exact UInt64.le_trans (h.le x hx) (UInt64.le_of_lt hgt)
    · exact List.mem_singleton.mp hx ▸ UInt64.le_refl _
  · rw [if_neg hbetter]
    obtain ⟨hsome, hle⟩ := not_or.mp hbetter
    refine ⟨by simp [hsome], fun x hx => ?_, ?_⟩
    · rcases List.mem_append.mp hx with hx | hx
      · exact h.le x hx
      · exact List.mem_singleton.mp hx ▸ UInt64.not_lt.mp hle
    · rcases h.reached with hzero | ⟨x, hx, heq⟩
      · exact .inl hzero
      · exact .inr ⟨x, List.mem_append_left _ hx, heq⟩

/-- Induction from the end of the loop. -/
theorem isBest_foldl (items : List ((_ : Str) × RegisteredPeer ν)) :
    IsBest items (items.foldl (fun best item => betterPeer best item.2) (none, 0)) := by
  induction items using List.reverseRecOn with
  | nil => exact ⟨by simp, fun x hx => absurd hx List.not_mem_nil, .inl rfl⟩
  | append_singleton items item ih =>
    rw [List.foldl_append]
    exact ih.step item

variable (order : IterOrder ((_ : Str) × RegisteredPeer ν)) (peers : RegisteredPeers ν)

/-- The order of the loop does not matter for the height. -/
theorem bestPeer_isBest : IsBest peers.entries (bestPeer order peers) := by
  have hperm := order.perm peers.entries
  have h := isBest_foldl (order.apply peers.entries)
  refine ⟨?_, fun item hitem => h.le item (hperm.mem_iff.mpr hitem), ?_⟩
  · rw [bestPeer, h.isNone_iff, ← List.length_eq_zero_iff, ← List.length_eq_zero_iff,
      hperm.length_eq]
  · rcases h.reached with hzero | ⟨item, hitem, heq⟩
    · exact .inl hzero
    · exact .inr ⟨item, hperm.mem_iff.mp hitem, heq⟩

theorem isCaughtUp_eq_true_iff (bestBlockHeight : UInt64) :
    isCaughtUp order peers bestBlockHeight = true ↔
      ∃ item ∈ peers.entries, bestBlockHeight < item.2.height := by
  have h := bestPeer_isBest order peers
  rw [isCaughtUp, decide_eq_true_iff]
  constructor
  · intro hlt
    rcases h.reached with hzero | ⟨item, hitem, heq⟩
    · rw [hzero] at hlt
      exact absurd hlt UInt64.not_lt_zero
    · exact ⟨item, hitem, heq ▸ hlt⟩
  · rintro ⟨item, hitem, hlt⟩
    exact UInt64.lt_of_lt_of_le hlt (h.le item hitem)

/-- `IsCaughtUp` never says what its name says. -/
theorem isCaughtUp_never_true_to_name (bestBlockHeight : UInt64) :
    ¬ (isCaughtUp order peers bestBlockHeight = true ↔
      ¬ ∃ item ∈ peers.entries, bestBlockHeight < item.2.height) := by
  rw [isCaughtUp_eq_true_iff]
  exact fun h => iff_not_self h

/-- Without peers nobody is ahead, and the answer is still no. -/
theorem isCaughtUp_without_peers :
    ¬ (isCaughtUp ⟨id, List.Perm.refl⟩ (∅ : RegisteredPeers Unit) 0 = true ↔
      ¬ ∃ item ∈ (∅ : RegisteredPeers Unit).entries, (0 : UInt64) < item.2.height) := by
  intro h
  refine absurd (h.mpr ?_) (by decide)
  rintro ⟨item, hitem, -⟩
  exact absurd hitem List.not_mem_nil

end BtmStats.Proofs.Netsync
