import BtmStats.Proofs.Pex.Methods

/-!
# `BtmStats.Proofs.Pex.BucketShare`: the buckets that one group can reach

The index of a bucket comes from two hashes. The first one covers what a peer can choose, and
is reduced to a slot number below `newBucketsPerGroup` or `oldBucketsPerGroup`. The second one
covers only the key of the book, a group and the slot (`slotBucket`). So one group reaches at
most as many buckets as there are slots, whatever the hash function is
(`group_reaches_few_buckets`).
-/

set_option autoImplicit false

namespace BtmStats.Proofs.Pex

open Lib Spec Spec.Pex

section
variable (env : Env) (a : AddrBook)

/-- The bucket that the second hash gives to a slot of a group. -/
def slotBucket (group : Str) (count slot : Nat) : Nat :=
  ofBytesBE ((env.doubleSha256 (a.key ++ group ++ toBytesBE 8 slot)).1.take 8) % count

/-- The buckets of the slots of a group. -/
def slotBuckets (group : Str) (count perGroup : Nat) : Set Nat :=
  slotBucket env a group count '' Set.Iio perGroup

/-- The new buckets that a source can have addresses filed in. -/
def newBucketsOf (src : NetAddress) : Set Nat :=
  Set.range fun addr => a.calcNewBucket env addr src

/-- The old buckets that the addresses of a group are filed in. -/
def oldBucketsOf (group : Str) : Set Nat :=
  a.calcOldBucket env '' {addr | env.groupKey a.routabilityStrict addr = group}

theorem encard_slotBuckets_le (group : Str) (count perGroup : Nat) :
    (slotBuckets env a group count perGroup).encard ≤ perGroup := by
  calc (slotBuckets env a group count perGroup).encard
      ≤ (Set.Iio perGroup).encard := Set.encard_image_le _ _
    _ = perGroup := by
        rw [← Finset.coe_range, Set.encard_coe_eq_coe_finsetCard, Finset.card_range]

theorem calcBucket_mem (hash1 : FixedBytes 32) {perGroup : Nat} (hpos : 0 < perGroup) (group : Str)
    (count : Nat) :
    a.calcBucket env hash1 perGroup group count ∈ slotBuckets env a group count perGroup :=
  ⟨ofBytesBE (hash1.1.take 8) % perGroup, Nat.mod_lt _ hpos, rfl⟩

theorem newBucketsOf_subset (src : NetAddress) :
    newBucketsOf env a src ⊆ slotBuckets env a (env.groupKey a.routabilityStrict src)
      newBucketCount newBucketsPerGroup := by
  rintro _ ⟨addr, rfl⟩
  exact calcBucket_mem env a _ (by decide) _ _

theorem oldBucketsOf_subset (group : Str) :
    oldBucketsOf env a group ⊆ slotBuckets env a group oldBucketCount oldBucketsPerGroup := by
  rintro _ ⟨addr, rfl, rfl⟩
  exact calcBucket_mem env a _ (by decide) _ _

/-- The source comes in only by its group. -/
theorem calcNewBucket_congr {src src' : NetAddress}
    (h : env.groupKey a.routabilityStrict src = env.groupKey a.routabilityStrict src')
    (addr : NetAddress) : a.calcNewBucket env addr src = a.calcNewBucket env addr src' := by
  simp only [AddrBook.calcNewBucket, h]

end

/-- For every key, every hash function and every book that calls lead to: one source reaches at
most 32 new buckets, and which ones depends only on its group; the addresses of one group reach
at most 4 old buckets; and every index has a bucket. -/
theorem group_reaches_few_buckets (env : Env) (routabilityStrict : Bool) (key : Str)
    (ops : List AddrBook.Op) :
    ∃ a, (newAddrBook routabilityStrict key).run env ops = .ok a ∧
      (∀ src, (newBucketsOf env a src).encard ≤ newBucketsPerGroup) ∧
      (∀ src src',
        env.groupKey a.routabilityStrict src = env.groupKey a.routabilityStrict src' →
        newBucketsOf env a src = newBucketsOf env a src' ∧
        ∀ addr, a.calcNewBucket env addr src = a.calcNewBucket env addr src') ∧
      (∀ group, (oldBucketsOf env a group).encard ≤ oldBucketsPerGroup) ∧
      (∀ addr src, ∃ bucket, a.bucketsNew[a.calcNewBucket env addr src]? = some bucket) ∧
      (∀ addr, ∃ bucket, a.bucketsOld[a.calcOldBucket env addr]? = some bucket) := by
  obtain ⟨a, hrun, h⟩ := run_spec (repInv_new env routabilityStrict key) ops
  refine ⟨a, hrun, fun src => ?_, fun src src' hgroup => ?_, fun group => ?_, fun addr src => ?_,
    fun addr => ?_⟩
  · exact (Set.encard_le_encard (newBucketsOf_subset env a src)).trans
      (encard_slotBuckets_le env a _ _ _)
  · have hsame := calcNewBucket_congr env a hgroup
    refine ⟨?_, hsame⟩
    rw [newBucketsOf, newBucketsOf, funext hsame]
  · exact (Set.encard_le_encard (oldBucketsOf_subset env a group)).trans
      (encard_slotBuckets_le env a _ _ _)
  · exact h.getBucket (t := .new) (calcNewBucket_lt env a addr src)
  · exact h.getBucket (t := .old) (calcOldBucket_lt env a addr)

end BtmStats.Proofs.Pex
