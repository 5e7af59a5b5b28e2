import BtmStats.Proofs.Pex.Entries
import BtmStats.Proofs.Pex.MarkGood

/-!
# `BtmStats.Proofs.Pex.Capacity`: how many addresses a bucket holds

`addToNewBucket` evicts an address only from a bucket with more than `newBucketSize` addresses,
and `addToOldBucket` refuses one only when the bucket has more than `oldBucketSize`. So a bucket
with exactly 64 addresses takes one more, and this is the only way to more than 64
(`capacity_kept_iff`). A bucket never gets beyond 65 (`buckets_at_most_one_over`).

On the contents of the book a call changes the known address of one string. A bucket grows by
one if the string is filed in it newly, and does not grow otherwise (`bucketSize_set_le`,
`bucketSize_set_succ`).
-/

set_option autoImplicit false

namespace BtmStats.Proofs.Pex

open Lib Spec Spec.Pex

/-- `newBucketSize` and `oldBucketSize`. -/
def bucketCapacity : BucketType → Nat
  | .new => newBucketSize
  | .old => oldBucketSize

namespace Contents

/-! ### The size of a bucket after a change -/

/-- The known address is filed in bucket `i` of a type. -/
def Lists (v : Option KnownAddress) (t : BucketType) (i : Nat) : Prop :=
  ∃ ka, v = some ka ∧ ka.bucketType = t ∧ i ∈ ka.buckets

theorem lists_some {ka : KnownAddress} {t : BucketType} {i : Nat} :
    Lists (some ka) t i ↔ ka.bucketType = t ∧ i ∈ ka.buckets := by
  simp [Lists]

section
variable {c : Contents} {s : Str} {v : Option KnownAddress} {t t₀ : BucketType} {i i₀ n : Nat}

theorem mem_inBucket_set {s' : Str} : s' ∈ (c.set s v).inBucket t i ↔
    (s' = s ∧ Lists v t i) ∨ (s' ≠ s ∧ s' ∈ c.inBucket t i) := by
  show Lists ((c.set s v).known s') t i ↔ _
  by_cases hs : s' = s
  · subst hs
    simp [known_set_self]
  · rw [known_set_of_ne c hs]
    simp only [hs, false_and, false_or, ne_eq, not_false_eq_true, true_and]
    rfl

/-- A string that is not filed newly does not make the bucket grow. -/
theorem bucketSize_set_le (hfin : (c.inBucket t i).Finite)
    (hv : Lists v t i → s ∈ c.inBucket t i) :
    (c.set s v).bucketSize t i ≤ c.bucketSize t i := by
  refine Set.ncard_le_ncard (fun s' hs' => ?_) hfin
  rcases mem_inBucket_set.mp hs' with ⟨rfl, hlists⟩ | ⟨-, hmem⟩
  · exact hv hlists
  · exact hmem

/-- A string that is filed newly makes the bucket grow by one. -/
theorem bucketSize_set_succ (hfin : (c.inBucket t i).Finite) (hv : Lists v t i)
    (hs : s ∉ c.inBucket t i) : (c.set s v).bucketSize t i = c.bucketSize t i + 1 := by
  have hset : (c.set s v).inBucket t i = insert s (c.inBucket t i) := by
    ext s'
    rw [mem_inBucket_set, Set.mem_insert_iff]
    constructor
    · rintro (⟨rfl, -⟩ | ⟨-, hmem⟩)
      · exact .inl rfl
      · exact .inr hmem
    · rintro (rfl | hmem)
      · exact .inl ⟨rfl, hv⟩
      · refine .inr ⟨?_, hmem⟩
        rintro rfl
        exact hs hmem
  rw [bucketSize, hset, Set.ncard_insert_of_notMem hs hfin, bucketSize]

/-- A string that leaves the bucket makes room for one. -/
theorem bucketSize_set_lt (hfin : (c.inBucket t i).Finite) (hv : ¬ Lists v t i)
    (hs : s ∈ c.inBucket t i) : (c.set s v).bucketSize t i < c.bucketSize t i := by
  refine Set.ncard_lt_ncard ⟨fun s' hs' => ?_, fun hsub => ?_⟩ hfin
  · rcases mem_inBucket_set.mp hs' with ⟨-, hlists⟩ | ⟨-, hmem⟩
    · exact absurd hlists hv
    · exact hmem
  · rcases mem_inBucket_set.mp (hsub hs) with ⟨-, hlists⟩ | ⟨hne, -⟩
    · exact hv hlists
    · exact hne rfl

/-- Every bucket has at most `extra` addresses more than it should. -/
def Within (extra : Nat) (c : Contents) : Prop :=
  ∀ t i, c.bucketSize t i ≤ bucketCapacity t + extra

/-- The value of a string has one bucket more than before, and no other. -/
structure AddsRef (c : Contents) (s : Str) (v : Option KnownAddress) (t₀ : BucketType) (i₀ : Nat) :
    Prop where
  added : Lists v t₀ i₀
  fresh : s ∉ c.inBucket t₀ i₀
  rest : ∀ t i, Lists v t i → (t = t₀ ∧ i = i₀) ∨ s ∈ c.inBucket t i

/-- No bucket grows. -/
theorem within_set (hfin : ∀ t i, (c.inBucket t i).Finite) (h : c.Within n)
    (hv : ∀ t i, Lists v t i → s ∈ c.inBucket t i) : (c.set s v).Within n :=
  fun t i => (bucketSize_set_le (hfin t i) (hv t i)).trans (h t i)

/-- One bucket grows, so it must have room. -/
theorem AddsRef.within_iff (hadd : AddsRef c s v t₀ i₀) (hfin : ∀ t i, (c.inBucket t i).Finite)
    (h : c.Within n) : (c.set s v).Within n ↔ c.bucketSize t₀ i₀ < bucketCapacity t₀ + n := by
  have hgrows := bucketSize_set_succ (hfin t₀ i₀) hadd.added hadd.fresh
  constructor
  · intro hwithin
    have hle := hwithin t₀ i₀
    omega
  · intro hlt t i
    by_cases hti : t = t₀ ∧ i = i₀
    · obtain ⟨rfl, rfl⟩ := hti
      omega
    · refine (bucketSize_set_le (hfin t i) fun hlists => ?_).trans (h t i)
      exact (hadd.rest t i hlists).resolve_left hti

end

/-! ### The victim of an eviction -/

section
variable {c : Contents} {chance : Chance} {s : Str}

theorem firstBad_mem {clock : Nat → Nat → Int} {ss : List Str} {k : Nat}
    (h : c.firstBad clock ss k = some s) : s ∈ ss := by
  induction ss generalizing k with
  | nil => cases h
  | cons s' ss ih =>
    rw [firstBad] at h
    split at h
    · cases h
      exact List.mem_cons_self
    · exact .tail _ (ih h)

theorem oldest_mem (c : Contents) (ss : List Str) (best : Str) :
    ∃ s ∈ best :: ss, c.oldest ss (some best) = some s := by
  induction ss generalizing best with
  | nil => exact ⟨best, List.mem_cons_self, rfl⟩
  | cons s' ss ih =>
    obtain ⟨s, hmem, hs⟩ := ih (if c.lastAttempt s' < c.lastAttempt best then s' else best)
    refine ⟨s, ?_, hs⟩
    rcases List.mem_cons.mp hmem with rfl | hmem
    · split
      · exact .tail _ List.mem_cons_self
      · exact List.mem_cons_self
    · exact .tail _ (.tail _ hmem)

/-- Some string of the bucket is chosen. -/
theorem exists_victim {strings : Set Str} (hbad : ∀ s ∈ chance.badOrder, s ∈ strings)
    (hold : ∀ s ∈ chance.oldestOrder, s ∈ strings) (hne : chance.oldestOrder ≠ []) :
    ∃ s ∈ strings, c.victim chance = some s := by
  rw [victim]
  split
  · next s hs => exact ⟨s, hbad s (firstBad_mem hs), rfl⟩
  · cases horder : chance.oldestOrder with
    | nil => exact absurd horder hne
    | cons best ss =>
      obtain ⟨s, hmem, hs⟩ := c.oldest_mem ss best
      exact ⟨s, hold s (by rw [horder]; exact hmem), hs⟩

end

/-! ### The calls -/

section
variable {env : Env} {c : Contents} {chance : Chance} {addr src : NetAddress} {ka : KnownAddress}
  {i n : Nat}

/-- What `addAddress` files is unknown and in no bucket, or the known address of its string,
which is a new one. -/
theorem pickKnown_cases (h : c.pickKnown env chance addr src = some ka) :
    ka.bucketType = .new ∧ (c.known (env.str addr) = none ∧ ka.buckets = [] ∨
      c.known (env.str addr) = some ka) := by
  unfold pickKnown at h
  split at h
  · next hnone =>
    cases h
    exact ⟨rfl, .inl ⟨hnone, rfl⟩⟩
  · next ka' hka' =>
    split at h
    · cases h
    · next hnot =>
      cases h
      have hold : ¬ ka.isOld = true := fun hc => hnot (.inl hc)
      refine ⟨?_, .inr hka'⟩
      cases htype : ka.bucketType with
      | new => rfl
      | old => exact absurd (decide_eq_true htype) hold

/-- Filing the address in a bucket that does not have it adds one reference. -/
theorem addsRef_of_picked (hstr : env.str ka.addr = env.str addr)
    (h : c.pickKnown env chance addr src = some ka) (hi : i ∉ ka.buckets) :
    AddsRef c (env.str ka.addr) (some { ka with buckets := ka.buckets ++ [i] }) .new i := by
  obtain ⟨hnew, hknown⟩ := pickKnown_cases h
  rw [← hstr] at hknown
  refine ⟨lists_some.mpr ⟨hnew, List.mem_append_right _ List.mem_cons_self⟩, ?_,
    fun t j hlists => ?_⟩
  · rintro ⟨ka', hka', -, hmem⟩
    rcases hknown with ⟨hnone, -⟩ | hsome
    · rw [hnone] at hka'
      cases hka'
    · cases hsome.symm.trans hka'
      exact hi hmem
  · obtain ⟨ht, hj⟩ := lists_some.mp hlists
    rcases List.mem_append.mp hj with hj | hj
    · rcases hknown with ⟨-, hnil⟩ | hsome
      · rw [hnil] at hj
        exact absurd hj List.not_mem_nil
      · exact .inr ⟨ka, hsome, ht, hj⟩
    · exact .inl ⟨ht.symm.trans hnew, List.mem_singleton.mp hj⟩

variable {s : Str}

/-- Moving a new address adds one reference to an old bucket. -/
theorem addsRef_of_moved (hs : c.known s = some ka) (hnew : ka.bucketType = .new)
    (ka' : KnownAddress) :
    AddsRef c s (some { ka' with bucketType := .old, buckets := [i] }) .old i := by
  refine ⟨lists_some.mpr ⟨rfl, List.mem_cons_self⟩, ?_, fun t j hlists => ?_⟩
  · rintro ⟨ka'', hka'', hold, -⟩
    cases hs.symm.trans hka''
    cases hnew.symm.trans hold
  · obtain ⟨ht, hj⟩ := lists_some.mp hlists
    exact .inl ⟨ht.symm, List.mem_singleton.mp hj⟩

/-- An eviction takes a string out of the bucket, and files none. -/
theorem expireNew_spec (hfin : ∀ t i, (c.inBucket t i).Finite) (h : c.Within n)
    (hvictim : c.victim chance = some s) (hs : s ∈ c.inBucket .new i) :
    (c.expireNew chance i).Within n ∧
      (c.expireNew chance i).bucketSize .new i < c.bucketSize .new i := by
  have hdrop : ∀ t j, Lists ((c.known s).bind fun ka => dropRef ka i) t j →
      j ≠ i ∧ s ∈ c.inBucket t j := by
    rintro t j ⟨ka', hv, ht, hj⟩
    obtain ⟨ka, hka, hdrop⟩ := Option.bind_eq_some_iff.mp hv
    rw [dropRef] at hdrop
    split at hdrop
    · cases hdrop
    · cases hdrop
      obtain ⟨hmem, hne⟩ := List.mem_filter.mp hj
      exact ⟨of_decide_eq_true hne, ka, hka, ht, hmem⟩
  rw [expireNew, hvictim]
  exact ⟨within_set hfin h fun t j hlists => (hdrop t j hlists).2,
    bucketSize_set_lt (hfin _ _) (fun hlists => (hdrop _ _ hlists).1 rfl) hs⟩

theorem finite_set {v : Option KnownAddress} (hfin : ∀ t i, (c.inBucket t i).Finite)
    (t : BucketType) (i : Nat) : ((c.set s v).inBucket t i).Finite := by
  refine ((hfin t i).insert s).subset fun s' hs' => ?_
  rcases mem_inBucket_set.mp hs' with ⟨rfl, -⟩ | ⟨-, hmem⟩
  · exact Set.mem_insert _ _
  · exact Set.mem_insert_of_mem _ hmem

/-- Only the known address of the string counts. -/
theorem AddsRef.congr {c' : Contents} {v : Option KnownAddress} {t₀ : BucketType}
    (h : AddsRef c s v t₀ i) (hs : c'.known s = c.known s) : AddsRef c' s v t₀ i := by
  have hmem : ∀ t j, s ∈ c'.inBucket t j ↔ s ∈ c.inBucket t j := fun t j => by
    show Lists (c'.known s) t j ↔ Lists (c.known s) t j
    rw [hs]
  exact ⟨h.added, fun hc => h.fresh ((hmem _ _).mp hc),
    fun t j hlists => (h.rest t j hlists).imp_right (hmem t j).mpr⟩

/-- A known address whose type and buckets stay adds nothing. -/
theorem within_touch (hfin : ∀ t i, (c.inBucket t i).Finite) (h : c.Within n)
    {f : KnownAddress → KnownAddress} (htype : ∀ ka, (f ka).bucketType = ka.bucketType)
    (hbuckets : ∀ ka, (f ka).buckets = ka.buckets) : (c.set s ((c.known s).map f)).Within n := by
  refine within_set hfin h fun t i => ?_
  rintro ⟨_, hv, ht, hi⟩
  obtain ⟨ka, hka, rfl⟩ := Option.map_eq_some_iff.mp hv
  rw [htype] at ht
  rw [hbuckets] at hi
  exact ⟨ka, hka, ht, hi⟩

end

end Contents

/-! ### The condition on a call -/

/-- The number of addresses in a bucket. -/
def bucketLength (a : AddrBook) (t : BucketType) (i : Nat) : Nat :=
  ((a.buckets t)[i]?.map fun bucket => bucket.entries.length).getD 0

/-- `AddAddress` files the address in its new bucket: it takes the address, the bucket does not
have it, and an address that is known is a new one that the draw gives another bucket. -/
def Files (env : Env) (a : AddrBook) (chance : Chance) (addr src : NetAddress) : Prop :=
  Accepts env a addr ∧ ∀ ka, known? a (env.str addr) = some ka →
    ka.bucketType = .new ∧ ka.buckets.length ≠ maxNewBucketsPerAddress ∧
      chance.draw % (2 * ka.buckets.length) = 0 ∧ a.calcNewBucket env addr src ∉ ka.buckets

/-- The call adds an address to a bucket that has exactly as many as it should have at most. -/
def Overfills (env : Env) (a : AddrBook) : AddrBook.Op → Prop
  | .addAddress chance (some addr) (some src) => Files env a chance addr src ∧
      bucketLength a .new (a.calcNewBucket env addr src) = newBucketSize
  | .markGood _ addr => ∃ ka, known? a (env.str addr) = some ka ∧ ka.bucketType = .new ∧
      bucketLength a .old (a.calcOldBucket env ka.addr) = oldBucketSize
  | _ => False

/-- No bucket has more addresses than its size. -/
def WithinCapacity (a : AddrBook) : Prop :=
  (∀ bucket ∈ a.bucketsNew, bucket.entries.length ≤ newBucketSize) ∧
    ∀ bucket ∈ a.bucketsOld, bucket.entries.length ≤ oldBucketSize

section
variable {env : Env} {a a' : AddrBook} {t : BucketType} {i n : Nat}

theorem RepInv.finite_inBucket (h : RepInv env a) (t : BucketType) (i : Nat) :
    ((contents a).inBucket t i).Finite := by
  refine a.addrLookup.keys.finite_toSet.subset ?_
  rintro s ⟨ka, hka, -⟩
  obtain ⟨p, hs, -⟩ := h.row_of_known hka
  exact AList.mem_keys.mp (AList.lookup_isSome.mp (by rw [hs]; rfl))

theorem RepInv.bucketLength_eq (h : RepInv env a) (t : BucketType) (i : Nat) :
    (contents a).bucketSize t i = bucketLength a t i := by
  rw [bucketLength]
  cases hb : (a.buckets t)[i]? with
  | some bucket => exact h.bucketSize_eq hb
  | none =>
    have hempty : (contents a).inBucket t i = ∅ := by
      refine Set.eq_empty_of_forall_notMem ?_
      rintro s ⟨ka, hka, rfl, hi⟩
      obtain ⟨p, -, hrow⟩ := h.row_of_known hka
      obtain ⟨bucket, hb'⟩ := hrow.bucket hi
      rw [hb] at hb'
      cases hb'
    rw [Contents.bucketSize, hempty, Set.ncard_empty]
    rfl

/-- The sizes of the buckets are those of the contents. -/
theorem RepInv.within_iff (h : RepInv env a) :
    (contents a).Within n ↔ ∀ t, ∀ bucket ∈ a.buckets t,
      bucket.entries.length ≤ bucketCapacity t + n := by
  constructor
  · intro hwithin t bucket hmem
    obtain ⟨i, hb⟩ := List.getElem?_of_mem hmem
    rw [← h.bucketSize_eq hb]
    exact hwithin t i
  · intro hall t i
    rw [h.bucketLength_eq, bucketLength]
    cases hb : (a.buckets t)[i]? with
    | some bucket => exact hall t bucket (List.mem_of_getElem? hb)
    | none => exact Nat.zero_le _

theorem RepInv.withinCapacity_iff (h : RepInv env a) :
    WithinCapacity a ↔ (contents a).Within 0 := by
  rw [h.within_iff]
  constructor
  · rintro ⟨hnew, hold⟩ t
    cases t with
    | new => exact hnew
    | old => exact hold
  · exact fun hall => ⟨hall .new, hall .old⟩

/-! ### `AddAddress` -/

/-- `Files` in terms of the contents. -/
theorem files_iff (env : Env) (a : AddrBook) (chance : Chance) (addr src : NetAddress) :
    Files env a chance addr src ↔ Accepts env a addr ∧
      ∃ ka, (contents a).pickKnown env (liftCall env a chance (some addr) (some src)) addr src =
        some ka ∧ a.calcNewBucket env addr src ∉ ka.buckets := by
  refine and_congr_right fun _ => ?_
  have hknown : (contents a).known (env.str addr) = known? a (env.str addr) := rfl
  rw [Contents.pickKnown, hknown]
  cases known? a (env.str addr) with
  | none =>
    refine iff_of_true (fun ka hka => absurd hka.symm (Option.some_ne_none ka)) ⟨_, rfl, ?_⟩
    exact List.not_mem_nil
  | some ka =>
    have hdraw : (liftCall env a chance (some addr) (some src)).draw = chance.draw := rfl
    simp only [hdraw, Option.some.injEq, forall_eq', ne_eq]
    have hold : ka.isOld = true ↔ ¬ ka.bucketType = .new := by
      rw [KnownAddress.isOld, decide_eq_true_iff]
      cases ka.bucketType <;> simp
    constructor
    · rintro ⟨hnew, hlen, hdraw, hnot⟩
      refine ⟨ka, ?_, hnot⟩
      rw [if_neg]
      rintro (hc | hc | hc)
      · exact hold.mp hc hnew
      · exact hlen hc
      · exact hc hdraw
    · rintro ⟨ka', hpick, hnot⟩
      split at hpick
      · cases hpick
      · next hcond =>
        cases hpick
        rw [not_or, not_or, not_not, hold, not_not] at hcond
        exact ⟨hcond.1, hcond.2.1, hcond.2.2, hnot⟩

variable {addr src : NetAddress}

/-- The contents after an `AddAddress` that files the address. -/
theorem contentsAfter_of_files {chance : Chance} {ka : KnownAddress} (haccepts : Accepts env a addr)
    (hpick : (contents a).pickKnown env (liftCall env a chance (some addr) (some src)) addr src =
      some ka) (hnot : a.calcNewBucket env addr src ∉ ka.buckets) :
    contentsAfter env a (.addAddress chance (some addr) (some src)) =
      (if newBucketSize < (contents a).bucketSize .new (a.calcNewBucket env addr src) then
        (contents a).expireNew (liftCall env a chance (some addr) (some src))
          (a.calcNewBucket env addr src)
      else contents a).set (env.str ka.addr)
        (some { ka with buckets := ka.buckets ++ [a.calcNewBucket env addr src] }) := by
  have hblank : (contents a).blank.calcNewBucket env addr src = a.calcNewBucket env addr src := rfl
  rw [contentsAfter, Contents.addAddress,
    if_neg (show ¬ env.str addr ∈ (contents a).ourAddrs from haccepts.1),
    if_neg (show ¬ ((contents a).routabilityStrict = true ∧ env.routable addr = false) from
      haccepts.2)]
  simp only [hpick, hblank]
  rw [Contents.addToNewBucket, if_neg hnot]

/-- Any other `AddAddress` leaves the contents. -/
theorem contentsAfter_of_not_files {chance : Chance} (h : ¬ Files env a chance addr src) :
    contentsAfter env a (.addAddress chance (some addr) (some src)) = contents a := by
  have hblank : (contents a).blank.calcNewBucket env addr src = a.calcNewBucket env addr src := rfl
  rw [files_iff, not_and, not_exists] at h
  rw [contentsAfter, Contents.addAddress]
  split
  · rfl
  next hour =>
  split
  · rfl
  next hroute =>
  split
  · rfl
  · next ka hpick =>
    have hmem : a.calcNewBucket env addr src ∈ ka.buckets := by
      by_contra hnot
      exact h ⟨hour, hroute⟩ ka ⟨hpick, hnot⟩
    rw [hblank, Contents.addToNewBucket, if_pos hmem]

/-- The strings that an iteration over a new bucket visits are those of the bucket. -/
theorem RepInv.mem_of_order (h : RepInv env a) {bucket : Bucket}
    (hb : (a.buckets .new)[i]? = some bucket) (order : IterOrder Nat) :
    ∀ s ∈ (order.apply bucket.pointers).map (strOf env a), s ∈ (contents a).inBucket .new i := by
  intro s hs
  have hmem := ((order.perm bucket.pointers).map (strOf env a)).mem_iff.mp hs
  rw [(h.mapOf_bucket hb).map_strOf, ← AList.mem_keys] at hmem
  exact (h.mem_bucket_iff hb).mp hmem

theorem RepInv.exists_victim (h : RepInv env a) (chance : Chance) (hi : i < newBucketCount)
    (hpos : 0 < (contents a).bucketSize .new i) :
    ∃ s ∈ (contents a).inBucket .new i,
      (contents a).victim (liftChance env a chance i) = some s := by
  obtain ⟨bucket, hb⟩ := h.getBucket (t := .new) hi
  rw [liftChance_eq env chance hb]
  refine Contents.exists_victim (h.mem_of_order hb chance.badOrder)
    (h.mem_of_order hb chance.oldestOrder) fun hnil => ?_
  have hlen : ((chance.oldestOrder.apply bucket.pointers).map (strOf env a)).length =
      bucket.entries.length := by
    rw [List.length_map, (chance.oldestOrder.perm _).length_eq]
    exact List.length_map _
  rw [h.bucketSize_eq hb, ← hlen, List.length_eq_zero_iff.mpr hnil] at hpos
  exact absurd hpos (by decide)

/-! ### Runs -/

/-- The string of the known address that is filed is the one of the address. -/
theorem RepInv.str_of_pickKnown (h : RepInv env a) {chance : Contents.Chance} {ka : KnownAddress}
    (hpick : (contents a).pickKnown env chance addr src = some ka) :
    env.str ka.addr = env.str addr := by
  refine Contents.str_of_pickKnown env chance (fun ka' hka' => ?_) hpick
  obtain ⟨_, -, hrow⟩ := h.row_of_known hka'
  exact hrow.str

/-- The calls that file no address keep every bound. -/
theorem within_of_others (h : RepInv env a) (hwithin : (contents a).Within n) (addr : NetAddress)
    (now : Int) :
    ((contents a).markAttempt env now addr).Within n ∧
      ((contents a).removeAddress env addr).Within n ∧
      ((contents a).addOurAddress env addr).Within n := by
  refine ⟨?_, ?_, hwithin⟩
  · exact Contents.within_touch h.finite_inBucket hwithin (fun _ => rfl) fun _ => rfl
  · refine Contents.within_set h.finite_inBucket hwithin fun t i => ?_
    rintro ⟨_, hnone, -⟩
    cases hnone

/-- `MarkGood` of an address that is not new files nothing. -/
theorem within_markGood_of_not_new (h : RepInv env a) (hwithin : (contents a).Within n) (now : Int)
    (hnot : ∀ ka, known? a (env.str addr) = some ka → ka.bucketType ≠ .new) :
    ((contents a).markGood env now addr).Within n := by
  have hvalue : ((contents a).known (env.str addr)).bind (fun ka =>
      if ka.isNew then (contents a).moved env (ka.markGood now) else some (ka.markGood now)) =
      ((contents a).known (env.str addr)).map fun ka => ka.markGood now := by
    cases hknown : (contents a).known (env.str addr) with
    | none => rfl
    | some ka =>
      have hnew : ¬ ka.isNew = true := fun hc => hnot ka hknown (of_decide_eq_true hc)
      rw [Option.bind_some, if_neg hnew]
      rfl
  rw [Contents.markGood, hvalue]
  exact Contents.within_touch h.finite_inBucket hwithin (fun _ => rfl) fun _ => rfl

/-- `AddAddress` keeps the buckets within their size unless it files an address in a full one. -/
theorem within_addAddress_iff (h : RepInv env a) (hwithin : (contents a).Within 0)
    (chance : Chance) (addr src : NetAddress) :
    (contentsAfter env a (.addAddress chance (some addr) (some src))).Within 0 ↔
      ¬ Overfills env a (.addAddress chance (some addr) (some src)) := by
  by_cases hfiles : Files env a chance addr src
  · obtain ⟨haccepts, ka, hpick, hnot⟩ := (files_iff env a chance addr src).mp hfiles
    have hsize : (contents a).bucketSize .new (a.calcNewBucket env addr src) ≤ newBucketSize :=
      hwithin .new _
    -- The bucket is not above its size, so nothing is evicted.
    rw [contentsAfter_of_files haccepts hpick hnot, if_neg (Nat.not_lt.mpr hsize),
      (Contents.addsRef_of_picked (h.str_of_pickKnown hpick) hpick hnot).within_iff
        h.finite_inBucket hwithin, Overfills, and_iff_right hfiles, ← h.bucketLength_eq]
    show _ < newBucketSize ↔ _
    omega
  · rw [contentsAfter_of_not_files hfiles]
    exact iff_of_true hwithin fun hc => hfiles hc.1

/-- `MarkGood` keeps the buckets within their size unless it moves an address to a full one. -/
theorem within_markGood_iff (h : RepInv env a) (hwithin : (contents a).Within 0) (now : Int)
    (addr : NetAddress) :
    (contentsAfter env a (.markGood now addr)).Within 0 ↔
      ¬ Overfills env a (.markGood now addr) := by
  by_cases hnew : ∃ ka, known? a (env.str addr) = some ka ∧ ka.bucketType = .new
  · obtain ⟨ka, hka, hnew⟩ := hnew
    have hsize : (contents a).bucketSize .old (a.calcOldBucket env ka.addr) ≤ oldBucketSize :=
      hwithin .old _
    have hisNew : ka.isNew = true := decide_eq_true hnew
    have hknown : (contents a).known (env.str addr) = some ka := hka
    have hmoved : (contents a).moved env (ka.markGood now) = some { ka.markGood now with
        bucketType := .old, buckets := [a.calcOldBucket env ka.addr] } := by
      rw [Contents.moved]
      exact if_neg (Nat.not_lt.mpr hsize)
    rw [contentsAfter, Contents.markGood, hknown, Option.bind_some, if_pos hisNew, hmoved,
      (Contents.addsRef_of_moved hknown hnew (ka.markGood now)).within_iff
        h.finite_inBucket hwithin, h.bucketLength_eq]
    rw [h.bucketLength_eq] at hsize
    show _ < oldBucketSize ↔ _
    constructor
    · rintro hlt ⟨ka', hka', -, hfull⟩
      cases hka.symm.trans hka'
      omega
    · intro hnot
      exact Nat.lt_of_le_of_ne hsize fun hfull => hnot ⟨ka, hka, hnew, hfull⟩
  · refine iff_of_true (within_markGood_of_not_new h hwithin now fun ka hka hc => ?_) ?_
    · exact hnew ⟨ka, hka, hc⟩
    · rintro ⟨ka, hka, hc, -⟩
      exact hnew ⟨ka, hka, hc⟩

/-- A call keeps the buckets within their size exactly when it does not overfill one. -/
theorem step_within_iff (h : RepInv env a) (hwithin : (contents a).Within 0) (op : AddrBook.Op) :
    (contentsAfter env a op).Within 0 ↔ ¬ Overfills env a op := by
  cases op with
  | addAddress chance addr src =>
    cases addr with
    | none => exact iff_of_true hwithin not_false
    | some addr =>
      cases src with
      | none => exact iff_of_true hwithin not_false
      | some src => exact within_addAddress_iff h hwithin chance addr src
  | markGood now addr => exact within_markGood_iff h hwithin now addr
  | markAttempt now addr => exact iff_of_true (within_of_others h hwithin addr now).1 not_false
  | removeAddress addr => exact iff_of_true (within_of_others h hwithin addr 0).2.1 not_false
  | addOurAddress addr => exact iff_of_true (within_of_others h hwithin addr 0).2.2 not_false

/-- `AddAddress` never gets a bucket beyond one more than its size: from there on it evicts an
address first. -/
theorem within_one_addAddress (h : RepInv env a) (hwithin : (contents a).Within 1)
    (chance : Chance) (addr src : NetAddress) :
    (contentsAfter env a (.addAddress chance (some addr) (some src))).Within 1 := by
  by_cases hfiles : Files env a chance addr src
  swap
  · rw [contentsAfter_of_not_files hfiles]
    exact hwithin
  obtain ⟨haccepts, ka, hpick, hnot⟩ := (files_iff env a chance addr src).mp hfiles
  have hadd := Contents.addsRef_of_picked (h.str_of_pickKnown hpick) hpick hnot
  have hsize : (contents a).bucketSize .new (a.calcNewBucket env addr src) ≤ newBucketSize + 1 :=
    hwithin .new _
  rw [contentsAfter_of_files haccepts hpick hnot]
  split
  · next hfull =>
    obtain ⟨s, hs, hvictim⟩ := h.exists_victim chance (calcNewBucket_lt env a addr src) (by omega)
    have hvictim' : (contents a).victim (liftCall env a chance (some addr) (some src)) =
      some s := hvictim
    obtain ⟨hwithin', hlt⟩ := Contents.expireNew_spec h.finite_inBucket hwithin hvictim' hs
    have hexpire : (contents a).expireNew (liftCall env a chance (some addr) (some src))
        (a.calcNewBucket env addr src) = (contents a).set s (((contents a).known s).bind
          fun ka => Contents.dropRef ka (a.calcNewBucket env addr src)) := by
      rw [Contents.expireNew, hvictim']
    rw [hexpire] at hwithin' hlt ⊢
    -- The victim is in the bucket, so it is another string.
    have hne : env.str ka.addr ≠ s := by
      rintro rfl
      exact hadd.fresh hs
    refine ((hadd.congr (Contents.known_set_of_ne _ hne _)).within_iff
      (Contents.finite_set h.finite_inBucket) hwithin').mpr ?_
    show _ < newBucketSize + 1
    omega
  · next hroom =>
    refine (hadd.within_iff h.finite_inBucket hwithin).mpr ?_
    show _ < newBucketSize + 1
    omega

theorem within_one_markGood (h : RepInv env a) (hwithin : (contents a).Within 1) (now : Int)
    (addr : NetAddress) : ((contents a).markGood env now addr).Within 1 := by
  by_cases hnew : ∃ ka, known? a (env.str addr) = some ka ∧ ka.bucketType = .new
  swap
  · exact within_markGood_of_not_new h hwithin now fun ka hka hc => hnew ⟨ka, hka, hc⟩
  obtain ⟨ka, hka, hnew⟩ := hnew
  have hknown : (contents a).known (env.str addr) = some ka := hka
  have hisNew : ka.isNew = true := decide_eq_true hnew
  rw [Contents.markGood, hknown, Option.bind_some, if_pos hisNew, Contents.moved]
  split
  · refine Contents.within_set h.finite_inBucket hwithin fun t i => ?_
    rintro ⟨_, hnone, -⟩
    cases hnone
  · next hroom =>
    refine ((Contents.addsRef_of_moved hknown hnew (ka.markGood now)).within_iff
      h.finite_inBucket hwithin).mpr ?_
    show _ < oldBucketSize + 1
    omega

/-- No call takes a bucket beyond 65. -/
theorem within_one_step (h : RepInv env a) (hwithin : (contents a).Within 1) (op : AddrBook.Op) :
    (contentsAfter env a op).Within 1 := by
  cases op with
  | addAddress chance addr src =>
    cases addr with
    | none => exact hwithin
    | some addr =>
      cases src with
      | none => exact hwithin
      | some src => exact within_one_addAddress h hwithin chance addr src
  | markGood now addr => exact within_one_markGood h hwithin now addr
  | markAttempt now addr => exact (within_of_others h hwithin addr now).1
  | removeAddress addr => exact (within_of_others h hwithin addr 0).2.1
  | addOurAddress addr => exact (within_of_others h hwithin addr 0).2.2

theorem within_new (env : Env) (routabilityStrict : Bool) (key : Str) (n : Nat) :
    (contents (newAddrBook routabilityStrict key)).Within n := by
  rw [(repInv_new env routabilityStrict key).within_iff]
  intro t bucket hmem
  cases t with
  | new =>
    obtain rfl := List.eq_of_mem_replicate hmem
    exact Nat.zero_le _
  | old =>
    obtain rfl := List.eq_of_mem_replicate hmem
    exact Nat.zero_le _

end

/-- In a run on a new book all buckets stay within their size exactly when no call adds an
address to a bucket that has 64 addresses. -/
theorem capacity_kept_iff (env : Env) (routabilityStrict : Bool) (key : Str)
    (ops : List AddrBook.Op) :
    Always (AddrBook.step env) WithinCapacity (newAddrBook routabilityStrict key) ops ↔
      Along (AddrBook.step env) (fun a op => ¬ Overfills env a op)
        (newAddrBook routabilityStrict key) ops := by
  have hnew := repInv_new env routabilityStrict key
  refine always_iff_along (Q := RepInv env) (fun a a' op _ h hstep => ?_)
    (fun a a' op _ h hcap hstep => ?_) hnew ?_
  · exact (contents_of_step h hstep).1
  · obtain ⟨h', hcont⟩ := contents_of_step h hstep
    rw [h'.withinCapacity_iff, hcont]
    exact step_within_iff h (h.withinCapacity_iff.mp hcap) op
  · exact hnew.withinCapacity_iff.mpr (within_new env routabilityStrict key 0)

/-- Addresses 0 to 64 marked as good are 65 addresses in one old bucket. -/
theorem sixty_five_in_bucket :
    ¬ Always (AddrBook.step oneBucketEnv) WithinCapacity (newAddrBook false []) fillOldBucket := by
  intro halways
  obtain ⟨a, ka, bucket, hrun, -, -, -, hb, hlen⟩ := exists_fillOldBucket
  have hle := (halways.last hrun).2 bucket (List.mem_of_getElem? hb)
  rw [hlen] at hle
  exact absurd hle (by decide)

/-- No run gets a bucket beyond 65 addresses. -/
theorem buckets_at_most_one_over (env : Env) (routabilityStrict : Bool) (key : Str)
    (ops : List AddrBook.Op) :
    ∃ a, (newAddrBook routabilityStrict key).run env ops = .ok a ∧
      ∀ t, ∀ bucket ∈ a.buckets t, bucket.entries.length ≤ bucketCapacity t + 1 := by
  have hrun : ∃ a, (newAddrBook routabilityStrict key).run env ops = .ok a ∧
      RepInv env a ∧ (contents a).Within 1 := by
    refine foldlM_succeeds (fun a op _ hP => ?_)
      ⟨repInv_new env routabilityStrict key, within_new env routabilityStrict key 1⟩
    obtain ⟨a', hstep, h', hcont⟩ := step_spec hP.1 op
    refine ⟨a', hstep, h', ?_⟩
    rw [hcont]
    exact within_one_step hP.1 hP.2 op
  obtain ⟨a, hrun, h, hwithin⟩ := hrun
  exact ⟨a, hrun, h.within_iff.mp hwithin⟩

end BtmStats.Proofs.Pex
