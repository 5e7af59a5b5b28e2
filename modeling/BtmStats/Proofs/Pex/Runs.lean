import BtmStats.Proofs.Pex.Selection

/-!
# `BtmStats.Proofs.Pex.Runs`: the address book after any calls

In a book with the representation invariant the search of `PickAddress` has a bucket to find.
With `run_spec` and what is known of the other calls this holds after every sequence of calls
(`addrBook_representation`).
-/

set_option autoImplicit false

namespace BtmStats.Proofs.Pex

open Lib Spec Spec.Pex

section
variable {env : Env} {a a' : AddrBook} {s : Str} {p : Nat} {ka : KnownAddress}

/-! ### The search -/

/-- When an address of a type is known, some bucket of the type is not empty. -/
theorem RepInv.exists_bucket (h : RepInv env a) {t : BucketType} (hpos : 0 < count a t) :
    ∃ bucket ∈ a.buckets t, bucket.entries ≠ [] := by
  rw [h.count_eq t] at hpos
  obtain ⟨s, hs⟩ := Finset.card_pos.mp (by omega : 0 < (knownOf a t).card)
  obtain ⟨ka, hka, rfl⟩ := mem_knownOf.mp hs
  obtain ⟨p, hp, hheap⟩ := Option.bind_eq_some_iff.mp hka
  obtain ⟨ka', hrow⟩ := (h.rows s).of_some hp
  obtain rfl : ka = ka' := Option.some.inj (hheap.symm.trans hrow.heap)
  obtain ⟨i, hi⟩ := List.exists_mem_of_ne_nil _ hrow.refs.ne_nil
  obtain ⟨bucket, hb⟩ := hrow.bucket hi
  refine ⟨bucket, List.mem_of_getElem? hb, fun hnil => ?_⟩
  have hget := (hrow.filed ka.bucketType i p).mpr ⟨rfl, rfl, hi⟩
  rw [bucketGet, hb] at hget
  have hmem := AList.mem_lookup_iff.mp hget
  rw [hnil] at hmem
  exact List.not_mem_nil hmem

/-- `PickAddress` enters its search for a type only when an address of it is known. -/
theorem RepInv.pos_of_entersSearch (h : RepInv env a) {old : Bool}
    (hsearch : a.entersSearch old = true) : 0 < if old then a.nOld else a.nNew := by
  have hnew : a.nNew = (knownOf a .new).card := h.count_eq .new
  have hold : a.nOld = (knownOf a .old).card := h.count_eq .old
  cases old with
  | false =>
    simp only [AddrBook.entersSearch, Bool.false_and, Bool.false_or, Bool.not_false,
      Bool.true_and, Bool.and_eq_true, Bool.not_eq_true', decide_eq_false_iff_not] at hsearch
    simp only [Bool.false_eq_true, if_false]
    omega
  | true =>
    simp only [AddrBook.entersSearch, Bool.true_and, Bool.not_true, Bool.false_and,
      Bool.or_false, Bool.and_eq_true, Bool.not_eq_true', decide_eq_false_iff_not] at hsearch
    simp only [if_true]
    omega

/-- The search of `PickAddress` ends in a bucket that is not empty, or goes on. -/
theorem searchLoop_spec (buckets : List Bucket) (hne : buckets ≠ []) (draws : Nat → Nat)
    (fuel k : Nat) : ∃ r, AddrBook.searchLoop buckets draws fuel k = .ok r ∧
      ∀ bucket k', r = some (bucket, k') → bucket ∈ buckets ∧ bucket.entries ≠ [] := by
  induction fuel generalizing k with
  | zero => exact ⟨none, rfl, nofun⟩
  | succ fuel ih =>
    have hpos : 0 < buckets.length := List.length_pos_iff.mpr hne
    have hi : draws k % (buckets.length : Int).toNat < buckets.length := by
      rw [Int.toNat_natCast]
      exact Nat.mod_lt _ hpos
    rw [AddrBook.searchLoop, intn_of_pos _ (by omega)]
    show ∃ r, (orPanic _ buckets[draws k % (buckets.length : Int).toNat]? >>= _) = _ ∧ _
    rw [List.getElem?_eq_getElem hi]
    show ∃ r, (if List.length (AList.entries _) = 0 then _ else _) = _ ∧ _
    split
    · exact ih (k + 1)
    · next hlen =>
      refine ⟨_, rfl, fun bucket k' heq => ?_⟩
      cases heq
      exact ⟨List.getElem_mem hi, fun hnil => hlen (by rw [hnil]; rfl)⟩

/-- `PickAddress` does not panic. -/
theorem pickAddress_spec (h : RepInv env a) (pickFromOldBucket : Bool) (order : IterOrder Nat)
    (draws : Nat → Nat) (fuel : Nat) :
    ∃ r, a.pickAddress pickFromOldBucket order draws fuel = .ok r := by
  unfold AddrBook.pickAddress
  split
  · exact ⟨_, rfl⟩
  generalize (if pickFromOldBucket then BucketType.old else BucketType.new) = t
  have hne : a.buckets t ≠ [] := by
    have hlen := h.length t
    intro hnil
    rw [hnil] at hlen
    cases t <;> cases hlen
  obtain ⟨r, hr, hfound⟩ := searchLoop_spec (a.buckets t) hne draws fuel 0
  show ∃ r, (AddrBook.searchLoop (a.buckets t) draws fuel 0 >>= _) = _
  rw [hr]
  cases r with
  | none => exact ⟨none, rfl⟩
  | some found =>
    obtain ⟨bucket, k⟩ := found
    obtain ⟨hmem, hentries⟩ := hfound bucket k rfl
    have hpos : 0 < (bucket.entries.length : Int) := by
      have := List.length_pos_iff.mpr hentries
      omega
    show ∃ r, (AddrBook.intn (draws k) _ >>= _) = _
    rw [intn_of_pos _ hpos]
    simp only [bind, Except.bind]
    split
    · exact ⟨_, rfl⟩
    · next q hq =>
      obtain ⟨i, hb⟩ := List.getElem?_of_mem hmem
      have hq' := (order.perm _).mem_iff.mp (List.mem_of_getElem? hq)
      obtain ⟨_, ka, -, -, hrow, -⟩ := h.of_bucket hb hq'
      rw [deref_eq_ok.mpr hrow.heap]
      exact ⟨_, rfl⟩

/-! ### The representation invariant -/

/-- No sequence of calls on a new address book panics, and in the book that it leads to:
(a) `nNew` and `nOld` count the entries of `addrLookup` of their type; (b) every entry
points to a known address with its string, and a new one has one to four different
bucket references, an old one has one; (c) bucket `i` of a type has a pointer for a
string exactly when `addrLookup` has it, and it points to a known address of the type
that refers to bucket `i`. Hence the next `AddAddress`, `GetSelection` and
`PickAddress` do not panic, and when `PickAddress` enters its search there is a bucket
of the type that is not empty. -/
theorem addrBook_representation (env : Env) (routabilityStrict : Bool) (key : Str)
    (ops : List AddrBook.Op) :
    ∃ a, (newAddrBook routabilityStrict key).run env ops = .ok a ∧
    (a.nNew = (knownOf a .new).card ∧ a.nOld = (knownOf a .old).card) ∧
    (∀ s p, a.addrLookup.lookup s = some p →
      ∃ ka, a.heap[p]? = some ka ∧ env.str ka.addr = s ∧ RefsOk ka) ∧
    (∀ t i s p, bucketGet a t i s = some p ↔ a.addrLookup.lookup s = some p ∧
      ∃ ka, a.heap[p]? = some ka ∧ ka.bucketType = t ∧ i ∈ ka.buckets) ∧
    (∀ chance addr src, ∃ res, a.addAddress env chance addr src = .ok res) ∧
    (∀ order draws, ∃ l, a.getSelection order draws = .ok l) ∧
    (∀ old order draws fuel, ∃ r, a.pickAddress old order draws fuel = .ok r) ∧
    (0 < a.nOld → ∃ bucket ∈ a.bucketsOld, bucket.entries ≠ []) ∧
    (0 < a.nNew → ∃ bucket ∈ a.bucketsNew, bucket.entries ≠ []) ∧
    (∀ old, a.entersSearch old = true → 0 < if old then a.nOld else a.nNew) := by
  obtain ⟨a, hrun, h⟩ := run_spec (repInv_new env routabilityStrict key) ops
  refine ⟨a, hrun, ⟨h.count_eq .new, h.count_eq .old⟩, fun s p hs => ?_, h.bucketGet_iff,
    fun chance addr src => ?_, fun order draws => ?_, pickAddress_spec h,
    fun hpos => h.exists_bucket (t := .old) hpos, fun hpos => h.exists_bucket (t := .new) hpos,
    fun _ => h.pos_of_entersSearch⟩
  · obtain ⟨ka, hrow⟩ := (h.rows s).of_some hs
    exact ⟨ka, hrow.heap, hrow.str, hrow.refs⟩
  · obtain ⟨a', err, hres, -⟩ := addAddress_spec h chance addr src
    exact ⟨_, hres⟩
  · obtain ⟨l, hl, -⟩ := getSelection_spec h order draws
    exact ⟨l, hl⟩

end

end BtmStats.Proofs.Pex
