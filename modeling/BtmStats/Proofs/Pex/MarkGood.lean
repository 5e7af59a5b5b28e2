import BtmStats.Proofs.Pex.Methods

/-!
# `BtmStats.Proofs.Pex.MarkGood`: `MarkGood` can forget an address

`moveToOld` takes a new address out of the book before it looks at the old bucket. When
`addToOldBucket` then fails because the bucket is full, the address stays out, and
`MarkGood` only logs the error. This is the only case in which `MarkGood` changes the
strings of the book (`markGood_keeps_keys_iff`).

`sixty_sixth_forgotten` is such a run. An old bucket refuses an address when it has more
than 64, so 65 addresses fill it.
-/

set_option autoImplicit false

namespace BtmStats.Proofs.Pex

open Lib Spec Spec.Pex

/-- The address is a new one in the book, and its old bucket is full. -/
def Forgets (env : Env) (a : AddrBook) (addr : NetAddress) : Prop :=
  ∃ p ka bucket, a.addrLookup.lookup (env.str addr) = some p ∧ a.heap[p]? = some ka ∧
    ka.bucketType = .new ∧ a.bucketsOld[a.calcOldBucket env ka.addr]? = some bucket ∧
    oldBucketSize < bucket.entries.length

section
variable {env : Env} {a a' : AddrBook}

/-- The string of the address stays in the book, unless it is forgotten. -/
theorem Contents.markGood_known_isSome (h : RepInv env a) (now : Int) (addr : NetAddress) :
    (((contents a).markGood env now addr).known (env.str addr)).isSome ↔
      env.str addr ∈ a.addrLookup ∧ ¬ Forgets env a addr := by
  rw [Contents.markGood, Contents.known_set_self]
  cases hs : a.addrLookup.lookup (env.str addr) with
  | none =>
    rw [contents_known_none hs]
    simp [AList.lookup_eq_none.mp hs]
  | some p =>
    obtain ⟨ka, hrow, hknown⟩ := h.known_of_lookup hs
    have hmem : env.str addr ∈ a.addrLookup := AList.lookup_isSome.mp (by rw [hs]; rfl)
    obtain ⟨bucket, hb⟩ := h.getBucket (t := .old) (calcOldBucket_lt env a ka.addr)
    -- The known address is the one that the lookup map leads to, and so is its bucket.
    have hforgets : Forgets env a addr ↔
        ka.bucketType = .new ∧ oldBucketSize < bucket.entries.length := by
      constructor
      · rintro ⟨q, kq, bq, hq, hkq, hnew, hbq, hfull⟩
        cases Option.some.inj (hs.symm.trans hq)
        cases Option.some.inj (hrow.heap.symm.trans hkq)
        cases Option.some.inj (hb.symm.trans hbq)
        exact ⟨hnew, hfull⟩
      · rintro ⟨hnew, hfull⟩
        exact ⟨p, ka, bucket, hs, hrow.heap, hnew, hb, hfull⟩
    have hsize : (contents a).bucketSize .old
        ((contents a).blank.calcOldBucket env (ka.markGood now).addr) = bucket.entries.length :=
      h.bucketSize_eq hb
    rw [hknown, Option.bind_some, hforgets, and_iff_right hmem]
    by_cases hnew : ka.bucketType = .new
    · have hisNew : ka.isNew = true := decide_eq_true hnew
      rw [if_pos hisNew, Contents.moved]
      simp only [hsize, and_iff_right hnew]
      split
      · next hfull => simp [hfull]
      · next hfull => simp [hfull]
    · have hisNew : ¬ ka.isNew = true := fun hc => hnew (of_decide_eq_true hc)
      rw [if_neg hisNew]
      simp [hnew]

theorem markGood_mem_iff (h : RepInv env a) (h' : RepInv env a') {now : Int} {addr : NetAddress}
    (hcont : contents a' = (contents a).markGood env now addr) (s : Str) :
    s ∈ a'.addrLookup ↔ s ∈ a.addrLookup ∧ (s = env.str addr → ¬ Forgets env a addr) := by
  have hknown : known? a' s = ((contents a).markGood env now addr).known s :=
    congrArg (fun c => c.known s) hcont
  rw [← h'.known_isSome_iff, hknown]
  by_cases hs : s = env.str addr
  · subst hs
    rw [Contents.markGood_known_isSome h]
    simp
  · rw [Contents.markGood, Contents.known_set_of_ne _ hs, ← h.known_isSome_iff]
    simp [hs, contents]

end

/-- In every book that calls lead to, `MarkGood` keeps the strings of `addrLookup`
exactly when it does not find a new address whose old bucket is full. If it does, the
address is out of the book. -/
theorem markGood_keeps_keys_iff (env : Env) (routabilityStrict : Bool) (key : Str)
    (ops : List AddrBook.Op) (now : Int) (addr : NetAddress) :
    ∃ a a', (newAddrBook routabilityStrict key).run env ops = .ok a ∧
      a.markGood env now addr = .ok a' ∧
      ((∀ s, s ∈ a'.addrLookup ↔ s ∈ a.addrLookup) ↔ ¬ Forgets env a addr) ∧
      (Forgets env a addr → ∀ s, s ∈ a'.addrLookup ↔ s ∈ a.addrLookup ∧ s ≠ env.str addr) := by
  obtain ⟨a, hrun, h⟩ := run_spec (repInv_new env routabilityStrict key) ops
  obtain ⟨a', hmark, h', hcont⟩ := markGood_spec h now addr
  have hmem := markGood_mem_iff h h' hcont
  refine ⟨a, a', hrun, hmark, ⟨fun hkeys hforgets => ?_, fun hnot s => ?_⟩, fun hforgets s => ?_⟩
  · have hin : env.str addr ∈ a.addrLookup := by
      obtain ⟨p, ka, bucket, hs, -⟩ := hforgets
      exact AList.lookup_isSome.mp (by rw [hs]; rfl)
    exact ((hmem _).mp ((hkeys _).mpr hin)).2 rfl hforgets
  · rw [hmem, and_iff_left fun _ => hnot]
  · rw [hmem]
    exact and_congr_right fun _ => ⟨fun himp hs => himp hs hforgets, fun hne hs => absurd hs hne⟩

/-! ### A full bucket -/

/-- All addresses are in one bucket of each type. -/
def oneBucketEnv : Env :=
  ⟨NetAddress.bytes, fun _ => true, fun _ _ => [], fun _ => FixedBytes.replicate 32 0⟩

def hostAddr (i : Nat) : NetAddress := ⟨some [UInt8.ofNat i], 46656⟩

/-- The call that adds address `i`. -/
def addHost (i : Nat) : AddrBook.Op :=
  .addAddress ⟨0, fun _ _ => 0, ⟨id, .refl⟩, ⟨id, .refl⟩, 0⟩ (some (hostAddr i))
    (some (hostAddr 0))

/-- Addresses 0 to 64 are added and marked as good. Then address 65 is added. -/
def fillOldBucket : List AddrBook.Op :=
  (List.range 65).flatMap (fun i => [addHost i, .markGood 0 (hostAddr i)]) ++ [addHost 65]

/-- The type of the known address of address 65, and the size of old bucket 0. -/
def lastAndFill (a : AddrBook) : Option (BucketType × Nat) :=
  match known? a (oneBucketEnv.str (hostAddr 65)), a.bucketsOld[0]? with
  | some ka, some bucket => some (ka.bucketType, bucket.entries.length)
  | _, _ => none

/-- Address 65 is new, and the old bucket is full. -/
theorem fillOldBucket_fills :
    ((newAddrBook false []).run oneBucketEnv fillOldBucket).toOption.bind lastAndFill =
      some (.new, 65) := by
  decide +kernel

theorem exists_fillOldBucket :
    ∃ a ka bucket, (newAddrBook false []).run oneBucketEnv fillOldBucket = .ok a ∧
      RepInv oneBucketEnv a ∧ known? a (oneBucketEnv.str (hostAddr 65)) = some ka ∧
      ka.bucketType = .new ∧ a.bucketsOld[0]? = some bucket ∧ bucket.entries.length = 65 := by
  obtain ⟨a, hrun, h⟩ := run_spec (repInv_new oneBucketEnv false []) fillOldBucket
  have hfill := fillOldBucket_fills
  rw [hrun] at hfill
  change lastAndFill a = some (.new, 65) at hfill
  unfold lastAndFill at hfill
  split at hfill
  · next ka bucket hka hb =>
    simp only [Option.some.injEq, Prod.mk.injEq] at hfill
    exact ⟨a, ka, bucket, hrun, h, hka, hfill.1, hb, hfill.2⟩
  · cases hfill

/-- `MarkGood` of address 65 takes its string out of the book. -/
theorem sixty_sixth_forgotten :
    ∃ a a', (newAddrBook false []).run oneBucketEnv fillOldBucket = .ok a ∧
      a.markGood oneBucketEnv 0 (hostAddr 65) = .ok a' ∧
      oneBucketEnv.str (hostAddr 65) ∈ a.addrLookup ∧
      oneBucketEnv.str (hostAddr 65) ∉ a'.addrLookup := by
  obtain ⟨a, ka, bucket, hrun, h, hka, hnew, hb, hlen⟩ := exists_fillOldBucket
  obtain ⟨a', hmark, h', hcont⟩ := markGood_spec h 0 (hostAddr 65)
  obtain ⟨p, hs, hrow⟩ := h.row_of_known hka
  have hforgets : Forgets oneBucketEnv a (hostAddr 65) :=
    ⟨p, ka, bucket, hs, hrow.heap, hnew, hb, by rw [hlen]; decide⟩
  refine ⟨a, a', hrun, hmark, AList.lookup_isSome.mp (by rw [hs]; rfl), fun hmem => ?_⟩
  exact ((markGood_mem_iff h h' hcont _).mp hmem).2 rfl hforgets

end BtmStats.Proofs.Pex
