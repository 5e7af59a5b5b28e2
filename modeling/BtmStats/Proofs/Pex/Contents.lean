import Mathlib.Data.Set.Card
import BtmStats.Spec.Pex.AddrBook

/-!
# `BtmStats.Proofs.Pex.Contents`: what the book says, without pointers and buckets

`Contents` is the abstract book: the known address of each string. It determines the
buckets, since a known address lists the buckets that have it, and the counters. So the
calls of the book can be said on `Contents` alone, with the strings of a bucket in place
of its pointers where the book iterates.

`AddrBook.lean` and `Methods.lean` prove that each method of the book does to its contents
what the method of `Contents` with its name does. Facts about which strings a call changes
are then facts about functions, and are at the end of this file.
-/

set_option autoImplicit false

namespace BtmStats.Proofs.Pex

open Lib Spec Spec.Pex

@[ext]
structure Contents where
  routabilityStrict : Bool
  key : Str
  ourAddrs : AList (fun _ : Str => NetAddress)
  known : Str → Option KnownAddress

namespace Contents

/-- What a call leaves to chance, with the strings that an iteration visits. -/
structure Chance where
  now : Int
  clock : Nat → Nat → Int
  badOrder : List Str
  oldestOrder : List Str
  draw : Nat

section
variable (c : Contents)

def set (s : Str) (v : Option KnownAddress) : Contents :=
  { c with known := Function.update c.known s v }

/-- The strings of bucket `i` of a type. -/
def inBucket (t : BucketType) (i : Nat) : Set Str :=
  {s | ∃ ka, c.known s = some ka ∧ ka.bucketType = t ∧ i ∈ ka.buckets}

noncomputable def bucketSize (t : BucketType) (i : Nat) : Nat := (c.inBucket t i).ncard

/-- A book without addresses that gives an address the same buckets. -/
def blank : AddrBook := newAddrBook c.routabilityStrict c.key

/-! ### Eviction -/

def isBad (s : Str) (now : Nat → Int) : Bool :=
  ((c.known s).map fun ka => ka.isBad now).getD false

def lastAttempt (s : Str) : Int := ((c.known s).map KnownAddress.lastAttempt).getD 0

def firstBad (clock : Nat → Nat → Int) : List Str → Nat → Option Str
  | [], _ => none
  | s :: rest, k => if c.isBad s (clock k) then some s else firstBad clock rest (k + 1)

def oldest : List Str → Option Str → Option Str
  | [], best => best
  | s :: rest, none => oldest rest (some s)
  | s :: rest, some best =>
    oldest rest (some (if c.lastAttempt s < c.lastAttempt best then s else best))

/-- The string that has to leave a bucket. -/
def victim (chance : Chance) : Option Str :=
  match c.firstBad chance.clock chance.badOrder 0 with
  | some s => some s
  | none => c.oldest chance.oldestOrder none

/-- The known address without its reference to bucket `i`. The last reference takes the
address along. -/
def dropRef (ka : KnownAddress) (i : Nat) : Option KnownAddress :=
  if ka.buckets.filter (· ≠ i) = [] then none
  else some { ka with buckets := ka.buckets.filter (· ≠ i) }

def expireNew (chance : Chance) (i : Nat) : Contents :=
  match c.victim chance with
  | none => c
  | some s => c.set s ((c.known s).bind fun ka => dropRef ka i)

/-! ### The calls -/

section
variable (env : Env)

noncomputable def addToNewBucket (chance : Chance) (ka : KnownAddress) (i : Nat) : Contents :=
  if i ∈ ka.buckets then c
  else
    let c := if newBucketSize < c.bucketSize .new i then c.expireNew chance i else c
    c.set (env.str ka.addr) (some { ka with buckets := ka.buckets ++ [i] })

/-- The known address that `addAddress` works on. -/
def pickKnown (chance : Chance) (addr src : NetAddress) : Option KnownAddress :=
  match c.known (env.str addr) with
  | none => some (newKnownAddress chance.now addr src)
  | some ka =>
    if ka.isOld ∨ ka.buckets.length = maxNewBucketsPerAddress ∨
        chance.draw % (2 * ka.buckets.length) ≠ 0 then none
    else some ka

noncomputable def addAddress (chance : Chance) (addr src : Option NetAddress) :
    Contents × Option Err :=
  match addr, src with
  | some addr, some src =>
    if env.str addr ∈ c.ourAddrs then
      (c, some (RootErr.errorf "add ourselves to address book").err)
    else if c.routabilityStrict = true ∧ env.routable addr = false then
      (c, some (RootErr.errorf "cannot add non-routable address").err)
    else
      match c.pickKnown env chance addr src with
      | none => (c, none)
      | some ka => (c.addToNewBucket env chance ka (c.blank.calcNewBucket env addr src), none)
  | _, _ => (c, some (RootErr.errorf "can't add nil to address book").err)

/-- The known address after `moveToOld`, which is none if the old bucket is full. -/
noncomputable def moved (ka : KnownAddress) : Option KnownAddress :=
  let i := c.blank.calcOldBucket env ka.addr
  if oldBucketSize < c.bucketSize .old i then none
  else some { ka with bucketType := .old, buckets := [i] }

noncomputable def markGood (now : Int) (addr : NetAddress) : Contents :=
  c.set (env.str addr) ((c.known (env.str addr)).bind fun ka =>
    if ka.isNew then c.moved env (ka.markGood now) else some (ka.markGood now))

def markAttempt (now : Int) (addr : NetAddress) : Contents :=
  c.set (env.str addr) ((c.known (env.str addr)).map fun ka => ka.markAttempt now)

def removeAddress (addr : NetAddress) : Contents := c.set (env.str addr) none

def addOurAddress (addr : NetAddress) : Contents :=
  { c with ourAddrs := c.ourAddrs.insert (env.str addr) addr }

end

@[simp] theorem known_set_self (s : Str) (v : Option KnownAddress) :
    (c.set s v).known s = v := Function.update_self ..

theorem known_set_of_ne {s s' : Str} (hne : s' ≠ s) (v : Option KnownAddress) :
    (c.set s v).known s' = c.known s' := Function.update_of_ne hne ..

theorem set_known_self (s : Str) : c.set s (c.known s) = c := by
  rw [set, Function.update_eq_self]

theorem set_set (s : Str) (v w : Option KnownAddress) : (c.set s v).set s w = c.set s w := by
  rw [set, set, Function.update_idem]
  rfl

/-! ### What the calls change -/

section
variable (env : Env) (chance : Chance)

theorem addToNewBucket_header (ka : KnownAddress) (i : Nat) :
    (c.addToNewBucket env chance ka i).routabilityStrict = c.routabilityStrict ∧
      (c.addToNewBucket env chance ka i).ourAddrs = c.ourAddrs := by
  unfold addToNewBucket expireNew
  split
  · exact ⟨rfl, rfl⟩
  · dsimp only [set]
    split
    · split <;> exact ⟨rfl, rfl⟩
    · exact ⟨rfl, rfl⟩

theorem addAddress_header (addr src : Option NetAddress) :
    (c.addAddress env chance addr src).1.routabilityStrict = c.routabilityStrict ∧
      (c.addAddress env chance addr src).1.ourAddrs = c.ourAddrs := by
  unfold addAddress
  split
  · split
    · exact ⟨rfl, rfl⟩
    · split
      · exact ⟨rfl, rfl⟩
      · split
        · exact ⟨rfl, rfl⟩
        · exact c.addToNewBucket_header env chance _ _
  · exact ⟨rfl, rfl⟩

variable {c} {s : Str}

/-- A string that is unknown stays so when its new value comes from its old one. -/
theorem known_set_none {s' : Str} (h : c.known s = none) {v : Option KnownAddress}
    (hv : c.known s' = none → v = none) : (c.set s' v).known s = none := by
  by_cases hs : s = s'
  · subst hs
    rw [known_set_self, hv h]
  · rw [known_set_of_ne c hs, h]

/-- What a new address has does not count for the old buckets. -/
theorem bucketSize_set_of_new {ka : KnownAddress} {v : Option KnownAddress}
    (hs : c.known s = some ka) (hnew : ka.bucketType = .new)
    (hv : ∀ ka', v = some ka' → ka'.bucketType = .new) (i : Nat) :
    (c.set s v).bucketSize .old i = c.bucketSize .old i := by
  have hset : (c.set s v).inBucket .old i = c.inBucket .old i := by
    ext s'
    simp only [inBucket, Set.mem_ofPred_eq]
    by_cases hss : s' = s
    · subst hss
      rw [known_set_self, hs]
      constructor
      · rintro ⟨ka', hka', hty, -⟩
        cases (hv ka' hka').symm.trans hty
      · rintro ⟨ka', hka', hty, -⟩
        cases Option.some.inj hka'
        cases hnew.symm.trans hty
    · rw [known_set_of_ne c hss]
  rw [bucketSize, hset, bucketSize]

theorem expireNew_known_none (h : c.known s = none) (i : Nat) :
    (c.expireNew chance i).known s = none := by
  unfold expireNew
  split
  · exact h
  · refine known_set_none h fun hnone => ?_
    rw [hnone, Option.bind_none]

theorem addToNewBucket_known_none (h : c.known s = none) {ka : KnownAddress}
    (hne : s ≠ env.str ka.addr) (i : Nat) : (c.addToNewBucket env chance ka i).known s = none := by
  unfold addToNewBucket
  split
  · exact h
  · dsimp only
    rw [known_set_of_ne _ hne]
    split
    · exact expireNew_known_none chance h i
    · exact h

theorem str_of_pickKnown {addr src : NetAddress} {ka : KnownAddress}
    (hstr : ∀ ka, c.known (env.str addr) = some ka → env.str ka.addr = env.str addr)
    (h : c.pickKnown env chance addr src = some ka) : env.str ka.addr = env.str addr := by
  unfold pickKnown at h
  split at h
  · cases h
    rfl
  · next ka' hka' =>
    split at h
    · cases h
    · cases h
      exact hstr _ hka'

/-- `addAddress` brings in the string of the address, unless it refuses the address, and no
other string. -/
theorem addAddress_known_none_iff (h : c.known s = none) {addr : NetAddress}
    (hstr : ∀ ka, c.known (env.str addr) = some ka → env.str ka.addr = env.str addr)
    (src : NetAddress) :
    (c.addAddress env chance (some addr) (some src)).1.known s = none ↔
      ¬ (env.str addr = s ∧ env.str addr ∉ c.ourAddrs ∧
        ¬ (c.routabilityStrict = true ∧ env.routable addr = false)) := by
  unfold addAddress
  dsimp only
  split
  · next hour => exact iff_of_true h fun hc => hc.2.1 hour
  next hour =>
  split
  · next hroute => exact iff_of_true h fun hc => hc.2.2 hroute
  next hroute =>
  by_cases hs : env.str addr = s
  · subst hs
    rw [pickKnown, h]
    refine iff_of_false ?_ fun hnot => hnot ⟨rfl, hour, hroute⟩
    -- A new known address is in no bucket yet, so it is set.
    simp [addToNewBucket, newKnownAddress]
  · refine iff_of_true ?_ fun hc => hs hc.1
    split
    · exact h
    · next ka hka =>
      refine addToNewBucket_known_none env chance h ?_ _
      rw [str_of_pickKnown env chance hstr hka]
      exact Ne.symm hs

end

end

end Contents

end BtmStats.Proofs.Pex
