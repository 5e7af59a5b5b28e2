import Mathlib.Data.List.AList
import BtmStats.Lib.BigEndian
import BtmStats.Spec.Errors
import BtmStats.Spec.Runtime

/-!
# `BtmStats.Spec.Pex.AddrBook`: the address book

The model of `p2p/pex/addrbook.go`. The lookup map and the buckets hold pointers to
known addresses; `heap` is what they point to. Each method runs under the lock of the
book, so it is one step. The text form, the routability and the group of an address
and the hash function are parameters. What a call leaves to chance is one too: the
readings of the clock, the order of iteration over a bucket and the random numbers.
The file path, the log and the save routine are left out.
-/

set_option autoImplicit false

namespace BtmStats.Spec.Pex

open Lib Spec

/-! ### Addresses

The model of `p2p/pex/know_address.go` and of the constants in `p2p/pex/param.go`. A
time is the number of nanoseconds since the zero `time.Time`. A function that reads
the clock takes its readings as a parameter, one for each call of `time.Now`.
-/

/-- `p2p.NetAddress`. An `IP` is nil or a slice of bytes, which may be empty. The field `str` caches
the result of `String` and is left out. -/
structure NetAddress where
  ip : Option (List UInt8)
  port : UInt16
  deriving DecidableEq, Repr

/-- The bytes of the `IP`; nil has none. -/
def NetAddress.bytes (na : NetAddress) : List UInt8 := na.ip.getD []

/-! ### Constants -/

/-- The constants of `p2p/pex/param.go`. -/
def oldBucketSize : Nat := 64

def oldBucketCount : Nat := 64

def oldBucketsPerGroup : Nat := 4

def newBucketSize : Nat := 64

def newBucketCount : Nat := 256

def newBucketsPerGroup : Nat := 32

def getSelectionPercent : Int := 23

def minGetSelection : Int := 32

def maxGetSelection : Int := 250

def maxNewBucketsPerAddress : Nat := 4

def numMissingDays : Int := 30

def numRetries : Int32 := 3

def maxFailures : Int32 := 10

def minBadDays : Int := 7

/-- `time.Minute` -/
def minute : Int := 60000000000

/-- `time.Hour` -/
def hour : Int := 60 * minute

/-! ### Known addresses -/

/-- `bucketTypeNew` and `bucketTypeOld`. -/
inductive BucketType where
  | new
  | old
  deriving DecidableEq, Repr

/-- An address with its source, its history and its buckets. -/
structure KnownAddress where
  addr : NetAddress
  src : NetAddress
  attempts : Int32
  lastAttempt : Int
  lastSuccess : Int
  bucketType : BucketType
  buckets : List Nat
  deriving DecidableEq

/-- `newKnownAddress`: a new address in no bucket. -/
def newKnownAddress (now : Int) (addr src : NetAddress) : KnownAddress :=
  ⟨addr, src, 0, now, 0, .new, []⟩

namespace KnownAddress

/-- `addBucketRef`: the number of references, or -1. -/
def addBucketRef (ka : KnownAddress) (bucketIdx : Nat) : KnownAddress × Int :=
  if bucketIdx ∈ ka.buckets then (ka, -1)
  else
    let ka := { ka with buckets := ka.buckets ++ [bucketIdx] }
    (ka, ka.buckets.length)

/-- `removeBucketRef`: the number of references, or -1. -/
def removeBucketRef (ka : KnownAddress) (bucketIdx : Nat) : KnownAddress × Int :=
  let buckets := ka.buckets.filter (· ≠ bucketIdx)
  -- Every copy of the index is filtered out, but only one may have been there.
  if (buckets.length : Int) ≠ (ka.buckets.length : Int) - 1 then (ka, -1)
  else ({ ka with buckets := buckets }, buckets.length)

/-- `isBad`. It reads the clock up to three times. -/
def isBad (ka : KnownAddress) (now : Nat → Int) : Bool :=
  if ka.bucketType = .old then false
  else if ka.lastAttempt > now 0 - minute ∧ ka.attempts ≠ 0 then true
  else if ka.lastAttempt < now 1 - numMissingDays * hour * 24 then true
  else if ka.lastSuccess = 0 ∧ ka.attempts ≥ numRetries then true
  else if ka.lastSuccess < now 2 - minBadDays * hour * 24 ∧ ka.attempts ≥ maxFailures then true
  else false

def isOld (ka : KnownAddress) : Bool := ka.bucketType = .old

def isNew (ka : KnownAddress) : Bool := ka.bucketType = .new

/-- `markAttempt` -/
def markAttempt (ka : KnownAddress) (now : Int) : KnownAddress :=
  { ka with lastAttempt := now, attempts := ka.attempts + 1 }

/-- `markGood` -/
def markGood (ka : KnownAddress) (now : Int) : KnownAddress :=
  { ka with lastAttempt := now, lastSuccess := now, attempts := 0 }

end KnownAddress

/-- What the book uses of other packages: `String` and `Routable` of an address,
`groupKey` for each value of `routabilityStrict`, and `crypto.DoubleSha256`. -/
structure Env where
  str : NetAddress → Str
  routable : NetAddress → Bool
  groupKey : Bool → NetAddress → Str
  doubleSha256 : List UInt8 → FixedBytes 32

/-- What a call leaves to chance. `clock k i` is reading `i` of the clock for the
`k`-th known address visited. -/
structure Chance where
  now : Int
  clock : Nat → Nat → Int
  badOrder : IterOrder Nat
  oldestOrder : IterOrder Nat
  draw : Nat

/-- A bucket, and `addrLookup`: pointers by the text form of their address. -/
abbrev Bucket := AList (fun _ : Str => Nat)

/-- The pointers in a map, in some order. -/
def Bucket.pointers (bucket : Bucket) : List Nat := bucket.entries.map Sigma.snd

/-- The book. Known addresses are on a heap, and the tables hold pointers. -/
structure AddrBook where
  routabilityStrict : Bool
  key : Str
  ourAddrs : AList (fun _ : Str => NetAddress)
  heap : List KnownAddress
  addrLookup : Bucket
  bucketsNew : List Bucket
  bucketsOld : List Bucket
  nOld : Int
  nNew : Int

/-- `NewAddrBook` with the key that it draws. -/
def newAddrBook (routabilityStrict : Bool) (key : Str) : AddrBook :=
  ⟨routabilityStrict, key, ∅, [], ∅, List.replicate newBucketCount ∅,
    List.replicate oldBucketCount ∅, 0, 0⟩

namespace AddrBook

/-! ### Access -/

/-- The buckets of a type. -/
def buckets (a : AddrBook) : BucketType → List Bucket
  | .new => a.bucketsNew
  | .old => a.bucketsOld

/-- `getBucket`, which indexes the slice. -/
def getBucket (a : AddrBook) (bucketType : BucketType) (bucketIdx : Nat) : Except Panic Bucket :=
  orPanic .indexOutOfRange (a.buckets bucketType)[bucketIdx]?

/-- The book after a write to the bucket. -/
def setBucket (a : AddrBook) (bucketType : BucketType) (bucketIdx : Nat) (bucket : Bucket) :
    AddrBook :=
  match bucketType with
  | .new => { a with bucketsNew := a.bucketsNew.set bucketIdx bucket }
  | .old => { a with bucketsOld := a.bucketsOld.set bucketIdx bucket }

/-- What a pointer points to. -/
def deref (a : AddrBook) (p : Nat) : Except Panic KnownAddress :=
  orPanic .nilDereference a.heap[p]?

def setKnown (a : AddrBook) (p : Nat) (ka : KnownAddress) : AddrBook :=
  { a with heap := a.heap.set p ka }

/-- `nNew` or `nOld` changed by `d`. -/
def addCount (a : AddrBook) (bucketType : BucketType) (d : Int) : AddrBook :=
  match bucketType with
  | .new => { a with nNew := a.nNew + d }
  | .old => { a with nOld := a.nOld + d }

/-- `size` -/
def size (a : AddrBook) : Int := a.nNew + a.nOld

section
variable (env : Env)

/-! ### Bucket indices -/

/-- The second half of `calcNewBucket` and `calcOldBucket`: the first eight bytes of
the first hash, reduced to `perGroup`, are hashed with the group. -/
def calcBucket (a : AddrBook) (hash1 : FixedBytes 32) (perGroup : Nat) (group : Str)
    (count : Nat) : Nat :=
  let hash64 := ofBytesBE (hash1.1.take 8) % perGroup
  let hashbuf := toBytesBE 8 hash64
  let hash2 := env.doubleSha256 (a.key ++ group ++ hashbuf)
  ofBytesBE (hash2.1.take 8) % count

/-- `calcNewBucket`: by the groups of the address and of its source. -/
def calcNewBucket (a : AddrBook) (addr src : NetAddress) : Nat :=
  let groupKey := env.groupKey a.routabilityStrict
  let hash1 := env.doubleSha256 (a.key ++ groupKey addr ++ groupKey src)
  calcBucket env a hash1 newBucketsPerGroup (groupKey src) newBucketCount

/-- `calcOldBucket`: by the address and its group. -/
def calcOldBucket (a : AddrBook) (addr : NetAddress) : Nat :=
  let hash1 := env.doubleSha256 (a.key ++ env.str addr)
  calcBucket env a hash1 oldBucketsPerGroup (env.groupKey a.routabilityStrict addr) oldBucketCount

/-! ### Removal -/

/-- `removeFromBucket` -/
def removeFromBucket (a : AddrBook) (p : Nat) (bucketIdx : Nat) : Except Panic AddrBook := do
  let ka ← a.deref p
  let bucket ← a.getBucket ka.bucketType bucketIdx
  let a := a.setBucket ka.bucketType bucketIdx (bucket.erase (env.str ka.addr))
  let (ka', n) := ka.removeBucketRef bucketIdx
  let a := a.setKnown p ka'
  -- With its last reference the address leaves the book.
  if n = 0 then
    let a := { a with addrLookup := a.addrLookup.erase (env.str ka.addr) }
    return a.addCount ka.bucketType (-1)
  else return a

/-- The loop of `removeFromAllBuckets`. -/
def eraseFromBuckets (s : Str) (bucketType : BucketType) :
    List Nat → AddrBook → Except Panic AddrBook
  | [], a => .ok a
  | bucketIdx :: rest, a => do
      let bucket ← a.getBucket bucketType bucketIdx
      eraseFromBuckets s bucketType rest (a.setBucket bucketType bucketIdx (bucket.erase s))

/-- `removeFromAllBuckets` -/
def removeFromAllBuckets (a : AddrBook) (p : Nat) : Except Panic AddrBook := do
  let ka ← a.deref p
  let a := { a with addrLookup := a.addrLookup.erase (env.str ka.addr) }
  let a ← eraseFromBuckets (env.str ka.addr) ka.bucketType ka.buckets a
  let a := a.setKnown p { ka with buckets := [] }
  return a.addCount ka.bucketType (-1)

/-- The loop of `pickOldest`, with the pointer that it has so far. -/
def oldestLoop (a : AddrBook) : List Nat → Option Nat → Except Panic (Option Nat)
  | [], oldest => .ok oldest
  | p :: rest, none => oldestLoop a rest (some p)
  | p :: rest, some oldest => do
      let ka ← a.deref p
      let kaOldest ← a.deref oldest
      oldestLoop a rest (some (if ka.lastAttempt < kaOldest.lastAttempt then p else oldest))

/-- `pickOldest`: the one with the oldest attempt, the first on a tie. -/
def pickOldest (a : AddrBook) (order : IterOrder Nat) (bucketType : BucketType)
    (bucketIdx : Nat) : Except Panic (Option Nat) := do
  let bucket ← a.getBucket bucketType bucketIdx
  oldestLoop a (order.apply bucket.pointers) none

/-- The loop of `expireNew`: the first bad known address. -/
def firstBad (a : AddrBook) (clock : Nat → Nat → Int) : List Nat → Nat → Except Panic (Option Nat)
  | [], _ => .ok none
  | p :: rest, k => do
      let ka ← a.deref p
      if ka.isBad (clock k) then return some p else firstBad a clock rest (k + 1)

/-- `expireNew`: a bad address of the bucket goes, or the oldest one. -/
def expireNew (a : AddrBook) (chance : Chance) (bucketIdx : Nat) : Except Panic AddrBook := do
  let bucket ← a.getBucket .new bucketIdx
  match ← firstBad a chance.clock (chance.badOrder.apply bucket.pointers) 0 with
  | some p => a.removeFromBucket env p bucketIdx
  | none =>
    let oldest ← a.pickOldest chance.oldestOrder .new bucketIdx
    let p ← orPanic .nilDereference oldest
    a.removeFromBucket env p bucketIdx

/-! ### Addition -/

/-- The end of `addToNewBucket` and `addToOldBucket`: the known address at `p` gets into
the bucket and into `addrLookup`, and the counter is raised at its first reference. -/
def fileKnown (a : AddrBook) (bucketType : BucketType) (p : Nat) (bucketIdx : Nat) :
    Except Panic AddrBook := do
  let ka ← a.deref p
  let addrStr := env.str ka.addr
  let bucket ← a.getBucket bucketType bucketIdx
  let a := a.setBucket bucketType bucketIdx (bucket.insert addrStr p)
  let a := { a with addrLookup := a.addrLookup.insert addrStr p }
  -- `addBucketRef` gives -1 for a bucket that is listed already, so the counter is raised
  -- once only.
  let (ka, n) := ka.addBucketRef bucketIdx
  let a := a.setKnown p ka
  return if n = 1 then a.addCount bucketType 1 else a

/-- `addToNewBucket`: a bucket of more than 64 loses one first. -/
def addToNewBucket (a : AddrBook) (chance : Chance) (p : Nat) (bucketIdx : Nat) :
    Except Panic (AddrBook × Option Err) := do
  let ka ← a.deref p
  if ka.isOld then return (a, some (RootErr.errorf "cant add old address to new bucket").err)
  let bucket ← a.getBucket .new bucketIdx
  if env.str ka.addr ∈ bucket then return (a, none)
  -- The bucket is read before the eviction, but it is the same map, so the insertion sees
  -- the eviction.
  let a ← if bucket.entries.length > newBucketSize then a.expireNew env chance bucketIdx else .ok a
  return (← a.fileKnown env .new p bucketIdx, none)

/-- `addToOldBucket`, which refuses when there are more than 64 already. -/
def addToOldBucket (a : AddrBook) (p : Nat) (bucketIdx : Nat) :
    Except Panic (AddrBook × Option Err) := do
  let ka ← a.deref p
  if ka.isNew then return (a, some (RootErr.errorf "cannot add old address to new bucket").err)
  if ka.buckets.length ≠ 0 then
    return (a, some (RootErr.errorf "cannot add already old address to another old bucket").err)
  let bucket ← a.getBucket .old bucketIdx
  if bucket.entries.length > oldBucketSize then
    return (a, some (RootErr.errorf "old bucket is full").err)
  return (← a.fileKnown env .old p bucketIdx, none)

/-- `moveToOld`: out of the new buckets and into an old one. -/
def moveToOld (a : AddrBook) (p : Nat) : Except Panic (AddrBook × Option Err) := do
  let ka ← a.deref p
  if ka.isOld then
    return (a, some (RootErr.errorf "cannot promote address that is already old").err)
  if ka.buckets.length = 0 then
    return (a, some (RootErr.errorf "cannot promote address that isn't in any new buckets").err)
  -- From here on an error of `addToOldBucket` leaves the address out of the book.
  let a ← a.removeFromAllBuckets env p
  let ka ← a.deref p
  let a := a.setKnown p { ka with bucketType := .old }
  a.addToOldBucket env p (a.calcOldBucket env ka.addr)

/-- `Int31n` and `Intn` of package `math/rand`: the draw reduced to `[0, n)`. -/
def intn (draw : Nat) (n : Int) : Except Panic Nat :=
  if n ≤ 0 then .error .invalidArgument else .ok (draw % n.toNat)

/-- The known address that `addAddress` works on: the one in the book, unless nothing
is to be done for it, or a new one. -/
def pickKnown (a : AddrBook) (chance : Chance) (addr src : NetAddress) :
    Except Panic (AddrBook × Option Nat) := do
  match a.addrLookup.lookup (env.str addr) with
  | some p =>
    let ka ← a.deref p
    if ka.isOld then return (a, none)
    if ka.buckets.length = maxNewBucketsPerAddress then return (a, none)
    let r ← intn chance.draw (2 * (ka.buckets.length : Int))
    -- The more buckets hold the address, the less likely it gets another one.
    return (a, if r ≠ 0 then none else some p)
  | none =>
    return ({ a with heap := a.heap ++ [newKnownAddress chance.now addr src] },
      some a.heap.length)

/-- `addAddress` -/
def addAddress (a : AddrBook) (chance : Chance) (addr src : Option NetAddress) :
    Except Panic (AddrBook × Option Err) := do
  match addr, src with
  | some addr, some src =>
    if env.str addr ∈ a.ourAddrs then
      return (a, some (RootErr.errorf "add ourselves to address book").err)
    if a.routabilityStrict = true ∧ env.routable addr = false then
      return (a, some (RootErr.errorf "cannot add non-routable address").err)
    match ← a.pickKnown env chance addr src with
    | (a, none) => return (a, none)
    | (a, some p) => a.addToNewBucket env chance p (a.calcNewBucket env addr src)
  | _, _ => return (a, some (RootErr.errorf "can't add nil to address book").err)

/-! ### The other methods -/

/-- `AddOurAddress` -/
def addOurAddress (a : AddrBook) (addr : NetAddress) : AddrBook :=
  { a with ourAddrs := a.ourAddrs.insert (env.str addr) addr }

/-- `MarkGood`. The error of `moveToOld` is logged only. -/
def markGood (a : AddrBook) (now : Int) (addr : NetAddress) : Except Panic AddrBook := do
  match a.addrLookup.lookup (env.str addr) with
  | none => return a
  | some p =>
    let ka ← a.deref p
    let a := a.setKnown p (ka.markGood now)
    if ka.isNew then
      let (a, _) ← a.moveToOld env p
      return a
    else return a

/-- `MarkAttempt` -/
def markAttempt (a : AddrBook) (now : Int) (addr : NetAddress) : Except Panic AddrBook := do
  match a.addrLookup.lookup (env.str addr) with
  | none => return a
  | some p =>
    let ka ← a.deref p
    return a.setKnown p (ka.markAttempt now)

/-- `RemoveAddress` -/
def removeAddress (a : AddrBook) (addr : NetAddress) : Except Panic AddrBook :=
  match a.addrLookup.lookup (env.str addr) with
  | none => .ok a
  | some p => a.removeFromAllBuckets env p

end

/-! ### Selection -/

/-- `allAddr[i], allAddr[j] = allAddr[j], allAddr[i]` -/
def swap {α : Type} (l : List α) (i j : Nat) : Except Panic (List α) := do
  let x ← orPanic .indexOutOfRange l[i]?
  let y ← orPanic .indexOutOfRange l[j]?
  return (l.set i y).set j x

/-- The loop of `GetSelection` from `i` on, with `k` iterations to go. -/
def selectLoop {α : Type} (draws : Nat → Nat) : Nat → Nat → List α → Except Panic (List α)
  | 0, _, allAddr => .ok allAddr
  | k + 1, i, allAddr => do
      let r ← intn (draws i) ((allAddr.length : Int) - (i : Int))
      let allAddr ← swap allAddr i (r + i)
      selectLoop draws k (i + 1) allAddr

/-- The addresses that `GetSelection` collects. -/
def allAddr (a : AddrBook) (order : IterOrder Nat) : Except Panic (List NetAddress) :=
  (order.apply a.addrLookup.pointers).mapM fun p => (a.deref p).map KnownAddress.addr

/-- How many addresses `GetSelection` returns. -/
def numAddresses (a : AddrBook) : Int :=
  min maxGetSelection (max (min minGetSelection a.size) ((a.size * getSelectionPercent).tdiv 100))

/-- `GetSelection`: the first ones after a partial shuffle. -/
def getSelection (a : AddrBook) (order : IterOrder Nat) (draws : Nat → Nat) :
    Except Panic (List NetAddress) := do
  if a.size = 0 then return []
  let allAddr ← a.allAddr order
  let allAddr ← selectLoop draws a.numAddresses.toNat 0 allAddr
  if a.numAddresses < 0 ∨ (allAddr.length : Int) < a.numAddresses then throw .sliceBounds
  return allAddr.take a.numAddresses.toNat

/-- `PickAddress` enters its search. `pickFromOldBucket` is the outcome of the float
comparison, which is left open. -/
def entersSearch (a : AddrBook) (pickFromOldBucket : Bool) : Bool :=
  decide (a.size ≠ 0) &&
    !((pickFromOldBucket && decide (a.nOld = 0)) || (!pickFromOldBucket && decide (a.nNew = 0)))

/-- The search of `PickAddress` with at most `fuel` draws: the bucket found, and the
number of draws. -/
def searchLoop (buckets : List Bucket) (draws : Nat → Nat) : Nat → Nat →
    Except Panic (Option (Bucket × Nat))
  | 0, _ => .ok none
  | fuel + 1, k => do
      let i ← intn (draws k) buckets.length
      let bucket ← orPanic .indexOutOfRange buckets[i]?
      -- An empty bucket is drawn again; the source has no bound on the draws.
      if bucket.entries.length = 0 then searchLoop buckets draws fuel (k + 1)
      else return some (bucket, k + 1)

/-- `PickAddress`. The outer `none` says that the search has not ended after `fuel`
draws. -/
def pickAddress (a : AddrBook) (pickFromOldBucket : Bool) (order : IterOrder Nat)
    (draws : Nat → Nat) (fuel : Nat) : Except Panic (Option (Option NetAddress)) := do
  if a.entersSearch pickFromOldBucket = false then return some none
  let bucketType := if pickFromOldBucket then .old else .new
  match ← searchLoop (a.buckets bucketType) draws fuel 0 with
  | none => return none
  | some (bucket, k) =>
    let randIndex ← intn (draws k) bucket.entries.length
    match (order.apply bucket.pointers)[randIndex]? with
    -- The source falls through its loop over the bucket and returns nil.
    | none => return some none
    | some p => return some (some (← a.deref p).addr)

/-! ### Runs -/

/-- The calls that change the book. -/
inductive Op where
  | addAddress (chance : Chance) (addr src : Option NetAddress)
  | markGood (now : Int) (addr : NetAddress)
  | markAttempt (now : Int) (addr : NetAddress)
  | removeAddress (addr : NetAddress)
  | addOurAddress (addr : NetAddress)

/-- One call that changes the book. -/
def step (env : Env) (a : AddrBook) : Op → Except Panic AddrBook
  | .addAddress chance addr src => (a.addAddress env chance addr src).map Prod.fst
  | .markGood now addr => a.markGood env now addr
  | .markAttempt now addr => a.markAttempt env now addr
  | .removeAddress addr => a.removeAddress env addr
  | .addOurAddress addr => .ok (a.addOurAddress env addr)

/-- A sequence of calls. -/
def run (env : Env) (a : AddrBook) (ops : List Op) : Except Panic AddrBook :=
  ops.foldlM (AddrBook.step env) a

end AddrBook

end BtmStats.Spec.Pex
