import Mathlib.Data.Finset.Card
import BtmStats.Lib.Arena
import BtmStats.Proofs.Pex.Contents

/-!
# `BtmStats.Proofs.Pex.AddrBook`: the representation invariant of the address book

The invariant is stated for each address string on its own: `RowOk a s` says what the
lookup map, the heap and all buckets have for `s`. A change to the book concerns one
string: `Update s a a'` says that the other strings are where they were, that `s` is in
order again, and that the counters follow. `RepInv.update` puts this together, so each
helper of the book needs one `Update`.

`contents` is the abstraction function to `Contents`. An update of one string is a `set`
there (`Update.contents_eq`), and the lemma about a helper says to which value.
-/

set_option autoImplicit false

namespace BtmStats.Proofs.Pex

open Lib Spec Spec.Pex

/-! ### What a book has for a string -/

/-- The pointer that bucket `i` of a type has for a string. -/
def bucketGet (a : AddrBook) (t : BucketType) (i : Nat) (s : Str) : Option Nat :=
  (a.buckets t)[i]?.bind fun bucket => bucket.lookup s

/-- `nNew` or `nOld`. -/
def count (a : AddrBook) : BucketType → Int
  | .new => a.nNew
  | .old => a.nOld

def bucketCount : BucketType → Nat
  | .new => newBucketCount
  | .old => oldBucketCount

/-- The known address that `addrLookup` has for a string. -/
def known? (a : AddrBook) (s : Str) : Option KnownAddress :=
  (a.addrLookup.lookup s).bind fun p => a.heap[p]?

/-- The known address of every string of the book. -/
def contents (a : AddrBook) : Contents := ⟨a.routabilityStrict, a.key, a.ourAddrs, known? a⟩

/-- The strings in `addrLookup` whose known address has a type. -/
def knownOf (a : AddrBook) (t : BucketType) : Finset Str :=
  a.addrLookup.keys.toFinset.filter fun s => (known? a s).map KnownAddress.bucketType = some t

/-- A new address has one to four different references, an old one has one. -/
def RefsOk (ka : KnownAddress) : Prop :=
  match ka.bucketType with
  | .new => 1 ≤ ka.buckets.length ∧ ka.buckets.length ≤ maxNewBucketsPerAddress ∧ ka.buckets.Nodup
  | .old => ka.buckets.length = 1

/-- The buckets have a string exactly where its known address refers to. -/
def Filed (a : AddrBook) (s : Str) (p : Nat) (ka : KnownAddress) : Prop :=
  ∀ t i q, bucketGet a t i s = some q ↔ q = p ∧ ka.bucketType = t ∧ i ∈ ka.buckets

/-- What the book has for a string that is in it. -/
structure Row (env : Env) (a : AddrBook) (s : Str) (p : Nat) (ka : KnownAddress) : Prop where
  heap : a.heap[p]? = some ka
  str : env.str ka.addr = s
  refs : RefsOk ka
  filed : Filed a s p ka

/-- What the book has for a string: a known address in order, or nothing at all. -/
def RowOk (env : Env) (a : AddrBook) (s : Str) : Prop :=
  match a.addrLookup.lookup s with
  | some p => ∃ ka, Row env a s p ka
  | none => ∀ t i, bucketGet a t i s = none

/-- The representation invariant. -/
structure RepInv (env : Env) (a : AddrBook) : Prop where
  length : ∀ t, (a.buckets t).length = bucketCount t
  rows : ∀ s, RowOk env a s
  count_eq : ∀ t, count a t = (knownOf a t).card

section
variable {env : Env} {a a' : AddrBook} {s : Str} {p : Nat} {ka : KnownAddress}

theorem RowOk.of_some (h : RowOk env a s) (hs : a.addrLookup.lookup s = some p) :
    ∃ ka, Row env a s p ka := by
  rw [RowOk, hs] at h
  exact h

theorem RowOk.of_none (h : RowOk env a s) (hs : a.addrLookup.lookup s = none) :
    ∀ t i, bucketGet a t i s = none := by
  rw [RowOk, hs] at h
  exact h

theorem known_of_row (hs : a.addrLookup.lookup s = some p) (hp : a.heap[p]? = some ka) :
    known? a s = some ka := Option.bind_eq_some_iff.mpr ⟨p, hs, hp⟩

theorem contents_known_none (hs : a.addrLookup.lookup s = none) :
    (contents a).known s = none := by
  show known? a s = none
  rw [known?, hs]
  rfl

/-- Nothing is removed with an address that the book does not have. -/
theorem contents_set_none (hs : a.addrLookup.lookup s = none) :
    (contents a).set s none = contents a := by
  rw [← contents_known_none hs, Contents.set_known_self]

theorem RepInv.row_of_known (h : RepInv env a) (hs : known? a s = some ka) :
    ∃ p, a.addrLookup.lookup s = some p ∧ Row env a s p ka := by
  obtain ⟨p, hp, hheap⟩ := Option.bind_eq_some_iff.mp hs
  obtain ⟨ka', hrow⟩ := (h.rows s).of_some hp
  obtain rfl : ka = ka' := Option.some.inj (hheap.symm.trans hrow.heap)
  exact ⟨p, hp, hrow⟩

/-- The pointer of a string leads to its known address. -/
theorem RepInv.known_of_lookup (h : RepInv env a) (hs : a.addrLookup.lookup s = some p) :
    ∃ ka, Row env a s p ka ∧ (contents a).known s = some ka := by
  obtain ⟨ka, hrow⟩ := (h.rows s).of_some hs
  exact ⟨ka, hrow, known_of_row hs hrow.heap⟩

/-- The known address of a string is one that the lookup map has. -/
theorem RepInv.known_isSome_iff (h : RepInv env a) (s : Str) :
    (known? a s).isSome ↔ s ∈ a.addrLookup := by
  rw [← AList.lookup_isSome]
  cases hs : a.addrLookup.lookup s with
  | none => simp [known?, hs]
  | some p =>
    obtain ⟨ka, hrow⟩ := (h.rows s).of_some hs
    simp [known_of_row hs hrow.heap]

variable {i : Nat} {t : BucketType} {v : Option Nat}

theorem mem_knownOf : s ∈ knownOf a t ↔ ∃ ka, known? a s = some ka ∧ ka.bucketType = t := by
  rw [knownOf, Finset.mem_filter, List.mem_toFinset, Option.map_eq_some_iff, and_iff_right_iff_imp]
  rintro ⟨ka, hka, -⟩
  obtain ⟨p, hp, -⟩ := Option.bind_eq_some_iff.mp hka
  exact AList.mem_keys.mp (AList.lookup_isSome.mp (by rw [hp]; rfl))

theorem mem_knownOf_iff (hs : a.addrLookup.lookup s = some p) (hp : a.heap[p]? = some ka)
    (t : BucketType) : s ∈ knownOf a t ↔ t = ka.bucketType := by
  have hka : known? a s = some ka := Option.bind_eq_some_iff.mpr ⟨p, hs, hp⟩
  rw [mem_knownOf, hka]
  constructor
  · rintro ⟨_, h, rfl⟩
    rw [Option.some.inj h]
  · rintro rfl
    exact ⟨ka, rfl, rfl⟩

theorem not_mem_knownOf (hs : a.addrLookup.lookup s = none) (t : BucketType) :
    s ∉ knownOf a t := by
  rw [mem_knownOf, known?, hs]
  rintro ⟨_, h, -⟩
  cases h

/-! ### One string changes -/

/-- Nothing changes for a string. -/
structure SameAt (s : Str) (a a' : AddrBook) : Prop where
  lookup : a'.addrLookup.lookup s = a.addrLookup.lookup s
  buckets : ∀ t i, bucketGet a' t i s = bucketGet a t i s
  heap : ∀ p, a.addrLookup.lookup s = some p → a'.heap[p]? = a.heap[p]?

theorem SameAt.known (h : SameAt s a a') : known? a' s = known? a s := by
  rw [known?, known?, h.lookup]
  cases hp : a.addrLookup.lookup s with
  | none => rfl
  | some p => exact h.heap p hp

theorem SameAt.rowOk (hs : SameAt s a a') (h : RowOk env a s) : RowOk env a' s := by
  rw [RowOk, hs.lookup]
  cases hp : a.addrLookup.lookup s with
  | none =>
    intro t i
    rw [hs.buckets]
    exact h.of_none hp t i
  | some p =>
    obtain ⟨ka, hrow⟩ := h.of_some hp
    refine ⟨ka, (hs.heap p hp).trans hrow.heap, hrow.str, hrow.refs, fun t i q => ?_⟩
    rw [hs.buckets]
    exact hrow.filed t i q

/-- A change to the book that concerns the string `s` only, and leaves it in order. The
counters change as the type of `s` does. -/
structure Update (env : Env) (s : Str) (a a' : AddrBook) : Prop where
  length : ∀ t, (a'.buckets t).length = (a.buckets t).length
  frame : ∀ s', s' ≠ s → SameAt s' a a'
  row : RowOk env a' s
  count_eq : ∀ t, count a' t + (if s ∈ knownOf a t then 1 else 0) =
    count a t + (if s ∈ knownOf a' t then 1 else 0)

/-- The number of elements of two sets that differ in one element at most. -/
theorem card_add_of_agree {α : Type} [DecidableEq α] {x : α} {A B : Finset α}
    (h : ∀ y, y ≠ x → (y ∈ B ↔ y ∈ A)) :
    (B.card : Int) + (if x ∈ A then 1 else 0) = A.card + (if x ∈ B then 1 else 0) := by
  -- Without `x` the two sets are one.
  have herase : B.erase x = A.erase x := by
    ext y
    rw [Finset.mem_erase, Finset.mem_erase, and_congr_right_iff]
    exact h y
  have hcard : ∀ C : Finset α, (C.card : Int) = (C.erase x).card + (if x ∈ C then 1 else 0) := by
    intro C
    split
    · next hx => rw [← Finset.card_erase_add_one hx]; push_cast; rfl
    · next hx => rw [Finset.erase_eq_of_notMem hx, add_zero]
  rw [hcard A, hcard B, herase]
  omega

/-- A change that concerns one string keeps the invariant. -/
theorem RepInv.update (h : RepInv env a) (hu : Update env s a a') : RepInv env a' := by
  refine ⟨fun t => (hu.length t).trans (h.length t), fun s' => ?_, fun t => ?_⟩
  · by_cases hs : s' = s
    · rw [hs]
      exact hu.row
    · exact (hu.frame s' hs).rowOk (h.rows s')
  · have hagree : ∀ s', s' ≠ s → (s' ∈ knownOf a' t ↔ s' ∈ knownOf a t) := by
      intro s' hs
      rw [mem_knownOf, mem_knownOf, (hu.frame s' hs).known]
    have hcard := card_add_of_agree hagree
    have hcount := hu.count_eq t
    rw [h.count_eq t] at hcount
    omega

/-- What no method of the book but `AddOurAddress` and `loadFromFile` changes. -/
def header (a : AddrBook) : Bool × Str × AList (fun _ : Str => NetAddress) :=
  (a.routabilityStrict, a.key, a.ourAddrs)

/-- A change that concerns one string sets what the contents have for it. -/
theorem Update.contents_eq (hu : Update env s a a') (hhead : header a' = header a)
    {v : Option KnownAddress} (hself : known? a' s = v) :
    contents a' = (contents a).set s v := by
  simp only [header, Prod.mk.injEq] at hhead
  refine Contents.ext hhead.1 hhead.2.1 hhead.2.2 (funext fun s' => ?_)
  show known? a' s' = Function.update (known? a) s v s'
  by_cases hs : s' = s
  · rw [hs, Function.update_self, hself]
  · rw [Function.update_of_ne hs, (hu.frame s' hs).known]

/-! ### Access -/

theorem getBucket_eq_ok {bucket : Bucket} :
    a.getBucket t i = .ok bucket ↔ (a.buckets t)[i]? = some bucket := by
  rw [AddrBook.getBucket]
  cases (a.buckets t)[i]? with
  | none => simp
  | some b => simp

theorem deref_eq_ok : a.deref p = .ok ka ↔ a.heap[p]? = some ka := by
  rw [AddrBook.deref]
  cases a.heap[p]? with
  | none => simp
  | some k => simp

@[simp] theorem addrLookup_setBucket (a : AddrBook) (t : BucketType) (i : Nat) (b : Bucket) :
    (a.setBucket t i b).addrLookup = a.addrLookup := by
  cases t <;> rfl

@[simp] theorem heap_setBucket (a : AddrBook) (t : BucketType) (i : Nat) (b : Bucket) :
    (a.setBucket t i b).heap = a.heap := by
  cases t <;> rfl

@[simp] theorem count_setBucket (a : AddrBook) (t t' : BucketType) (i : Nat) (b : Bucket) :
    count (a.setBucket t i b) t' = count a t' := by
  cases t <;> cases t' <;> rfl

theorem buckets_setBucket (a : AddrBook) (t t' : BucketType) (i : Nat) (b : Bucket) :
    (a.setBucket t i b).buckets t' = if t' = t then (a.buckets t').set i b else a.buckets t' := by
  cases t <;> cases t' <;> rfl

@[simp] theorem length_buckets_setBucket (a : AddrBook) (t t' : BucketType) (i : Nat) (b : Bucket) :
    ((a.setBucket t i b).buckets t').length = (a.buckets t').length := by
  rw [buckets_setBucket]
  split
  · exact List.length_set
  · rfl

theorem bucketGet_setBucket {old : Bucket} (hi : (a.buckets t)[i]? = some old) (b : Bucket)
    (t' : BucketType) (i' : Nat) (s : Str) :
    bucketGet (a.setBucket t i b) t' i' s =
      if t' = t ∧ i' = i then b.lookup s else bucketGet a t' i' s := by
  rw [bucketGet, buckets_setBucket]
  by_cases ht : t' = t
  · subst ht
    rw [if_pos rfl]
    by_cases hii : i' = i
    · subst hii
      rw [if_pos ⟨rfl, rfl⟩, getElem?_set_of_some hi _]
      rfl
    · rw [if_neg (fun h => hii h.2), List.getElem?_set_ne (Ne.symm hii)]
      rfl
  · rw [if_neg ht, if_neg (fun h => ht h.1)]
    rfl

/-- One string of one bucket changes. -/
theorem bucketGet_setBucket_of_lookup {bucket bucket' : Bucket}
    (hi : (a.buckets t)[i]? = some bucket) {s : Str}
    (hlook : ∀ s', bucket'.lookup s' = if s' = s then v else bucket.lookup s') (t' : BucketType)
    (j : Nat) (s' : Str) :
    bucketGet (a.setBucket t i bucket') t' j s' =
      if t' = t ∧ j = i ∧ s' = s then v else bucketGet a t' j s' := by
  rw [bucketGet_setBucket hi, hlook]
  by_cases htj : t' = t ∧ j = i
  · obtain ⟨rfl, rfl⟩ := htj
    -- In the bucket that changes, the other strings are where they were.
    have hold : bucketGet a t' j s' = bucket.lookup s' := by
      rw [bucketGet, hi]
      rfl
    simp only [and_self, if_true, true_and, hold]
  · rw [if_neg htj, if_neg fun h => htj ⟨h.1, h.2.1⟩]

@[simp] theorem addrLookup_addCount (a : AddrBook) (t : BucketType) (d : Int) :
    (a.addCount t d).addrLookup = a.addrLookup := by
  cases t <;> rfl

@[simp] theorem heap_addCount (a : AddrBook) (t : BucketType) (d : Int) :
    (a.addCount t d).heap = a.heap := by
  cases t <;> rfl

@[simp] theorem buckets_addCount (a : AddrBook) (t t' : BucketType) (d : Int) :
    (a.addCount t d).buckets t' = a.buckets t' := by
  cases t <;> cases t' <;> rfl

@[simp] theorem bucketGet_addCount (a : AddrBook) (t t' : BucketType) (d : Int) (j : Nat)
    (s : Str) : bucketGet (a.addCount t d) t' j s = bucketGet a t' j s := by
  rw [bucketGet, buckets_addCount]
  rfl

theorem count_addCount (a : AddrBook) (t t' : BucketType) (d : Int) :
    count (a.addCount t d) t' = count a t' + (if t' = t then d else 0) := by
  cases t <;> cases t' <;> simp [count, AddrBook.addCount]

@[simp] theorem header_setBucket (a : AddrBook) (t : BucketType) (i : Nat) (b : Bucket) :
    header (a.setBucket t i b) = header a := by
  cases t <;> rfl

@[simp] theorem header_addCount (a : AddrBook) (t : BucketType) (d : Int) :
    header (a.addCount t d) = header a := by
  cases t <;> rfl

@[simp] theorem header_setKnown (a : AddrBook) (p : Nat) (ka : KnownAddress) :
    header (a.setKnown p ka) = header a := rfl

@[simp] theorem header_addrLookup (a : AddrBook) (lookup : Bucket) :
    header { a with addrLookup := lookup } = header a := rfl

theorem addCount_zero (a : AddrBook) (t : BucketType) : a.addCount t 0 = a := by
  cases t <;> simp [AddrBook.addCount]

/-! ### A reference is added -/

/-- The book after the bucket `i` of a type got the known address `ka` at `p`. -/
def insertRef (env : Env) (a : AddrBook) (p : Nat) (ka : KnownAddress) (i : Nat)
    (bucket : Bucket) : AddrBook :=
  let a' := a.setBucket ka.bucketType i (bucket.insert (env.str ka.addr) p)
  let a' := { a' with addrLookup := a'.addrLookup.insert (env.str ka.addr) p }
  (a'.setKnown p { ka with buckets := ka.buckets ++ [i] }).addCount ka.bucketType
    (if ka.buckets = [] then 1 else 0)

/-- The known address at `p` is the one that the book has for its string, or the book
has none for it and the known address refers to no bucket. -/
structure Loose (env : Env) (a : AddrBook) (p : Nat) (ka : KnownAddress) : Prop where
  heap : a.heap[p]? = some ka
  filed : Filed a (env.str ka.addr) p ka
  lookup : (a.addrLookup.lookup (env.str ka.addr) = some p ∧ ka.buckets ≠ []) ∨
    (a.addrLookup.lookup (env.str ka.addr) = none ∧ ka.buckets = [])

theorem lookup_insert_eq_ite (b : Bucket) (s s' : Str) (p : Nat) :
    (b.insert s p).lookup s' = if s' = s then some p else b.lookup s' := by
  split
  · next h => rw [h, AList.lookup_insert]
  · next h => rw [AList.lookup_insert_ne h]

theorem lookup_erase_eq_ite (b : Bucket) (s s' : Str) :
    (b.erase s).lookup s' = if s' = s then none else b.lookup s' := by
  split
  · next h => rw [h, AList.lookup_erase]
  · next h => rw [AList.lookup_erase_ne h]

theorem lookup_insertRef (env : Env) (a : AddrBook) (p : Nat) (ka : KnownAddress) (i : Nat)
    (bucket : Bucket) (s : Str) : (insertRef env a p ka i bucket).addrLookup.lookup s =
      if s = env.str ka.addr then some p else a.addrLookup.lookup s := by
  rw [insertRef, addrLookup_addCount]
  show ((a.setBucket _ _ _).addrLookup.insert _ _).lookup s = _
  rw [lookup_insert_eq_ite, addrLookup_setBucket]

theorem bucketGet_insertRef (env : Env) (p : Nat) {bucket : Bucket}
    (hi : (a.buckets ka.bucketType)[i]? = some bucket) (t : BucketType) (j : Nat) (s : Str) :
    bucketGet (insertRef env a p ka i bucket) t j s =
      if t = ka.bucketType ∧ j = i ∧ s = env.str ka.addr then some p else bucketGet a t j s := by
  have hget : bucketGet (insertRef env a p ka i bucket) t j s =
      bucketGet (a.setBucket ka.bucketType i (bucket.insert (env.str ka.addr) p)) t j s := by
    rw [insertRef, bucketGet_addCount]
    rfl
  rw [hget, bucketGet_setBucket_of_lookup hi fun s' => lookup_insert_eq_ite bucket _ s' p]

theorem heap_insertRef (env : Env) (a : AddrBook) (p : Nat) (ka : KnownAddress) (i : Nat)
    (bucket : Bucket) : (insertRef env a p ka i bucket).heap =
      a.heap.set p { ka with buckets := ka.buckets ++ [i] } := by
  rw [insertRef, heap_addCount]
  show (a.setBucket _ _ _).heap.set _ _ = _
  rw [heap_setBucket]

/-- The place of another string is not the place of this known address. -/
theorem RepInv.pointer_ne (h : RepInv env a) (hheap : a.heap[p]? = some ka) {q : Nat}
    (hs : s ≠ env.str ka.addr) (hq : a.addrLookup.lookup s = some q) : p ≠ q := by
  rintro rfl
  obtain ⟨ka', hrow⟩ := (h.rows s).of_some hq
  have heq : ka = ka' := Option.some.inj (hheap.symm.trans hrow.heap)
  exact hs (by rw [heq, hrow.str])

/-- A reference is added, in the bucket and in the known address. -/
theorem insertRef_update {bucket : Bucket} (h : RepInv env a) (hl : Loose env a p ka)
    (hi : (a.buckets ka.bucketType)[i]? = some bucket) (hnot : i ∉ ka.buckets)
    (hrefs : RefsOk { ka with buckets := ka.buckets ++ [i] }) :
    Update env (env.str ka.addr) a (insertRef env a p ka i bucket) := by
  have hget := bucketGet_insertRef env p hi
  have hself : (insertRef env a p ka i bucket).heap[p]? =
      some { ka with buckets := ka.buckets ++ [i] } := by
    rw [heap_insertRef]
    exact getElem?_set_of_some hl.heap _
  have hlook := lookup_insertRef env a p ka i bucket
  refine ⟨fun t => ?_, fun s' hs => ⟨?_, fun t j => ?_, fun q hq => ?_⟩, ?_, fun t => ?_⟩
  · rw [insertRef, buckets_addCount]
    exact length_buckets_setBucket ..
  · rw [hlook, if_neg hs]
  · rw [hget, if_neg fun hc => hs hc.2.2]
  · rw [heap_insertRef, List.getElem?_set_ne (h.pointer_ne hl.heap hs hq)]
  · rw [RowOk, hlook, if_pos rfl]
    refine ⟨_, hself, rfl, hrefs, fun t j q => ?_⟩
    rw [hget]
    by_cases hc : t = ka.bucketType ∧ j = i
    · obtain ⟨rfl, rfl⟩ := hc
      simp [eq_comm]
    · rw [if_neg fun hcc => hc ⟨hcc.1, hcc.2.1⟩, hl.filed]
      constructor
      · rintro ⟨rfl, rfl, hj⟩
        exact ⟨rfl, rfl, List.mem_append_left _ hj⟩
      · rintro ⟨rfl, rfl, hj⟩
        rcases List.mem_append.mp hj with hj | hj
        · exact ⟨rfl, rfl, hj⟩
        · exact absurd ⟨rfl, List.mem_singleton.mp hj⟩ hc
  · have hin := mem_knownOf_iff ((hlook _).trans (if_pos rfl)) hself t
    have hcount : count (insertRef env a p ka i bucket) t =
        count a t + (if t = ka.bucketType then (if ka.buckets = [] then 1 else 0) else 0) := by
      rw [insertRef, count_addCount]
      exact congrArg (· + _) (count_setBucket ..)
    rw [hcount]
    simp only [hin]
    -- A known address that the book had stays counted. One that it did not have is counted
    -- now.
    rcases hl.lookup with ⟨hs, hne⟩ | ⟨hs, hnil⟩
    · simp only [mem_knownOf_iff hs hl.heap, if_neg hne]
      split <;> omega
    · simp only [not_mem_knownOf hs t, if_pos hnil, if_false, add_zero]

/-! ### References are removed -/

theorem RefsOk.nodup (h : RefsOk ka) : ka.buckets.Nodup := by
  unfold RefsOk at h
  split at h
  · exact h.2.2
  · obtain ⟨i, hi⟩ := List.length_eq_one_iff.mp h
    rw [hi]
    exact List.nodup_singleton i

theorem RefsOk.ne_nil (h : RefsOk ka) : ka.buckets ≠ [] := by
  intro hnil
  unfold RefsOk at h
  split at h
  · rw [hnil] at h
    exact absurd h.1 (by decide)
  · rw [hnil] at h
    cases h

/-- A bucket that the known address does not refer to has no pointer for its string. -/
theorem Filed.eq_none (h : Filed a s p ka) (hnot : ¬ (t = ka.bucketType ∧ i ∈ ka.buckets)) :
    bucketGet a t i s = none := by
  rw [Option.eq_none_iff_forall_ne_some]
  intro q hq
  obtain ⟨-, ht, hi⟩ := (h t i q).mp hq
  exact hnot ⟨ht.symm, hi⟩

/-- The bucket that a known address refers to. -/
theorem Row.bucket (hrow : Row env a s p ka) (hi : i ∈ ka.buckets) :
    ∃ bucket, (a.buckets ka.bucketType)[i]? = some bucket := by
  have hget := (hrow.filed ka.bucketType i p).mpr ⟨rfl, rfl, hi⟩
  obtain ⟨bucket, hb, -⟩ := Option.bind_eq_some_iff.mp hget
  exact ⟨bucket, hb⟩

/-- The buckets listed have `v` for a string. Nothing else changes. -/
structure SetInBuckets (t : BucketType) (refs : List Nat) (s : Str) (v : Option Nat)
    (a a' : AddrBook) : Prop where
  addrLookup : a'.addrLookup = a.addrLookup
  heap : a'.heap = a.heap
  header : header a' = header a
  count_eq : ∀ t', count a' t' = count a t'
  length : ∀ t', (a'.buckets t').length = (a.buckets t').length
  bucketGet : ∀ t' j s', bucketGet a' t' j s' =
    if t' = t ∧ j ∈ refs ∧ s' = s then v else bucketGet a t' j s'

theorem SetInBuckets.nil (t : BucketType) (s : Str) (v : Option Nat) (a : AddrBook) :
    SetInBuckets t [] s v a a := by
  refine ⟨rfl, rfl, rfl, fun _ => rfl, fun _ => rfl, fun t' j s' => ?_⟩
  rw [if_neg fun h => absurd h.2.1 List.not_mem_nil]

theorem SetInBuckets.cons {refs : List Nat} {bucket bucket' : Bucket}
    (hi : (a.buckets t)[i]? = some bucket)
    (hlook : ∀ s', bucket'.lookup s' = if s' = s then v else bucket.lookup s')
    (h : SetInBuckets t refs s v (a.setBucket t i bucket') a') :
    SetInBuckets t (i :: refs) s v a a' := by
  refine ⟨by rw [h.addrLookup, addrLookup_setBucket], by rw [h.heap, heap_setBucket],
    by rw [h.header, header_setBucket], fun t' => by rw [h.count_eq, count_setBucket],
    fun t' => by rw [h.length, length_buckets_setBucket], fun t' j s' => ?_⟩
  rw [h.bucketGet, bucketGet_setBucket_of_lookup hi hlook]
  -- Either the string was set in the first bucket, or in one of the others.
  by_cases hts : t' = t ∧ s' = s
  · obtain ⟨rfl, rfl⟩ := hts
    by_cases hj : j ∈ refs
    · simp [hj]
    · simp [hj]
  · rw [if_neg fun h => hts ⟨h.1, h.2.2⟩, if_neg fun h => hts ⟨h.1, h.2.2⟩,
      if_neg fun h => hts ⟨h.1, h.2.2⟩]

/-- A loop that sets a string in one bucket after the other. -/
theorem bucketLoop_spec {loop : List Nat → AddrBook → Except Panic AddrBook}
    {change : Bucket → Bucket} (hnil : ∀ a, loop [] a = .ok a)
    (hcons : ∀ a i refs, loop (i :: refs) a = a.getBucket t i >>= fun bucket => loop refs
      (a.setBucket t i (change bucket)))
    (hlook : ∀ bucket s', (change bucket).lookup s' = if s' = s then v else bucket.lookup s')
    (refs : List Nat) (hin : ∀ i ∈ refs, i < (a.buckets t).length) :
    ∃ a', loop refs a = .ok a' ∧ SetInBuckets t refs s v a a' := by
  induction refs generalizing a with
  | nil => exact ⟨a, hnil a, .nil t s v a⟩
  | cons i refs ih =>
    obtain ⟨bucket, hi⟩ : ∃ bucket, (a.buckets t)[i]? = some bucket :=
      ⟨_, List.getElem?_eq_getElem (hin i List.mem_cons_self)⟩
    obtain ⟨a', hrun, hset⟩ := ih (a := a.setBucket t i (change bucket)) fun j hj => by
      rw [length_buckets_setBucket]
      exact hin j (.tail _ hj)
    refine ⟨a', ?_, .cons hi (hlook bucket) hset⟩
    rw [hcons, getBucket_eq_ok.mpr hi]
    exact hrun

/-- The loop of `removeFromAllBuckets` takes the string out of the buckets listed. -/
theorem eraseFromBuckets_spec (s : Str) (t : BucketType) (refs : List Nat)
    (hin : ∀ i ∈ refs, i < (a.buckets t).length) :
    ∃ a', AddrBook.eraseFromBuckets s t refs a = .ok a' ∧ SetInBuckets t refs s none a a' :=
  bucketLoop_spec (fun _ => rfl) (fun _ _ _ => rfl) (fun bucket => lookup_erase_eq_ite bucket s)
    refs hin

/-- The string is gone from the book. -/
theorem removed_update (h : RepInv env a) (hs : a.addrLookup.lookup s = some p)
    (hrow : Row env a s p ka)
    (hlen : ∀ t, (a'.buckets t).length = (a.buckets t).length)
    (hlook : a'.addrLookup = a.addrLookup.erase s)
    (hget : ∀ t j s', bucketGet a' t j s' = if s' = s then none else bucketGet a t j s')
    (hheap : ∀ q, p ≠ q → a'.heap[q]? = a.heap[q]?)
    (hcount : ∀ t, count a' t = count a t + (if t = ka.bucketType then -1 else 0)) :
    Update env s a a' := by
  have hgone : a'.addrLookup.lookup s = none := by rw [hlook, AList.lookup_erase]
  refine ⟨hlen, fun s' hne => ⟨?_, fun t j => ?_, fun q hq => ?_⟩, ?_, fun t => ?_⟩
  · rw [hlook, AList.lookup_erase_ne hne]
  · rw [hget, if_neg hne]
  · exact hheap q (h.pointer_ne hrow.heap (by rw [hrow.str]; exact hne) hq)
  · rw [RowOk, hgone]
    intro t j
    rw [hget, if_pos rfl]
  · simp only [hcount, mem_knownOf_iff hs hrow.heap, not_mem_knownOf hgone t, if_false, add_zero]
    split <;> omega

/-- `removeFromAllBuckets` of a known address takes its string out of the book. -/
theorem removeFromAllBuckets_spec (h : RepInv env a) (hs : a.addrLookup.lookup s = some p)
    (hrow : Row env a s p ka) :
    ∃ a', a.removeFromAllBuckets env p = .ok a' ∧ Update env s a a' ∧
      contents a' = (contents a).set s none ∧ a'.addrLookup.lookup s = none ∧
      a'.heap = a.heap.set p { ka with buckets := [] } := by
  obtain rfl := hrow.str
  have hin : ∀ i ∈ ka.buckets, i < (a.buckets ka.bucketType).length := by
    intro i hi
    obtain ⟨bucket, hb⟩ := hrow.bucket hi
    exact (List.getElem?_eq_some_iff.mp hb).1
  obtain ⟨a', hrun, hset⟩ := eraseFromBuckets_spec
    (a := { a with addrLookup := a.addrLookup.erase (env.str ka.addr) }) (env.str ka.addr)
    ka.bucketType ka.buckets hin
  have hgone : ((a'.setKnown p { ka with buckets := [] }).addCount ka.bucketType
      (-1)).addrLookup.lookup (env.str ka.addr) = none := by
    rw [addrLookup_addCount]
    show a'.addrLookup.lookup _ = none
    rw [hset.addrLookup]
    exact AList.lookup_erase ..
  have hupd : Update env (env.str ka.addr) a
      ((a'.setKnown p { ka with buckets := [] }).addCount ka.bucketType (-1)) := by
    refine removed_update h hs hrow (fun t => ?_) ?_ (fun t j s' => ?_) (fun q hq => ?_)
      (fun t => ?_)
    · rw [buckets_addCount]
      exact hset.length t
    · rw [addrLookup_addCount]
      exact hset.addrLookup
    · rw [bucketGet_addCount]
      show bucketGet a' t j s' = _
      rw [hset.bucketGet]
      by_cases hss : s' = env.str ka.addr
      · subst hss
        rw [if_pos rfl]
        split
        · rfl
        · next hnot => exact hrow.filed.eq_none fun hc => hnot ⟨hc.1, hc.2, rfl⟩
      · rw [if_neg hss, if_neg fun hc => hss hc.2.2]
        rfl
    · rw [heap_addCount]
      show (a'.heap.set p _)[q]? = _
      rw [List.getElem?_set_ne hq, hset.heap]
    · rw [count_addCount]
      exact congrArg (· + _) (hset.count_eq t)
  refine ⟨_, ?_, hupd, hupd.contents_eq ?_ (contents_known_none hgone), hgone, ?_⟩
  · rw [AddrBook.removeFromAllBuckets, deref_eq_ok.mpr hrow.heap]
    show (AddrBook.eraseFromBuckets _ _ _ _ >>= _) = _
    rw [hrun]
    rfl
  · rw [header_addCount, header_setKnown, hset.header, header_addrLookup]
  · rw [heap_addCount]
    show a'.heap.set p _ = _
    rw [hset.heap]

theorem removeBucketRef_of_mem (hnodup : ka.buckets.Nodup) (hi : i ∈ ka.buckets) :
    ka.removeBucketRef i = ({ ka with buckets := ka.buckets.filter (· ≠ i) },
      ((ka.buckets.filter (· ≠ i)).length : Int)) := by
  have hfilter : ka.buckets.filter (· ≠ i) = ka.buckets.erase i := by
    rw [hnodup.erase_eq_filter]
    exact List.filter_congr fun j _ => by by_cases hj : j = i <;> simp [hj]
  have hlen : (ka.buckets.filter (· ≠ i)).length = ka.buckets.length - 1 := by
    rw [hfilter, List.length_erase_of_mem hi]
  have hpos : 0 < ka.buckets.length := List.length_pos_of_mem hi
  rw [KnownAddress.removeBucketRef, if_neg]
  rw [hlen]
  omega

/-- Without one reference a known address has as many as it may have, or none. -/
theorem RefsOk.filter (h : RefsOk ka) (hi : i ∈ ka.buckets) (hne : ka.buckets.filter (· ≠ i) ≠ []) :
    RefsOk { ka with buckets := ka.buckets.filter (· ≠ i) } := by
  have hpos := List.length_pos_iff.mpr hne
  have hle := List.length_filter_le (· ≠ i) ka.buckets
  unfold RefsOk at h ⊢
  split at h
  · next hnew =>
    simp only [hnew]
    exact ⟨hpos, hle.trans h.2.1, h.2.2.filter _⟩
  · next hold =>
    -- An old address has no second reference.
    obtain ⟨j, hj⟩ := List.length_eq_one_iff.mp h
    rw [hj, List.mem_singleton] at hi
    rw [hj, hi] at hne
    simp at hne

/-- The book after the known address `ka` at `p` was taken out of one bucket. -/
def unref (env : Env) (a : AddrBook) (p : Nat) (ka : KnownAddress) (i : Nat) (bucket : Bucket) :
    AddrBook :=
  (a.setBucket ka.bucketType i (bucket.erase (env.str ka.addr))).setKnown p
    { ka with buckets := ka.buckets.filter (· ≠ i) }

/-- The book after the string of `ka` was taken out of `addrLookup`. -/
def forget (env : Env) (a : AddrBook) (ka : KnownAddress) : AddrBook :=
  ({ a with addrLookup := a.addrLookup.erase (env.str ka.addr) } : AddrBook).addCount
    ka.bucketType (-1)

theorem addrLookup_unref (env : Env) (a : AddrBook) (p : Nat) (ka : KnownAddress) (i : Nat)
    (bucket : Bucket) : (unref env a p ka i bucket).addrLookup = a.addrLookup :=
  addrLookup_setBucket ..

theorem heap_unref (env : Env) (a : AddrBook) (p : Nat) (ka : KnownAddress) (i : Nat)
    (bucket : Bucket) : (unref env a p ka i bucket).heap =
      a.heap.set p { ka with buckets := ka.buckets.filter (· ≠ i) } := by
  show (a.setBucket _ _ _).heap.set _ _ = _
  rw [heap_setBucket]

theorem bucketGet_unref (env : Env) (p : Nat) {bucket : Bucket}
    (hb : (a.buckets ka.bucketType)[i]? = some bucket) (t : BucketType) (j : Nat) (s : Str) :
    bucketGet (unref env a p ka i bucket) t j s =
      if t = ka.bucketType ∧ j = i ∧ s = env.str ka.addr then none else bucketGet a t j s :=
  bucketGet_setBucket_of_lookup hb (lookup_erase_eq_ite bucket _) t j s

theorem bucketGet_forget (env : Env) (a : AddrBook) (ka : KnownAddress) (t : BucketType) (j : Nat)
    (s : Str) : bucketGet (forget env a ka) t j s = bucketGet a t j s := by
  rw [forget, bucketGet_addCount]
  rfl

/-- `removeFromBucket` step by step. -/
theorem removeFromBucket_eq (env : Env) {bucket : Bucket} (hp : a.heap[p]? = some ka)
    (hnodup : ka.buckets.Nodup) (hi : i ∈ ka.buckets)
    (hb : (a.buckets ka.bucketType)[i]? = some bucket) :
    a.removeFromBucket env p i = .ok (if ka.buckets.filter (· ≠ i) = [] then
      forget env (unref env a p ka i bucket) ka else unref env a p ka i bucket) := by
  rw [AddrBook.removeFromBucket, deref_eq_ok.mpr hp]
  show (a.getBucket _ _ >>= _) = _
  rw [getBucket_eq_ok.mpr hb]
  simp only [removeBucketRef_of_mem hnodup hi]
  show (if ((ka.buckets.filter (· ≠ i)).length : Int) = 0 then _ else _) = _
  by_cases hnil : ka.buckets.filter (· ≠ i) = []
  · rw [if_pos hnil, if_pos (by rw [hnil]; rfl)]
    rfl
  · rw [if_neg hnil, if_neg (by simpa using hnil)]
    rfl

/-- The last reference is removed: the string leaves the book. -/
theorem forget_update (h : RepInv env a) (hs : a.addrLookup.lookup (env.str ka.addr) = some p)
    (hrow : Row env a (env.str ka.addr) p ka) {bucket : Bucket}
    (hb : (a.buckets ka.bucketType)[i]? = some bucket) (hnil : ka.buckets.filter (· ≠ i) = []) :
    Update env (env.str ka.addr) a (forget env (unref env a p ka i bucket) ka) := by
  have honly : ∀ j ∈ ka.buckets, j = i := by
    intro j hj
    by_contra hne
    have hmem : j ∈ ka.buckets.filter (· ≠ i) := List.mem_filter.mpr ⟨hj, by simpa using hne⟩
    rw [hnil] at hmem
    exact List.not_mem_nil hmem
  refine removed_update h hs hrow (fun t => ?_) ?_ (fun t j s' => ?_) (fun q hq => ?_)
    (fun t => ?_)
  · rw [forget, buckets_addCount]
    exact length_buckets_setBucket ..
  · rw [forget, addrLookup_addCount]
    exact congrArg (AList.erase _) (addrLookup_unref ..)
  · rw [bucketGet_forget, bucketGet_unref env p hb]
    by_cases hss : s' = env.str ka.addr
    · subst hss
      rw [if_pos rfl]
      split
      · rfl
      · next hnot => exact hrow.filed.eq_none fun hc => hnot ⟨hc.1, honly j hc.2, rfl⟩
    · rw [if_neg hss, if_neg fun hc => hss hc.2.2]
  · rw [forget, heap_addCount]
    show (unref env a p ka i bucket).heap[q]? = _
    rw [heap_unref, List.getElem?_set_ne hq]
  · rw [forget, count_addCount]
    exact congrArg (· + _) (count_setBucket ..)

/-- Another reference is left: the string stays in the book and in the other buckets. -/
theorem unref_update (h : RepInv env a) (hs : a.addrLookup.lookup (env.str ka.addr) = some p)
    (hrow : Row env a (env.str ka.addr) p ka) (hi : i ∈ ka.buckets) {bucket : Bucket}
    (hb : (a.buckets ka.bucketType)[i]? = some bucket) (hne : ka.buckets.filter (· ≠ i) ≠ []) :
    Update env (env.str ka.addr) a (unref env a p ka i bucket) := by
  have hget := bucketGet_unref env p hb
  have hself : (unref env a p ka i bucket).heap[p]? =
      some { ka with buckets := ka.buckets.filter (· ≠ i) } := by
    rw [heap_unref]
    exact getElem?_set_of_some hrow.heap _
  have hlook := addrLookup_unref env a p ka i bucket
  refine ⟨fun t => length_buckets_setBucket ..,
    fun s' hne => ⟨by rw [hlook], fun t j => ?_, fun q hq => ?_⟩, ?_, fun t => ?_⟩
  · rw [hget, if_neg fun hc => hne hc.2.2]
  · rw [heap_unref, List.getElem?_set_ne (h.pointer_ne hrow.heap hne hq)]
  · rw [RowOk, hlook, hs]
    refine ⟨_, hself, rfl, hrow.refs.filter hi hne, fun t j q => ?_⟩
    rw [hget]
    by_cases hc : t = ka.bucketType ∧ j = i
    · obtain ⟨rfl, rfl⟩ := hc
      simp
    · rw [if_neg fun hcc => hc ⟨hcc.1, hcc.2.1⟩, hrow.filed, List.mem_filter, decide_eq_true_iff]
      refine and_congr_right fun _ => ⟨fun ⟨ht, hj⟩ => ⟨ht, hj, fun hji => ?_⟩, fun ⟨ht, hj, _⟩ =>
        ⟨ht, hj⟩⟩
      exact hc ⟨ht.symm, hji⟩
  · have hcount : count (unref env a p ka i bucket) t = count a t := count_setBucket ..
    rw [hcount]
    simp only [mem_knownOf_iff hs hrow.heap, mem_knownOf_iff (hlook ▸ hs) hself]

/-- `removeFromBucket` of a known address, for a bucket that it refers to. -/
theorem removeFromBucket_spec (h : RepInv env a) (hs : a.addrLookup.lookup s = some p)
    (hrow : Row env a s p ka) (hi : i ∈ ka.buckets) :
    ∃ a', a.removeFromBucket env p i = .ok a' ∧ Update env s a a' ∧
      contents a' = (contents a).set s (Contents.dropRef ka i) ∧
      ∀ q, p ≠ q → a'.heap[q]? = a.heap[q]? := by
  obtain rfl := hrow.str
  obtain ⟨bucket, hb⟩ := hrow.bucket hi
  have hrun := removeFromBucket_eq env hrow.heap hrow.refs.nodup hi hb
  have hheap : ∀ q, p ≠ q → (unref env a p ka i bucket).heap[q]? = a.heap[q]? := by
    intro q hq
    rw [heap_unref, List.getElem?_set_ne hq]
  rw [Contents.dropRef]
  by_cases hnil : ka.buckets.filter (· ≠ i) = []
  · rw [if_pos hnil] at hrun ⊢
    have hupd := forget_update h hs hrow hb hnil
    refine ⟨_, hrun, hupd, hupd.contents_eq (by simp [forget, unref]) ?_, fun q hq => ?_⟩
    · refine contents_known_none ?_
      rw [forget, addrLookup_addCount]
      exact AList.lookup_erase ..
    · rw [forget, heap_addCount]
      exact hheap q hq
  · rw [if_neg hnil] at hrun ⊢
    have hupd := unref_update h hs hrow hi hb hnil
    refine ⟨_, hrun, hupd, hupd.contents_eq (by simp [unref]) (known_of_row (p := p) ?_ ?_), hheap⟩
    · rw [addrLookup_unref]
      exact hs
    · rw [heap_unref]
      exact getElem?_set_of_some hrow.heap _

/-! ### The buckets -/

/-- A bucket holds exactly the known addresses that refer to it. -/
theorem RepInv.bucketGet_iff (h : RepInv env a) (t : BucketType) (i : Nat) (s : Str) (p : Nat) :
    bucketGet a t i s = some p ↔ a.addrLookup.lookup s = some p ∧
      ∃ ka, a.heap[p]? = some ka ∧ ka.bucketType = t ∧ i ∈ ka.buckets := by
  cases hs : a.addrLookup.lookup s with
  | none =>
    rw [(h.rows s).of_none hs t i]
    exact iff_of_false (Option.some_ne_none p).symm fun hc => Option.some_ne_none p hc.1.symm
  | some q =>
    obtain ⟨ka, hrow⟩ := (h.rows s).of_some hs
    rw [hrow.filed]
    constructor
    · rintro ⟨rfl, ht, hi⟩
      exact ⟨rfl, ka, hrow.heap, ht, hi⟩
    · rintro ⟨hqp, ka', hka', ht, hi⟩
      cases hqp
      obtain rfl : ka = ka' := Option.some.inj (hrow.heap.symm.trans hka')
      exact ⟨rfl, ht, hi⟩

/-- The pointers in a bucket are known addresses that refer to it. -/
theorem RepInv.of_bucket (h : RepInv env a) {bucket : Bucket} (hb : (a.buckets t)[i]? = some bucket)
    {q : Nat} (hq : q ∈ bucket.pointers) :
    ∃ s ka, bucket.lookup s = some q ∧ a.addrLookup.lookup s = some q ∧ Row env a s q ka ∧
      ka.bucketType = t ∧ i ∈ ka.buckets := by
  obtain ⟨⟨s, q⟩, hmem, rfl⟩ := List.mem_map.mp hq
  have hlook : bucket.lookup s = some q := AList.mem_lookup_iff.mpr hmem
  have hget : bucketGet a t i s = some q := by
    rw [bucketGet, hb]
    exact hlook
  cases hs : a.addrLookup.lookup s with
  | none =>
    rw [(h.rows s).of_none hs t i] at hget
    cases hget
  | some p =>
    obtain ⟨ka, hrow⟩ := (h.rows s).of_some hs
    obtain ⟨rfl, ht, hi⟩ := (hrow.filed t i q).mp hget
    exact ⟨s, ka, hlook, hs, hrow, ht, hi⟩

/-- The strings of a bucket, from the contents. -/
theorem RepInv.bucketGet_isSome_iff (h : RepInv env a) (t : BucketType) (i : Nat) (s : Str) :
    (bucketGet a t i s).isSome ↔ s ∈ (contents a).inBucket t i := by
  rw [Option.isSome_iff_exists]
  simp only [h.bucketGet_iff]
  constructor
  · rintro ⟨p, hs, ka, hp, hrest⟩
    exact ⟨ka, known_of_row hs hp, hrest⟩
  · rintro ⟨ka, hka, hrest⟩
    obtain ⟨p, hs, hrow⟩ := h.row_of_known hka
    exact ⟨p, hs, ka, hrow.heap, hrest⟩

theorem RepInv.mem_bucket_iff (h : RepInv env a) {bucket : Bucket}
    (hb : (a.buckets t)[i]? = some bucket) : s ∈ bucket ↔ s ∈ (contents a).inBucket t i := by
  have hget : bucketGet a t i s = bucket.lookup s := by
    rw [bucketGet, hb]
    rfl
  rw [← h.bucketGet_isSome_iff, hget, AList.lookup_isSome]

theorem RepInv.bucketSize_eq (h : RepInv env a) {bucket : Bucket}
    (hb : (a.buckets t)[i]? = some bucket) :
    (contents a).bucketSize t i = bucket.entries.length := by
  have hset : (contents a).inBucket t i = (bucket.keys.toFinset : Set Str) := by
    ext s
    rw [← h.mem_bucket_iff hb, Finset.mem_coe, List.mem_toFinset, AList.mem_keys]
  rw [Contents.bucketSize, hset, Set.ncard_coe_finset,
    List.toFinset_card_of_nodup bucket.keys_nodup]
  exact List.length_map _

end

end BtmStats.Proofs.Pex
