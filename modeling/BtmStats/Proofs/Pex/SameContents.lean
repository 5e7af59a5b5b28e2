import Mathlib.Data.List.Perm.Basic
import BtmStats.Spec.Pex.File
import BtmStats.Proofs.Pex.Runs

/-!
# `BtmStats.Proofs.Pex.SameContents`: books with the same contents behave alike

Two books can have the same contents and differ in where their known addresses are and in
how their maps are ordered. A caller cannot tell them apart: whatever one book does in
some order of iteration, the other does in some order too (`SameBook.calls`). Go leaves the
order of iteration open, so this is all that a caller could rely on.

Orders are compared by the strings that they visit. An order of one book gives a list of
strings, and `exists_order` finds the order of the other book that visits this list.
-/

set_option autoImplicit false

namespace BtmStats.Proofs.Pex

open Lib Spec Spec.Pex

/-- The books are in order and say the same. -/
structure SameBook (env : Env) (a b : AddrBook) : Prop where
  left : RepInv env a
  right : RepInv env b
  contents : contents b = contents a

/-- Two calls that differ in the orders of iteration at most. -/
inductive SameCall : AddrBook.Call → AddrBook.Call → Prop where
  | same (c : AddrBook.Call) : SameCall c c
  | addAddress (chance : Chance) (badOrder oldestOrder : IterOrder Nat)
      (addr src : Option NetAddress) :
      SameCall (.op (.addAddress chance addr src))
        (.op (.addAddress { chance with badOrder, oldestOrder } addr src))
  | getSelection (order order' : IterOrder Nat) (draws : Nat → Nat) :
      SameCall (.getSelection order draws) (.getSelection order' draws)
  | pickAddress (old : Bool) (order order' : IterOrder Nat) (draws : Nat → Nat) (fuel : Nat) :
      SameCall (.pickAddress old order draws fuel) (.pickAddress old order' draws fuel)
  | saved (order order' : IterOrder Nat) : SameCall (.saved order) (.saved order')

section
variable {env : Env} {a b : AddrBook} {s : Str}

theorem SameBook.symm (h : SameBook env a b) : SameBook env b a :=
  ⟨h.right, h.left, h.contents.symm⟩

theorem SameBook.known (h : SameBook env a b) (s : Str) : known? b s = known? a s :=
  congrArg (fun c => c.known s) h.contents

/-! ### Orders of iteration -/

/-- For an order of one map there is an order of the other that visits the same strings. -/
theorem exists_order {m m' : Bucket} (hm : MapOf env a m) (hm' : MapOf env b m')
    (hmem : ∀ s, s ∈ m' ↔ s ∈ m) (order : IterOrder Nat) :
    ∃ order' : IterOrder Nat, (order'.apply m'.pointers).map (strOf env b) =
      (order.apply m.pointers).map (strOf env a) := by
  have hkeys : m.keys.Perm m'.keys := by
    rw [List.perm_ext_iff_of_nodup m.keys_nodup m'.keys_nodup]
    intro s
    rw [← AList.mem_keys, ← AList.mem_keys, hmem]
  have hstrings : ((order.apply m.pointers).map (strOf env a)).Perm
      (m'.pointers.map (strOf env b)) := by
    rw [hm'.map_strOf]
    exact ((order.perm _).map _).trans (hm.map_strOf ▸ hkeys)
  -- A permutation of the strings comes from one of the pointers.
  have hcomp : Relation.Comp (· = List.map (strOf env b) ·) List.Perm
      ((order.apply m.pointers).map (strOf env a)) m'.pointers := by
    rw [List.eq_map_comp_perm]
    exact hstrings
  obtain ⟨l, hl, hperm⟩ := hcomp
  refine ⟨⟨fun l' => if l' = m'.pointers then l else l', fun l' => ?_⟩, ?_⟩
  · split
    · next heq => rw [heq]; exact hperm
    · exact .refl l'
  · show (if m'.pointers = m'.pointers then l else _).map _ = _
    rw [if_pos rfl]
    exact hl.symm

/-! ### Reading known addresses -/

theorem mapM_deref_eq {ps qs : List Nat} (h : SameBook env a b) (hps : ∀ q ∈ ps, Listed env a q)
    (hqs : ∀ q ∈ qs, Listed env b q) (heq : qs.map (strOf env b) = ps.map (strOf env a)) :
    qs.mapM b.deref = ps.mapM a.deref := by
  obtain ⟨kas, hkas, hmap⟩ := mapM_deref hps
  obtain ⟨kbs, hkbs, hmap'⟩ := mapM_deref hqs
  rw [hkas, hkbs]
  congr 1
  refine List.map_injective_iff.mpr (Option.some_injective _) ?_
  rw [hmap, hmap', heq, show known? b = known? a from funext h.known]

theorem SameBook.deref_eq (h : SameBook env a b) {p q : Nat} (hp : Listed env a p)
    (hq : Listed env b q) (hstr : strOf env b q = strOf env a p) : b.deref q = a.deref p := by
  obtain ⟨ka, -, hrow⟩ := id hp
  obtain ⟨kb, -, hrow'⟩ := id hq
  have hknown := hq.known hrow'.heap
  rw [hstr, h.known, hp.known hrow.heap] at hknown
  cases hknown
  rw [deref_eq_ok.mpr hrow.heap, deref_eq_ok.mpr hrow'.heap]

/-- `SaveToFile` finds a known address at every pointer. -/
theorem saved_spec (h : RepInv env a) (order : IterOrder Nat) :
    ∃ aJSON, a.saved order = .ok aJSON ∧ aJSON.key = a.key ∧ aJSON.addrs.map some =
      ((order.apply a.addrLookup.pointers).map (strOf env a)).map (known? a) := by
  obtain ⟨kas, hkas, hmap⟩ := mapM_deref (listed_of_order h.mapOf_addrLookup order)
  refine ⟨⟨a.key, kas⟩, ?_, rfl, hmap⟩
  rw [AddrBook.saved, hkas]
  rfl

/-! ### The parts of two books -/

theorem SameBook.mem_addrLookup_iff (h : SameBook env a b) (s : Str) :
    s ∈ b.addrLookup ↔ s ∈ a.addrLookup := by
  rw [← h.left.known_isSome_iff, ← h.right.known_isSome_iff, h.known]

variable {i : Nat} {t : BucketType} {bucket : Bucket}

theorem SameBook.mem_bucket_iff (h : SameBook env a b) {bucket' : Bucket}
    (hb : (a.buckets t)[i]? = some bucket) (hb' : (b.buckets t)[i]? = some bucket') (s : Str) :
    s ∈ bucket' ↔ s ∈ bucket := by
  rw [h.left.mem_bucket_iff hb, h.right.mem_bucket_iff hb', h.contents]

theorem SameBook.bucket_length (h : SameBook env a b) {bucket' : Bucket}
    (hb : (a.buckets t)[i]? = some bucket) (hb' : (b.buckets t)[i]? = some bucket') :
    bucket'.entries.length = bucket.entries.length := by
  rw [← h.left.bucketSize_eq hb, ← h.right.bucketSize_eq hb', h.contents]

/-- The buckets of the two books, place by place. -/
theorem SameBook.bucket_pair (h : SameBook env a b) (hb : (a.buckets t)[i]? = some bucket) :
    ∃ bucket', (b.buckets t)[i]? = some bucket' := by
  refine ⟨_, List.getElem?_eq_getElem ?_⟩
  rw [h.right.length, ← h.left.length]
  exact (List.getElem?_eq_some_iff.mp hb).1

/-- The counters follow from the known addresses. -/
theorem count_eq_of_known (h : RepInv env a) (h' : RepInv env b)
    (hknown : ∀ s, known? b s = known? a s) (t : BucketType) : count b t = count a t := by
  rw [h.count_eq, h'.count_eq]
  congr 2
  ext s
  rw [mem_knownOf, mem_knownOf, hknown]

theorem SameBook.count_eq (h : SameBook env a b) (t : BucketType) : count b t = count a t :=
  count_eq_of_known h.left h.right h.known t

theorem SameBook.size_eq (h : SameBook env a b) : b.size = a.size := by
  have hnew : b.nNew = a.nNew := h.count_eq .new
  have hold : b.nOld = a.nOld := h.count_eq .old
  rw [AddrBook.size, AddrBook.size, hnew, hold]

/-! ### Calls that read -/

theorem SameBook.exists_lookup_order (h : SameBook env a b) (order : IterOrder Nat) :
    ∃ order' : IterOrder Nat, (order'.apply b.addrLookup.pointers).map (strOf env b) =
      (order.apply a.addrLookup.pointers).map (strOf env a) :=
  exists_order h.left.mapOf_addrLookup h.right.mapOf_addrLookup h.mem_addrLookup_iff order

/-- Both books collect the same known addresses, in corresponding orders. -/
theorem SameBook.mapM_lookup (h : SameBook env a b) (order : IterOrder Nat) :
    ∃ order' : IterOrder Nat, (order'.apply b.addrLookup.pointers).mapM b.deref =
      (order.apply a.addrLookup.pointers).mapM a.deref := by
  obtain ⟨order', heq⟩ := h.exists_lookup_order order
  exact ⟨order', mapM_deref_eq h (listed_of_order h.left.mapOf_addrLookup order)
    (listed_of_order h.right.mapOf_addrLookup order') heq⟩

theorem SameBook.saved (h : SameBook env a b) (order : IterOrder Nat) :
    ∃ order', b.saved order' = a.saved order := by
  obtain ⟨order', heq⟩ := h.mapM_lookup order
  refine ⟨order', ?_⟩
  have hkey : b.key = a.key := congrArg Contents.key h.contents
  rw [AddrBook.saved, AddrBook.saved, heq, hkey]

theorem SameBook.getSelection (h : SameBook env a b) (order : IterOrder Nat) (draws : Nat → Nat) :
    ∃ order', b.getSelection order' draws = a.getSelection order draws := by
  obtain ⟨order', heq⟩ := h.mapM_lookup order
  refine ⟨order', ?_⟩
  have hall : b.allAddr order' = a.allAddr order := by
    rw [AddrBook.allAddr, AddrBook.allAddr, mapM_map_addr, mapM_map_addr, heq]
  have hnum : b.numAddresses = a.numAddresses := by
    rw [AddrBook.numAddresses, AddrBook.numAddresses, h.size_eq]
  simp only [AddrBook.getSelection, hall, hnum, h.size_eq]

/-- The results of a search in two books: buckets of one place after as many draws. -/
inductive SameFound (a b : AddrBook) (t : BucketType) :
    Except Panic (Option (Bucket × Nat)) → Except Panic (Option (Bucket × Nat)) → Prop where
  | panics (e : Panic) : SameFound a b t (.error e) (.error e)
  | goesOn : SameFound a b t (.ok none) (.ok none)
  | found {i : Nat} {bucket bucket' : Bucket} (k : Nat) (left : (a.buckets t)[i]? = some bucket)
      (right : (b.buckets t)[i]? = some bucket') :
      SameFound a b t (.ok (some (bucket, k))) (.ok (some (bucket', k)))

theorem SameBook.searchLoop (h : SameBook env a b) (t : BucketType) (draws : Nat → Nat)
    (fuel k : Nat) : SameFound a b t (AddrBook.searchLoop (a.buckets t) draws fuel k)
      (AddrBook.searchLoop (b.buckets t) draws fuel k) := by
  have hlen : (b.buckets t).length = (a.buckets t).length := by
    rw [h.right.length, h.left.length]
  induction fuel generalizing k with
  | zero => exact .goesOn
  | succ fuel ih =>
    rw [AddrBook.searchLoop, AddrBook.searchLoop, hlen]
    cases AddrBook.intn (draws k) (a.buckets t).length with
    | error e => exact .panics e
    | ok i =>
      show SameFound a b t (orPanic .indexOutOfRange (a.buckets t)[i]? >>= _)
        (orPanic .indexOutOfRange (b.buckets t)[i]? >>= _)
      cases hb : (a.buckets t)[i]? with
      | none =>
        rw [List.getElem?_eq_none (by rw [hlen]; exact List.getElem?_eq_none_iff.mp hb)]
        exact .panics _
      | some bucket =>
        obtain ⟨bucket', hb'⟩ := h.bucket_pair hb
        rw [hb']
        show SameFound a b t (if bucket.entries.length = 0 then _ else _)
          (if bucket'.entries.length = 0 then _ else _)
        rw [h.bucket_length hb hb']
        split
        · exact ih (k + 1)
        · exact .found (k + 1) hb hb'

/-- In some order of iteration both pick the same address. -/
theorem SameBook.pickAddress (h : SameBook env a b) (old : Bool) (order : IterOrder Nat)
    (draws : Nat → Nat) (fuel : Nat) :
    ∃ order', b.pickAddress old order' draws fuel = a.pickAddress old order draws fuel := by
  have henters : b.entersSearch old = a.entersSearch old := by
    have hnew : b.nNew = a.nNew := h.count_eq .new
    have hold : b.nOld = a.nOld := h.count_eq .old
    rw [AddrBook.entersSearch, AddrBook.entersSearch, h.size_eq, hnew, hold]
  have hsearch := h.searchLoop (if old then .old else .new) draws fuel 0
  unfold AddrBook.pickAddress
  rw [henters]
  split
  · exact ⟨order, rfl⟩
  show ∃ order' : IterOrder Nat, (AddrBook.searchLoop (b.buckets _) draws fuel 0 >>= _) =
    (AddrBook.searchLoop (a.buckets _) draws fuel 0 >>= _)
  generalize hra : AddrBook.searchLoop (a.buckets (if old then .old else .new)) draws fuel 0 = ra
  generalize hrb : AddrBook.searchLoop (b.buckets (if old then .old else .new)) draws fuel 0 = rb
  rw [hra, hrb] at hsearch
  cases hsearch with
  | panics e => exact ⟨order, rfl⟩
  | goesOn => exact ⟨order, rfl⟩
  | found k hb hb' =>
    have hm := h.left.mapOf_bucket hb
    have hm' := h.right.mapOf_bucket hb'
    obtain ⟨order', heq⟩ := exists_order hm hm' (h.mem_bucket_iff hb hb') order
    refine ⟨order', ?_⟩
    show (AddrBook.intn (draws k) _ >>= _) = (AddrBook.intn (draws k) _ >>= _)
    rw [h.bucket_length hb hb']
    cases AddrBook.intn (draws k) _ with
    | error e => rfl
    | ok r =>
      have hget := congrArg (·[r]?) heq
      simp only [List.getElem?_map] at hget
      simp only [bind, Except.bind]
      cases hp : (order.apply _)[r]? with
      | none =>
        rw [hp, Option.map_none, Option.map_eq_none_iff] at hget
        rw [hget]
      | some p =>
        rw [hp, Option.map_some, Option.map_eq_some_iff] at hget
        obtain ⟨q, hq, hstr⟩ := hget
        have hderef := h.deref_eq (listed_of_order hm order p (List.mem_of_getElem? hp))
          (listed_of_order hm' order' q (List.mem_of_getElem? hq)) hstr
        rw [hq]
        simp only [hderef]

/-! ### Calls that write -/

theorem SameBook.calcNewBucket (h : SameBook env a b) (addr src : NetAddress) :
    b.calcNewBucket env addr src = a.calcNewBucket env addr src := by
  have hkey : b.key = a.key := congrArg Contents.key h.contents
  have hstrict : b.routabilityStrict = a.routabilityStrict :=
    congrArg Contents.routabilityStrict h.contents
  simp only [AddrBook.calcNewBucket, AddrBook.calcBucket, hkey, hstrict]

/-- For the chance of one book there is one of the other with the same strings. -/
theorem SameBook.exists_chance (h : SameBook env a b) (chance : Chance) (hi : i < newBucketCount) :
    ∃ badOrder oldestOrder : IterOrder Nat,
      liftChance env b { chance with badOrder, oldestOrder } i = liftChance env a chance i := by
  obtain ⟨bucket, hb⟩ := h.left.getBucket (t := .new) hi
  obtain ⟨bucket', hb'⟩ := h.bucket_pair hb
  have horder := exists_order (h.left.mapOf_bucket hb) (h.right.mapOf_bucket hb')
    (h.mem_bucket_iff hb hb')
  obtain ⟨badOrder, hbad⟩ := horder chance.badOrder
  obtain ⟨oldestOrder, hold⟩ := horder chance.oldestOrder
  refine ⟨badOrder, oldestOrder, ?_⟩
  rw [liftChance_eq env _ hb, liftChance_eq env _ hb', hbad, hold]

/-- Both take the address or both refuse it. -/
theorem SameBook.addAddress (h : SameBook env a b) (chance : Chance)
    (addr src : Option NetAddress) : ∃ badOrder oldestOrder a' b' err,
      a.addAddress env chance addr src = .ok (a', err) ∧
      b.addAddress env { chance with badOrder, oldestOrder } addr src = .ok (b', err) ∧
      SameBook env a' b' := by
  -- Orders for which both calls are the same call on the contents.
  obtain ⟨badOrder, oldestOrder, hlift⟩ : ∃ badOrder oldestOrder : IterOrder Nat,
      liftCall env b { chance with badOrder, oldestOrder } addr src =
        liftCall env a chance addr src := by
    unfold liftCall
    cases addr with
    | none => exact h.exists_chance chance (by decide)
    | some addr =>
      cases src with
      | none => exact h.exists_chance chance (by decide)
      | some src =>
        simp only [h.calcNewBucket]
        exact h.exists_chance chance (calcNewBucket_lt ..)
  obtain ⟨a', err, hrun, ha', hcont⟩ := addAddress_spec h.left chance addr src
  obtain ⟨b', err', hrun', hb', hcont'⟩ :=
    addAddress_spec h.right { chance with badOrder, oldestOrder } addr src
  rw [hlift, h.contents, ← hcont, Prod.mk.injEq] at hcont'
  obtain ⟨hsame, rfl⟩ := hcont'
  exact ⟨badOrder, oldestOrder, a', b', err', hrun, hrun', ha', hb', hsame⟩

/-- A call that iterates over no map is the same call on both books. -/
theorem SameBook.step (h : SameBook env a b) (op : AddrBook.Op)
    (hop : ∀ chance addr src, op ≠ .addAddress chance addr src) :
    ∃ a' b', a.step env op = .ok a' ∧ b.step env op = .ok b' ∧ SameBook env a' b' := by
  obtain ⟨a', hrun, ha', hcont⟩ := step_spec h.left op
  obtain ⟨b', hrun', hb', hcont'⟩ := step_spec h.right op
  refine ⟨a', b', hrun, hrun', ha', hb', ?_⟩
  rw [hcont, hcont']
  cases op with
  | addAddress chance addr src => exact absurd rfl (hop chance addr src)
  | markGood | markAttempt | removeAddress | addOurAddress => simp only [contentsAfter, h.contents]

/-! ### Any calls -/

theorem call_op (env : Env) (a : AddrBook) {op : AddrBook.Op}
    (hop : ∀ chance addr src, op ≠ .addAddress chance addr src) :
    a.call env (.op op) = do return (← a.step env op, .done none) := by
  cases op with
  | addAddress chance addr src => exact absurd rfl (hop chance addr src)
  | markGood now addr => rfl
  | markAttempt now addr => rfl
  | removeAddress addr => rfl
  | addOurAddress addr => rfl

/-- Two books with the same contents answer every call alike. -/
theorem SameBook.call (h : SameBook env a b) (c : AddrBook.Call) :
    ∃ c' a' b' reply, SameCall c c' ∧ a.call env c = .ok (a', reply) ∧
      b.call env c' = .ok (b', reply) ∧ SameBook env a' b' := by
  cases c with
  | op op =>
    by_cases hop : ∃ chance addr src, op = .addAddress chance addr src
    · obtain ⟨chance, addr, src, rfl⟩ := hop
      obtain ⟨badOrder, oldestOrder, a', b', err, hrun, hrun', h'⟩ := h.addAddress chance addr src
      refine ⟨_, a', b', .done err, .addAddress chance badOrder oldestOrder addr src, ?_, ?_, h'⟩
      · rw [AddrBook.call, hrun]
        rfl
      · rw [AddrBook.call, hrun']
        rfl
    · have hne : ∀ chance addr src, op ≠ .addAddress chance addr src :=
        fun chance addr src heq => hop ⟨chance, addr, src, heq⟩
      obtain ⟨a', b', hrun, hrun', h'⟩ := h.step op hne
      refine ⟨_, a', b', .done none, .same (.op op), ?_, ?_, h'⟩
      · rw [call_op env a hne, hrun]
        rfl
      · rw [call_op env b hne, hrun']
        rfl
  | getSelection order draws =>
    obtain ⟨order', heq⟩ := h.getSelection order draws
    obtain ⟨l, hl, -⟩ := getSelection_spec h.left order draws
    refine ⟨_, a, b, .selection l, .getSelection order order' draws, ?_, ?_, h⟩
    · rw [AddrBook.call, hl]
      rfl
    · rw [AddrBook.call, heq, hl]
      rfl
  | pickAddress old order draws fuel =>
    obtain ⟨order', heq⟩ := h.pickAddress old order draws fuel
    obtain ⟨r, hr⟩ := pickAddress_spec h.left old order draws fuel
    refine ⟨_, a, b, .picked r, .pickAddress old order order' draws fuel, ?_, ?_, h⟩
    · rw [AddrBook.call, hr]
      rfl
    · rw [AddrBook.call, heq, hr]
      rfl
  | size =>
    refine ⟨_, a, b, .size a.size, .same .size, rfl, ?_, h⟩
    rw [AddrBook.call, h.size_eq]
  | saved order =>
    obtain ⟨order', heq⟩ := h.saved order
    obtain ⟨aJSON, hsaved, -⟩ := saved_spec h.left order
    refine ⟨_, a, b, .saved aJSON, .saved order order', ?_, ?_, h⟩
    · rw [AddrBook.call, hsaved]
      rfl
    · rw [AddrBook.call, heq, hsaved]
      rfl

/-- Two books with the same contents return the same to any calls, in some orders of
iteration. -/
theorem SameBook.calls (h : SameBook env a b) (cs : List AddrBook.Call) :
    ∃ cs' a' b' replies, List.Forall₂ SameCall cs cs' ∧ a.calls env cs = .ok (a', replies) ∧
      b.calls env cs' = .ok (b', replies) ∧ SameBook env a' b' := by
  induction cs generalizing a b with
  | nil => exact ⟨[], a, b, [], .nil, rfl, rfl, h⟩
  | cons c cs ih =>
    obtain ⟨c', a₁, b₁, reply, hc, hrun, hrun', h₁⟩ := h.call c
    obtain ⟨cs', a', b', replies, hcs, hruns, hruns', h'⟩ := ih h₁
    refine ⟨c' :: cs', a', b', reply :: replies, .cons hc hcs, ?_, ?_, h'⟩
    · rw [AddrBook.calls, hrun]
      show (a₁.calls env cs >>= _) = _
      rw [hruns]
      rfl
    · rw [AddrBook.calls, hrun']
      show (b₁.calls env cs' >>= _) = _
      rw [hruns']
      rfl

end

end BtmStats.Proofs.Pex
