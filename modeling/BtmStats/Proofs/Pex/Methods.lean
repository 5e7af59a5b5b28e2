import BtmStats.Lib.Runs
import BtmStats.Proofs.Pex.AddrBook

/-!
# `BtmStats.Proofs.Pex.Methods`: the methods of the address book

Each method of the book is a sequence of updates of one string each. So it keeps the
representation invariant, raises no panic, and does to the contents of the book what the
method of `Contents` with its name does. `step_spec` says this for every call, and
`run_spec` for a sequence of calls.

Where the book iterates over a bucket, `liftChance` turns the pointers that it visits into
strings.
-/

set_option autoImplicit false

namespace BtmStats.Proofs.Pex

open Lib Spec Spec.Pex

section
variable {env : Env} {a a' : AddrBook} {s : Str} {p : Nat} {ka : KnownAddress}

/-! ### Iteration over a map -/

/-- The string of the known address that a pointer leads to. -/
def strOf (env : Env) (a : AddrBook) (p : Nat) : Str :=
  ((a.heap[p]?).map fun ka => env.str ka.addr).getD []

theorem strOf_eq (hp : a.heap[p]? = some ka) : strOf env a p = env.str ka.addr := by
  simp [strOf, hp]

/-- The pointer leads to the known address that the book has for its string. -/
def Listed (env : Env) (a : AddrBook) (p : Nat) : Prop :=
  ∃ ka, a.addrLookup.lookup (strOf env a p) = some p ∧ Row env a (strOf env a p) p ka

theorem Row.listed (hrow : Row env a s p ka) (hs : a.addrLookup.lookup s = some p) :
    strOf env a p = s ∧ Listed env a p := by
  have hstr : strOf env a p = s := (strOf_eq hrow.heap).trans hrow.str
  refine ⟨hstr, ka, ?_, ?_⟩
  · rw [hstr]
    exact hs
  · rw [hstr]
    exact hrow

theorem Listed.known (h : Listed env a p) (hp : a.heap[p]? = some ka) :
    known? a (strOf env a p) = some ka := by
  obtain ⟨ka', hs, hrow⟩ := h
  exact known_of_row hs hp

/-- A map of the book: every pointer is found under the string of its known address. -/
def MapOf (env : Env) (a : AddrBook) (m : Bucket) : Prop :=
  ∀ s p, m.lookup s = some p → strOf env a p = s ∧ Listed env a p

theorem RepInv.mapOf_addrLookup (h : RepInv env a) : MapOf env a a.addrLookup := by
  intro s p hs
  obtain ⟨ka, hrow⟩ := (h.rows s).of_some hs
  exact hrow.listed hs

variable {i : Nat} {bucket : Bucket} {heap : List KnownAddress}

theorem RepInv.mapOf_bucket (h : RepInv env a) {t : BucketType}
    (hb : (a.buckets t)[i]? = some bucket) : MapOf env a bucket := by
  intro s p hs
  have hget : bucketGet a t i s = some p := by
    rw [bucketGet, hb]
    exact hs
  obtain ⟨hlook, -⟩ := (h.bucketGet_iff t i s p).mp hget
  exact h.mapOf_addrLookup s p hlook

theorem MapOf.listed {m : Bucket} (hm : MapOf env a m) : ∀ q ∈ m.pointers, Listed env a q := by
  intro q hq
  obtain ⟨⟨s, q⟩, hmem, rfl⟩ := List.mem_map.mp hq
  exact (hm s q (AList.mem_lookup_iff.mpr hmem)).2

/-- The strings of the pointers are the keys. -/
theorem MapOf.map_strOf {m : Bucket} (hm : MapOf env a m) :
    m.pointers.map (strOf env a) = m.keys := by
  show (m.entries.map Sigma.snd).map (strOf env a) = m.entries.map Sigma.fst
  rw [List.map_map]
  refine List.map_congr_left fun entry hentry => ?_
  exact (hm entry.1 entry.2 (AList.mem_lookup_iff.mpr hentry)).1

theorem listed_of_order {m : Bucket} (hm : MapOf env a m) (order : IterOrder Nat) :
    ∀ q ∈ order.apply m.pointers, Listed env a q :=
  fun q hq => hm.listed q ((order.perm _).mem_iff.mp hq)

/-! ### Eviction -/

/-- The loop of `expireNew` finds the first bad known address of those it visits. -/
theorem firstBad_spec (clock : Nat → Nat → Int) (ps : List Nat) (k : Nat)
    (hps : ∀ q ∈ ps, Listed env a q) :
    ∃ r, a.firstBad clock ps k = .ok r ∧ (∀ q, r = some q → q ∈ ps) ∧
      (contents a).firstBad clock (ps.map (strOf env a)) k = r.map (strOf env a) := by
  induction ps generalizing k with
  | nil => exact ⟨none, rfl, fun q hq => absurd hq.symm (Option.some_ne_none q), rfl⟩
  | cons q ps ih =>
    obtain ⟨ka, -, hrow⟩ := hps q List.mem_cons_self
    have hknown := (hps q List.mem_cons_self).known hrow.heap
    have hbad : (contents a).isBad (strOf env a q) (clock k) = ka.isBad (clock k) := by
      simp [Contents.isBad, contents, hknown]
    rw [AddrBook.firstBad, deref_eq_ok.mpr hrow.heap, List.map_cons, Contents.firstBad, hbad]
    show ∃ r, (if ka.isBad (clock k) then _ else _) = _ ∧ _
    split
    · exact ⟨some q, rfl, fun q' hq' => Option.some.inj hq' ▸ List.mem_cons_self, rfl⟩
    · obtain ⟨r, hr, hmem, hcont⟩ := ih (k + 1) fun q' hq' => hps q' (.tail _ hq')
      exact ⟨r, hr, fun q' hq' => .tail _ (hmem q' hq'), hcont⟩

theorem Listed.lastAttempt (h : Listed env a p) (hp : a.heap[p]? = some ka) :
    (contents a).lastAttempt (strOf env a p) = ka.lastAttempt := by
  simp [Contents.lastAttempt, contents, h.known hp]

/-- The loop of `pickOldest` with a pointer that it has already. -/
theorem oldestLoop_spec (ps : List Nat) (oldest : Nat)
    (hps : ∀ q ∈ oldest :: ps, Listed env a q) :
    ∃ r, a.oldestLoop ps (some oldest) = .ok (some r) ∧ r ∈ oldest :: ps ∧
      (contents a).oldest (ps.map (strOf env a)) (some (strOf env a oldest)) =
        some (strOf env a r) := by
  induction ps generalizing oldest with
  | nil => exact ⟨oldest, rfl, List.mem_cons_self, rfl⟩
  | cons q ps ih =>
    have hlo := hps oldest List.mem_cons_self
    have hlq := hps q (.tail _ List.mem_cons_self)
    obtain ⟨kaOldest, -, hold⟩ := id hlo
    obtain ⟨ka, -, hrow⟩ := id hlq
    rw [AddrBook.oldestLoop, deref_eq_ok.mpr hrow.heap, List.map_cons, Contents.oldest,
      hlq.lastAttempt hrow.heap, hlo.lastAttempt hold.heap]
    show ∃ r, (a.deref oldest >>= _) = _ ∧ _
    rw [deref_eq_ok.mpr hold.heap]
    show ∃ r, a.oldestLoop ps
      (some (if ka.lastAttempt < kaOldest.lastAttempt then q else oldest)) = _ ∧ _
    -- Whichever of the two is older, it is a pointer of the bucket.
    have hnext : ∀ o ∈ [oldest, q], ∃ r, a.oldestLoop ps (some o) = .ok (some r) ∧
        r ∈ oldest :: q :: ps ∧ (contents a).oldest (ps.map (strOf env a))
          (some (strOf env a o)) = some (strOf env a r) := by
      intro o ho
      have hsub : ∀ r ∈ o :: ps, r ∈ oldest :: q :: ps := by
        intro r hr
        rcases List.mem_cons.mp hr with rfl | hr
        · exact List.mem_append_left ps ho
        · exact .tail _ (.tail _ hr)
      obtain ⟨r, hr, hmem, hcont⟩ := ih o fun q' hq' => hps q' (hsub q' hq')
      exact ⟨r, hr, hsub r hmem, hcont⟩
    split
    · exact hnext q (.tail _ List.mem_cons_self)
    · exact hnext oldest List.mem_cons_self

/-- The chance of a call on a book, in terms of strings. Only bucket `i` is iterated over. -/
def liftChance (env : Env) (a : AddrBook) (chance : Chance) (i : Nat) : Contents.Chance where
  now := chance.now
  clock := chance.clock
  badOrder := (chance.badOrder.apply (a.bucketsNew[i]?.getD ∅).pointers).map (strOf env a)
  oldestOrder := (chance.oldestOrder.apply (a.bucketsNew[i]?.getD ∅).pointers).map (strOf env a)
  draw := chance.draw

/-- The chance of `addAddress`, which iterates over the bucket of the address. -/
def liftCall (env : Env) (a : AddrBook) (chance : Chance) (addr src : Option NetAddress) :
    Contents.Chance :=
  match addr, src with
  | some addr, some src => liftChance env a chance (a.calcNewBucket env addr src)
  | _, _ => liftChance env a chance 0

theorem liftChance_eq (env : Env) (chance : Chance) (hb : (a.buckets .new)[i]? = some bucket) :
    liftChance env a chance i =
      ⟨chance.now, chance.clock, (chance.badOrder.apply bucket.pointers).map (strOf env a),
        (chance.oldestOrder.apply bucket.pointers).map (strOf env a), chance.draw⟩ := by
  have hbucket : a.bucketsNew[i]?.getD ∅ = bucket := by
    rw [show a.bucketsNew[i]? = some bucket from hb, Option.getD_some]
  rw [liftChance, hbucket]

/-- `expireNew` on a bucket that is not empty takes one reference of one of its
addresses away. -/
theorem expireNew_spec (h : RepInv env a) (chance : Chance)
    (hb : (a.buckets .new)[i]? = some bucket) (hne : bucket.entries ≠ []) :
    ∃ a' s q, a.expireNew env chance i = .ok a' ∧ bucket.lookup s = some q ∧
      a.addrLookup.lookup s = some q ∧ Update env s a a' ∧
      (∀ q', q ≠ q' → a'.heap[q']? = a.heap[q']?) ∧
      contents a' = (contents a).expireNew (liftChance env a chance i) i := by
  have hlisted := listed_of_order (h.mapOf_bucket hb)
  -- Whichever pointer of the bucket is chosen, it can be removed.
  have hremove : ∀ q ∈ bucket.pointers,
      (contents a).victim (liftChance env a chance i) = some (strOf env a q) →
      ∃ a' s, a.removeFromBucket env q i = .ok a' ∧
        bucket.lookup s = some q ∧ a.addrLookup.lookup s = some q ∧ Update env s a a' ∧
        (∀ q', q ≠ q' → a'.heap[q']? = a.heap[q']?) ∧
        contents a' = (contents a).expireNew (liftChance env a chance i) i := by
    intro q hq hvictim
    obtain ⟨s, ka, hlook, hs, hrow, -, hi⟩ := h.of_bucket hb hq
    obtain ⟨a', hrun, hupd, hcont, hsame⟩ := removeFromBucket_spec h hs hrow hi
    refine ⟨a', s, hrun, hlook, hs, hupd, hsame, ?_⟩
    have hknown : (contents a).known s = some ka := known_of_row hs hrow.heap
    rw [(hrow.listed hs).1] at hvictim
    rw [hcont, Contents.expireNew, hvictim]
    simp only [hknown, Option.bind_some]
  obtain ⟨r, hr, hrmem, hfirst⟩ := firstBad_spec chance.clock
    (chance.badOrder.apply bucket.pointers) 0 (hlisted _)
  rw [AddrBook.expireNew, getBucket_eq_ok.mpr hb]
  show ∃ a' s q, (AddrBook.firstBad _ _ _ _ >>= _) = _ ∧ _
  rw [hr]
  cases r with
  | some q =>
    obtain ⟨a', s, hrun, hrest⟩ := hremove q
      ((chance.badOrder.perm _).mem_iff.mp (hrmem q rfl))
      (by simp only [Contents.victim, liftChance_eq env chance hb, hfirst, Option.map_some])
    exact ⟨a', s, q, hrun, hrest⟩
  | none =>
    show ∃ a' s q, (AddrBook.pickOldest _ _ _ _ >>= _) = _ ∧ _
    rw [AddrBook.pickOldest, getBucket_eq_ok.mpr hb]
    cases hps : chance.oldestOrder.apply bucket.pointers with
    | nil =>
      -- The bucket is not empty, so the iteration visits something.
      have hperm := chance.oldestOrder.perm bucket.pointers
      rw [hps] at hperm
      exact absurd (List.map_eq_nil_iff.mp (List.Perm.nil_eq hperm).symm) hne
    | cons o ps =>
      have hall := hlisted chance.oldestOrder
      rw [hps] at hall
      obtain ⟨q, hq, hqmem, holdest⟩ := oldestLoop_spec ps o hall
      rw [← hps] at hqmem
      obtain ⟨a', s, hrun, hrest⟩ := hremove q ((chance.oldestOrder.perm _).mem_iff.mp hqmem)
        (by
          simp only [Contents.victim, liftChance_eq env chance hb, hfirst, Option.map_none, hps]
          exact holdest)
      refine ⟨a', s, q, ?_, hrest⟩
      show ((AddrBook.oldestLoop a (chance.oldestOrder.apply bucket.pointers) none) >>= _) = _
      rw [hps]
      show (AddrBook.oldestLoop a ps (some o) >>= _) = _
      rw [hq]
      exact hrun

/-! ### Addition -/

theorem calcNewBucket_lt (env : Env) (a : AddrBook) (addr src : NetAddress) :
    a.calcNewBucket env addr src < newBucketCount := Nat.mod_lt _ (by decide)

theorem calcOldBucket_lt (env : Env) (a : AddrBook) (addr : NetAddress) :
    a.calcOldBucket env addr < oldBucketCount := Nat.mod_lt _ (by decide)

theorem RepInv.getBucket (h : RepInv env a) {t : BucketType} (hi : i < bucketCount t) :
    ∃ bucket, (a.buckets t)[i]? = some bucket :=
  ⟨_, List.getElem?_eq_getElem (by rw [h.length]; exact hi)⟩

/-- A known address in the book, that is in order. -/
theorem Row.loose (hrow : Row env a s p ka) (hs : a.addrLookup.lookup s = some p) :
    Loose env a p ka := by
  obtain rfl := hrow.str
  exact ⟨hrow.heap, hrow.filed, .inl ⟨hs, hrow.refs.ne_nil⟩⟩

/-- A known address that the book has no entry for, and that refers to no bucket. -/
theorem RepInv.loose (h : RepInv env a) (hp : a.heap[p]? = some ka)
    (hs : a.addrLookup.lookup (env.str ka.addr) = none) (hnil : ka.buckets = []) :
    Loose env a p ka := by
  refine ⟨hp, fun t i q => ?_, .inr ⟨hs, hnil⟩⟩
  rw [(h.rows _).of_none hs t i, hnil]
  simp

/-- Another string changes. -/
theorem Loose.update (hl : Loose env a p ka) (hs : s ≠ env.str ka.addr) (hu : Update env s a a')
    (hp : a'.heap[p]? = a.heap[p]?) : Loose env a' p ka := by
  have hsame := hu.frame _ (Ne.symm hs)
  refine ⟨hp.trans hl.heap, fun t i q => ?_, ?_⟩
  · rw [hsame.buckets]
    exact hl.filed t i q
  · rw [hsame.lookup]
    exact hl.lookup

theorem addBucketRef_of_not_mem (hnot : i ∉ ka.buckets) :
    ka.addBucketRef i = ({ ka with buckets := ka.buckets ++ [i] },
      ((ka.buckets ++ [i]).length : Int)) := by
  rw [KnownAddress.addBucketRef, if_neg hnot]

theorem length_concat_eq_one (l : List Nat) : ((l ++ [i]).length : Int) = 1 ↔ l = [] := by
  rw [List.length_append, List.length_singleton, ← List.length_eq_zero_iff]
  omega

/-- `fileKnown` step by step. -/
theorem fileKnown_eq (hp : a.heap[p]? = some ka) (hb : (a.buckets ka.bucketType)[i]? = some bucket)
    (hnot : i ∉ ka.buckets) :
    a.fileKnown env ka.bucketType p i = .ok (insertRef env a p ka i bucket) := by
  rw [AddrBook.fileKnown, deref_eq_ok.mpr hp]
  show (a.getBucket _ _ >>= _) = _
  rw [getBucket_eq_ok.mpr hb]
  simp only [addBucketRef_of_not_mem hnot]
  show Except.ok (if ((ka.buckets ++ [i]).length : Int) = 1 then _ else _) = _
  rw [insertRef]
  by_cases hnil : ka.buckets = []
  · rw [if_pos ((length_concat_eq_one _).mpr hnil), if_pos hnil]
  · rw [if_neg (fun hone => hnil ((length_concat_eq_one _).mp hone)), if_neg hnil, addCount_zero]

/-- A known address gets into one more bucket. -/
theorem fileKnown_spec (h : RepInv env a) (hl : Loose env a p ka)
    (hi : i < bucketCount ka.bucketType) (hnot : i ∉ ka.buckets)
    (hrefs : RefsOk { ka with buckets := ka.buckets ++ [i] }) :
    ∃ a', a.fileKnown env ka.bucketType p i = .ok a' ∧ Update env (env.str ka.addr) a a' ∧
      contents a' =
        (contents a).set (env.str ka.addr) (some { ka with buckets := ka.buckets ++ [i] }) := by
  obtain ⟨bucket, hb⟩ := h.getBucket hi
  have hupd := insertRef_update h hl hb hnot hrefs
  refine ⟨_, fileKnown_eq hl.heap hb hnot, hupd, hupd.contents_eq ?_ (known_of_row (p := p) ?_ ?_)⟩
  · rw [insertRef, header_addCount, header_setKnown]
    exact header_setBucket ..
  · rw [lookup_insertRef, if_pos rfl]
  · rw [heap_insertRef]
    exact getElem?_set_of_some hl.heap _

/-- A bucket has the string of a new address exactly when the address refers to it. -/
theorem Loose.mem_bucket_iff (hl : Loose env a p ka) (hnew : ka.bucketType = .new)
    (hb : (a.buckets .new)[i]? = some bucket) : env.str ka.addr ∈ bucket ↔ i ∈ ka.buckets := by
  have hget : bucketGet a .new i (env.str ka.addr) = bucket.lookup (env.str ka.addr) := by
    rw [bucketGet, hb]
    rfl
  rw [← AList.lookup_isSome, Option.isSome_iff_exists]
  simp only [← hget, hl.filed .new i, hnew, true_and, exists_eq_left]

/-- A new address with less than four references may get one more. -/
theorem refsOk_append (hnew : ka.bucketType = .new)
    (hlt : ka.buckets.length < maxNewBucketsPerAddress) (hnodup : ka.buckets.Nodup)
    (hnot : i ∉ ka.buckets) : RefsOk { ka with buckets := ka.buckets ++ [i] } := by
  unfold RefsOk
  simp only [hnew, List.length_append, List.length_singleton]
  exact ⟨by omega, hlt, List.nodup_append.mpr ⟨hnodup, List.nodup_singleton i,
    fun j hj k hk => by rw [List.mem_singleton.mp hk]; rintro rfl; exact hnot hj⟩⟩

/-- A known address that may get one more reference. -/
structure HasRoom (env : Env) (a : AddrBook) (p : Nat) (ka : KnownAddress) : Prop where
  loose : Loose env a p ka
  isNew : ka.bucketType = .new
  lt : ka.buckets.length < maxNewBucketsPerAddress
  nodup : ka.buckets.Nodup

/-- A new address of the book with less than four references. -/
theorem Row.hasRoom (hrow : Row env a s p ka) (hs : a.addrLookup.lookup s = some p)
    (hold : ¬ ka.isOld = true) (hmax : ka.buckets.length ≠ maxNewBucketsPerAddress) :
    HasRoom env a p ka := by
  have hnew : ka.bucketType = .new := by
    cases hty : ka.bucketType with
    | new => rfl
    | old =>
      rw [KnownAddress.isOld, hty] at hold
      exact absurd rfl hold
  have hrefs := hrow.refs
  unfold RefsOk at hrefs
  rw [hnew] at hrefs
  exact ⟨hrow.loose hs, hnew, by omega, hrefs.2.2⟩

/-- `addToNewBucket` of a new address with less than four references. -/
theorem addToNewBucket_spec (h : RepInv env a) (hroom : HasRoom env a p ka) (chance : Chance)
    (hi : i < newBucketCount) :
    ∃ a', a.addToNewBucket env chance p i = .ok (a', none) ∧ RepInv env a' ∧
      contents a' = (contents a).addToNewBucket env (liftChance env a chance i) ka i := by
  obtain ⟨hl, hnew, hlt, hnodup⟩ := hroom
  obtain ⟨bucket, hb⟩ := h.getBucket (t := .new) hi
  have hold : ka.isOld = false := by rw [KnownAddress.isOld, hnew]; rfl
  have hmem := hl.mem_bucket_iff hnew hb
  rw [AddrBook.addToNewBucket, deref_eq_ok.mpr hl.heap, Contents.addToNewBucket]
  show ∃ a', (if ka.isOld = true then _ else _) = _ ∧ _
  rw [hold]
  show ∃ a', (a.getBucket .new i >>= _) = _ ∧ _
  rw [getBucket_eq_ok.mpr hb]
  show ∃ a', (if env.str ka.addr ∈ bucket then _ else _) = _ ∧ _
  by_cases hin : env.str ka.addr ∈ bucket
  · rw [if_pos hin, if_pos (hmem.mp hin)]
    exact ⟨a, rfl, h, rfl⟩
  -- The bucket does not have the string, so the known address does not refer to it.
  have hnot : i ∉ ka.buckets := fun hmem' => hin (hmem.mpr hmem')
  rw [if_neg hin, if_neg hnot, h.bucketSize_eq hb]
  -- The rest of the call, from a book in which the address is where it was.
  have hfile : ∀ a₁, RepInv env a₁ → Loose env a₁ p ka →
      ∃ a', (a₁.fileKnown env .new p i >>= fun a' => pure (a', (none : Option Err))) =
          .ok (a', none) ∧ RepInv env a' ∧ contents a' = (contents a₁).set (env.str ka.addr)
            (some { ka with buckets := ka.buckets ++ [i] }) := by
    intro a₁ h₁ hl₁
    obtain ⟨a', hrun, hupd, hcont⟩ := fileKnown_spec h₁ hl₁ (by rw [hnew]; exact hi) hnot
      (refsOk_append hnew hlt hnodup hnot)
    rw [hnew] at hrun
    exact ⟨a', by rw [hrun]; rfl, h₁.update hupd, hcont⟩
  by_cases hfull : bucket.entries.length > newBucketSize
  · have hne : bucket.entries ≠ [] := by
      intro hnil
      rw [hnil] at hfull
      exact absurd hfull (by decide)
    obtain ⟨a₁, s, q, hexp, hsb, hs, hupd, hsame, hcont⟩ := expireNew_spec h chance hb hne
    -- The eviction hits another string: the bucket does not have this one.
    have hss : s ≠ env.str ka.addr := by
      rintro rfl
      rw [AList.lookup_eq_none.mpr hin] at hsb
      cases hsb
    have hl₁ := hl.update hss hupd (hsame p (Ne.symm (h.pointer_ne hl.heap hss hs)))
    rw [if_pos hfull, if_pos hfull, hexp, ← hcont]
    exact hfile a₁ (h.update hupd) hl₁
  · rw [if_neg hfull, if_neg hfull]
    exact hfile a h hl

/-- A change to the heap that leaves the known addresses of the book alone. -/
theorem RepInv.of_heap (h : RepInv env a)
    (hsame : ∀ s p, a.addrLookup.lookup s = some p → heap[p]? = a.heap[p]?) :
    RepInv env { a with heap := heap } := by
  have hat : ∀ s, SameAt s a { a with heap := heap } := fun s =>
    ⟨rfl, fun _ _ => rfl, fun p hp => hsame s p hp⟩
  refine ⟨h.length, fun s => (hat s).rowOk (h.rows s), fun t => (h.count_eq t).trans ?_⟩
  have hknown : knownOf { a with heap := heap } t = knownOf a t := by
    ext s
    rw [mem_knownOf, mem_knownOf, (hat s).known]
  rw [hknown]

theorem intn_of_pos (draw : Nat) {n : Int} (hn : 0 < n) :
    AddrBook.intn draw n = .ok (draw % n.toNat) := by
  rw [AddrBook.intn, if_neg (by omega)]

theorem contents_of_heap (hsame : ∀ s p, a.addrLookup.lookup s = some p → heap[p]? = a.heap[p]?) :
    contents { a with heap := heap } = contents a :=
  Contents.ext rfl rfl rfl (funext fun s =>
    SameAt.known ⟨rfl, fun _ _ => rfl, fun p hp => hsame s p hp⟩)

theorem liftChance_of_heap (h : RepInv env a)
    (hsame : ∀ s p, a.addrLookup.lookup s = some p → heap[p]? = a.heap[p]?) (chance : Chance)
    (hi : i < newBucketCount) :
    liftChance env { a with heap := heap } chance i = liftChance env a chance i := by
  obtain ⟨bucket, hb⟩ := h.getBucket (t := .new) hi
  have hb' : (AddrBook.buckets { a with heap := heap } .new)[i]? = some bucket := hb
  have hstr : ∀ (order : IterOrder Nat),
      (order.apply bucket.pointers).map (strOf env { a with heap := heap }) =
        (order.apply bucket.pointers).map (strOf env a) := by
    intro order
    refine List.map_congr_left fun q hq => ?_
    obtain ⟨ka, hs, -⟩ := listed_of_order (h.mapOf_bucket hb) order q hq
    rw [strOf, strOf, hsame _ q hs]
  rw [liftChance_eq env chance hb, liftChance_eq env chance hb', hstr, hstr]

/-- The first part of `addAddress`. `Int31n` is called with a positive number: a known
address has a reference. -/
theorem pickKnown_spec (h : RepInv env a) (chance : Chance) (addr src : NetAddress)
    (hi : i < newBucketCount) :
    ∃ a' r, a.pickKnown env chance addr src = .ok (a', r) ∧ RepInv env a' ∧
      contents a' = contents a ∧ liftChance env a' chance i = liftChance env a chance i ∧
      Option.Rel (HasRoom env a') r
        ((contents a).pickKnown env (liftChance env a chance i) addr src) := by
  unfold AddrBook.pickKnown Contents.pickKnown
  cases hs : a.addrLookup.lookup (env.str addr) with
  | none =>
    -- A new known address at the end of the heap. No pointer of the book leads there.
    have hsame : ∀ s p, a.addrLookup.lookup s = some p →
        (a.heap ++ [newKnownAddress chance.now addr src])[p]? = a.heap[p]? := by
      intro s p hp
      obtain ⟨ka, hrow⟩ := (h.rows s).of_some hp
      exact List.getElem?_append_left (List.getElem?_eq_some_iff.mp hrow.heap).1
    have h' := h.of_heap hsame
    refine ⟨_, _, rfl, h', contents_of_heap hsame, liftChance_of_heap h hsame chance hi, ?_⟩
    rw [contents_known_none hs]
    exact .some ⟨h'.loose List.getElem?_concat_length hs rfl, rfl,
      (by decide : 0 < maxNewBucketsPerAddress), List.nodup_nil⟩
  | some p =>
    obtain ⟨ka, hrow, hknown⟩ := h.known_of_lookup hs
    rw [hknown]
    show ∃ a' r, (a.deref p >>= _) = _ ∧ _
    rw [deref_eq_ok.mpr hrow.heap]
    show ∃ a' r, (if ka.isOld = true then _ else _) = _ ∧ _
    by_cases hold : ka.isOld = true
    · rw [if_pos hold]
      refine ⟨a, none, rfl, h, rfl, rfl, ?_⟩
      simp only [hold, true_or, if_true]
      exact .none
    rw [if_neg hold]
    show ∃ a' r, (if ka.buckets.length = maxNewBucketsPerAddress then _ else _) = _ ∧ _
    by_cases hmax : ka.buckets.length = maxNewBucketsPerAddress
    · rw [if_pos hmax]
      refine ⟨a, none, rfl, h, rfl, rfl, ?_⟩
      simp only [hmax, true_or, or_true, if_true]
      exact .none
    rw [if_neg hmax]
    show ∃ a' r, (AddrBook.intn _ _ >>= _) = _ ∧ _
    -- `Int31n` of twice the number of references, which is at least 1.
    have hpos := List.length_pos_iff.mpr hrow.refs.ne_nil
    rw [intn_of_pos _ (by omega : 0 < 2 * (ka.buckets.length : Int)),
      show (2 * (ka.buckets.length : Int)).toNat = 2 * ka.buckets.length by omega]
    refine ⟨a, _, rfl, h, rfl, rfl, ?_⟩
    simp only [hold, hmax, Bool.false_eq_true, false_or]
    show Option.Rel _ (if chance.draw % (2 * ka.buckets.length) ≠ 0 then _ else _)
      (if chance.draw % (2 * ka.buckets.length) ≠ 0 then _ else _)
    split
    · exact .none
    · exact .some (hrow.hasRoom hs hold hmax)

/-- `addAddress`, with the strings of the bucket in the order of the iteration. -/
theorem addAddress_spec (h : RepInv env a) (chance : Chance) (addr src : Option NetAddress) :
    ∃ a' err, a.addAddress env chance addr src = .ok (a', err) ∧ RepInv env a' ∧
      (contents a', err) =
        (contents a).addAddress env (liftCall env a chance addr src) addr src := by
  cases addr with
  | none => exact ⟨a, _, rfl, h, rfl⟩
  | some addr =>
    cases src with
    | none => exact ⟨a, _, rfl, h, rfl⟩
    | some src =>
      show ∃ a' err, (if env.str addr ∈ a.ourAddrs then _ else _) = _ ∧ _ ∧
        _ = (if env.str addr ∈ a.ourAddrs then _ else _)
      split
      · exact ⟨a, _, rfl, h, rfl⟩
      show ∃ a' err, (if a.routabilityStrict = true ∧ env.routable addr = false then _ else _) =
        _ ∧ _ ∧ _ = (if a.routabilityStrict = true ∧ env.routable addr = false then _ else _)
      split
      · exact ⟨a, _, rfl, h, rfl⟩
      obtain ⟨a₁, r, hpick, h₁, hcont₁, hlift, hr⟩ :=
        pickKnown_spec h chance addr src (calcNewBucket_lt env a addr src)
      have hbucket : a₁.calcNewBucket env addr src = a.calcNewBucket env addr src :=
        congrArg (fun c => c.blank.calcNewBucket env addr src) hcont₁
      show ∃ a' err, (a.pickKnown env chance addr src >>= _) = _ ∧ _
      rw [hpick]
      rw [liftCall]
      generalize (contents a).pickKnown env _ addr src = picked at hr ⊢
      cases hr with
      | none => exact ⟨a₁, none, rfl, h₁, congrArg (·, none) hcont₁⟩
      | some hroom =>
        obtain ⟨a₂, hrun, h₂, hcont₂⟩ :=
          addToNewBucket_spec h₁ hroom chance (calcNewBucket_lt env a₁ addr src)
        refine ⟨a₂, none, hrun, h₂, ?_⟩
        rw [hcont₂, hcont₁, hbucket, hlift]
        rfl

/-! ### The other methods -/

/-- The times and the number of attempts of a known address change. -/
theorem RepInv.touch (h : RepInv env a) (hs : a.addrLookup.lookup s = some p)
    (hrow : Row env a s p ka) (ka' : KnownAddress) (haddr : ka'.addr = ka.addr)
    (htype : ka'.bucketType = ka.bucketType) (hbuckets : ka'.buckets = ka.buckets) :
    RepInv env (a.setKnown p ka') ∧ Row env (a.setKnown p ka') s p ka' ∧
      contents (a.setKnown p ka') = (contents a).set s (some ka') := by
  have hself : (a.setKnown p ka').heap[p]? = some ka' := getElem?_set_of_some hrow.heap ka'
  have hs' : (a.setKnown p ka').addrLookup.lookup s = some p := hs
  have hrow' : Row env (a.setKnown p ka') s p ka' := by
    refine ⟨hself, by rw [haddr]; exact hrow.str, ?_, fun t i q => ?_⟩
    · have hrefs := hrow.refs
      unfold RefsOk at hrefs ⊢
      rwa [htype, hbuckets]
    · rw [htype, hbuckets]
      exact hrow.filed t i q
  have hupd : Update env s a (a.setKnown p ka') := by
    refine ⟨fun _ => rfl, fun s' hne => ⟨rfl, fun _ _ => rfl, fun q hq => ?_⟩, ?_, fun t => ?_⟩
    · refine List.getElem?_set_ne (h.pointer_ne hrow.heap ?_ hq)
      rw [hrow.str]
      exact hne
    · rw [RowOk, hs']
      exact ⟨ka', hrow'⟩
    · simp only [mem_knownOf_iff hs hrow.heap, mem_knownOf_iff hs' hself, htype]
      rfl
  exact ⟨h.update hupd, hrow', hupd.contents_eq rfl (known_of_row hs' hself)⟩

/-- `addToOldBucket` of an address that the book does not have. A full bucket leaves the
book as it is. -/
theorem addToOldBucket_spec (h : RepInv env a) (hp : a.heap[p]? = some ka)
    (hs : a.addrLookup.lookup (env.str ka.addr) = none) (hold : ka.bucketType = .old)
    (hnil : ka.buckets = []) (hi : i < oldBucketCount) :
    ∃ a' err, a.addToOldBucket env p i = .ok (a', err) ∧ RepInv env a' ∧
      contents a' = (contents a).set (env.str ka.addr)
        (if oldBucketSize < (contents a).bucketSize .old i then none
          else some { ka with buckets := [i] }) := by
  obtain ⟨bucket, hb⟩ := h.getBucket (t := .old) hi
  have hnew : ka.isNew = false := by rw [KnownAddress.isNew, hold]; rfl
  rw [AddrBook.addToOldBucket, deref_eq_ok.mpr hp, h.bucketSize_eq hb]
  show ∃ a' err, (if ka.isNew = true then _ else _) = _ ∧ _
  rw [hnew]
  show ∃ a' err, (if ka.buckets.length ≠ 0 then _ else _) = _ ∧ _
  rw [hnil, if_neg (by simp)]
  show ∃ a' err, (a.getBucket .old i >>= _) = _ ∧ _
  rw [getBucket_eq_ok.mpr hb]
  show ∃ a' err, (if oldBucketSize < bucket.entries.length then _ else _) = _ ∧ _
  split
  · exact ⟨a, _, rfl, h, (contents_set_none hs).symm⟩
  · have hrefs : RefsOk { ka with buckets := ka.buckets ++ [i] } := by
      unfold RefsOk
      simp only [hold, hnil, List.nil_append, List.length_singleton]
    obtain ⟨a', hrun, hupd, hcont⟩ := fileKnown_spec h (h.loose hp hs hnil)
      (by rw [hold]; exact hi) (by rw [hnil]; exact List.not_mem_nil) hrefs
    rw [hold] at hrun
    rw [hnil] at hcont
    exact ⟨a', none, by rw [hrun]; rfl, h.update hupd, hcont⟩

/-- `moveToOld` of a new address. -/
theorem moveToOld_spec (h : RepInv env a) (hs : a.addrLookup.lookup s = some p)
    (hrow : Row env a s p ka) (hnew : ka.bucketType = .new) :
    ∃ a' err, a.moveToOld env p = .ok (a', err) ∧ RepInv env a' ∧
      contents a' = (contents a).set s ((contents a).moved env ka) := by
  have hold : ka.isOld = false := by rw [KnownAddress.isOld, hnew]; rfl
  rw [AddrBook.moveToOld, deref_eq_ok.mpr hrow.heap]
  show ∃ a' err, (if ka.isOld = true then _ else _) = _ ∧ _
  rw [hold]
  show ∃ a' err, (if ka.buckets.length = 0 then _ else _) = _ ∧ _
  rw [if_neg (by simpa using hrow.refs.ne_nil)]
  -- The address leaves the book before it is filed as an old one.
  obtain ⟨a₁, hrun, hupd, hcont₁, hgone, hheap⟩ := removeFromAllBuckets_spec h hs hrow
  have h₁ := h.update hupd
  have hp₁ : a₁.heap[p]? = some { ka with buckets := [] } := by
    rw [hheap]
    exact getElem?_set_of_some hrow.heap _
  show ∃ a' err, (a.removeFromAllBuckets env p >>= _) = _ ∧ _
  rw [hrun]
  show ∃ a' err, (a₁.deref p >>= _) = _ ∧ _
  rw [deref_eq_ok.mpr hp₁]
  obtain rfl := hrow.str
  -- No string has the known address now, so a change to it does not show.
  have hsame : ∀ s' q, a₁.addrLookup.lookup s' = some q →
      (a₁.heap.set p { ka with buckets := [], bucketType := .old })[q]? = a₁.heap[q]? := by
    intro s' q hq
    refine List.getElem?_set_ne (h₁.pointer_ne hp₁ ?_ hq)
    rintro rfl
    cases hgone.symm.trans hq
  have hcont₂ : contents (a₁.setKnown p { ka with buckets := [], bucketType := .old }) =
      (contents a).set (env.str ka.addr) none := (contents_of_heap hsame).trans hcont₁
  obtain ⟨a', err, hadd, h', hcont⟩ := addToOldBucket_spec (h₁.of_heap hsame)
    (getElem?_set_of_some hp₁ _) hgone rfl rfl (calcOldBucket_lt env
      (a₁.setKnown p { ka with buckets := [], bucketType := .old }) ka.addr)
  refine ⟨a', err, hadd, h', hcont.trans ?_⟩
  have hknown : (contents a).known (env.str ka.addr) = some ka := known_of_row hs hrow.heap
  have hbucket : (a₁.setKnown p { ka with buckets := [], bucketType := .old }).calcOldBucket env
      ka.addr = (contents a).blank.calcOldBucket env ka.addr :=
    congrArg (fun c => c.blank.calcOldBucket env ka.addr) hcont₂
  have hsize := Contents.bucketSize_set_of_new hknown hnew (v := none)
    (by intro ka' hka'; cases hka') ((contents a).blank.calcOldBucket env ka.addr)
  rw [← Contents.set_set (contents a) _ none, ← hcont₂, Contents.moved, ← hsize, ← hcont₂,
    ← hbucket]
  rfl

/-- `MarkGood` does to the contents what the abstract call does. -/
theorem markGood_spec (h : RepInv env a) (now : Int) (addr : NetAddress) :
    ∃ a', a.markGood env now addr = .ok a' ∧ RepInv env a' ∧
      contents a' = (contents a).markGood env now addr := by
  unfold AddrBook.markGood
  rw [Contents.markGood]
  cases hs : a.addrLookup.lookup (env.str addr) with
  | none =>
    refine ⟨a, rfl, h, ?_⟩
    rw [contents_known_none hs, Option.bind_none, contents_set_none hs]
  | some p =>
    obtain ⟨ka, hrow, hknown⟩ := h.known_of_lookup hs
    obtain ⟨h₁, hrow₁, hcont₁⟩ := h.touch hs hrow (ka.markGood now) rfl rfl rfl
    rw [hknown, Option.bind_some]
    show ∃ a', (a.deref p >>= _) = _ ∧ _
    rw [deref_eq_ok.mpr hrow.heap]
    show ∃ a', (if ka.isNew = true then _ else _) = _ ∧ _
    split
    · next hnew =>
      have hty : ka.bucketType = .new := of_decide_eq_true hnew
      obtain ⟨a', err, hrun, h', hcont⟩ := moveToOld_spec h₁ hs hrow₁ hty
      have hsize := Contents.bucketSize_set_of_new hknown hty
        (v := some (ka.markGood now)) (by intro ka' hka'; cases hka'; exact hty)
      refine ⟨a', ?_, h', ?_⟩
      · show ((a.setKnown p (ka.markGood now)).moveToOld env p >>= _) = _
        rw [hrun]
        rfl
      · rw [hcont, hcont₁, Contents.set_set]
        simp only [Contents.moved, hsize]
        rfl
    · exact ⟨_, rfl, h₁, hcont₁⟩

/-- `MarkAttempt` does to the contents what the abstract call does. -/
theorem markAttempt_spec (h : RepInv env a) (now : Int) (addr : NetAddress) :
    ∃ a', a.markAttempt env now addr = .ok a' ∧ RepInv env a' ∧
      contents a' = (contents a).markAttempt env now addr := by
  unfold AddrBook.markAttempt
  rw [Contents.markAttempt]
  cases hs : a.addrLookup.lookup (env.str addr) with
  | none =>
    refine ⟨a, rfl, h, ?_⟩
    rw [contents_known_none hs, Option.map_none, contents_set_none hs]
  | some p =>
    obtain ⟨ka, hrow, hknown⟩ := h.known_of_lookup hs
    obtain ⟨h₁, -, hcont₁⟩ := h.touch hs hrow (ka.markAttempt now) rfl rfl rfl
    rw [hknown, Option.map_some]
    show ∃ a', (a.deref p >>= _) = _ ∧ _
    rw [deref_eq_ok.mpr hrow.heap]
    exact ⟨_, rfl, h₁, hcont₁⟩

theorem removeAddress_spec (h : RepInv env a) (addr : NetAddress) :
    ∃ a', a.removeAddress env addr = .ok a' ∧ RepInv env a' ∧
      contents a' = (contents a).removeAddress env addr := by
  unfold AddrBook.removeAddress
  rw [Contents.removeAddress]
  cases hs : a.addrLookup.lookup (env.str addr) with
  | none =>
    exact ⟨a, rfl, h, (contents_set_none hs).symm⟩
  | some p =>
    obtain ⟨ka, hrow⟩ := (h.rows _).of_some hs
    obtain ⟨a', hrun, hupd, hcont, -⟩ := removeFromAllBuckets_spec h hs hrow
    exact ⟨a', hrun, h.update hupd, hcont⟩

/-! ### Runs -/

/-- What a call leaves of the contents. -/
noncomputable def contentsAfter (env : Env) (a : AddrBook) : AddrBook.Op → Contents
  | .addAddress chance addr src =>
    ((contents a).addAddress env (liftCall env a chance addr src) addr src).1
  | .markGood now addr => (contents a).markGood env now addr
  | .markAttempt now addr => (contents a).markAttempt env now addr
  | .removeAddress addr => (contents a).removeAddress env addr
  | .addOurAddress addr => (contents a).addOurAddress env addr

/-- Every call keeps the invariant, does not panic, and changes the contents as it should. -/
theorem step_spec (h : RepInv env a) (op : AddrBook.Op) :
    ∃ a', a.step env op = .ok a' ∧ RepInv env a' ∧ contents a' = contentsAfter env a op := by
  cases op with
  | addAddress chance addr src =>
    obtain ⟨a', err, hrun, h', hcont⟩ := addAddress_spec h chance addr src
    exact ⟨a', by rw [AddrBook.step, hrun]; rfl, h', congrArg Prod.fst hcont⟩
  | markGood now addr => exact markGood_spec h now addr
  | markAttempt now addr => exact markAttempt_spec h now addr
  | removeAddress addr => exact removeAddress_spec h addr
  | addOurAddress addr =>
    have hat : ∀ s, SameAt s a (a.addOurAddress env addr) := fun s =>
      ⟨rfl, fun _ _ => rfl, fun _ _ => rfl⟩
    exact ⟨_, rfl, ⟨h.length, fun s => (hat s).rowOk (h.rows s), h.count_eq⟩, rfl⟩

theorem contents_of_step (h : RepInv env a) {op : AddrBook.Op} (hstep : a.step env op = .ok a') :
    RepInv env a' ∧ contents a' = contentsAfter env a op := by
  obtain ⟨a₁, hrun, hspec⟩ := step_spec h op
  cases hrun.symm.trans hstep
  exact hspec

/-- A new book is in order. -/
theorem repInv_new (env : Env) (routabilityStrict : Bool) (key : Str) :
    RepInv env (newAddrBook routabilityStrict key) := by
  have hempty : ∀ (n i : Nat) (s : Str),
      ((List.replicate n (∅ : Bucket))[i]?.bind fun b : Bucket => b.lookup s) = none := by
    intro n i s
    rw [List.getElem?_replicate]
    split
    · exact AList.lookup_empty s
    · rfl
  have hnone : ∀ s, (newAddrBook routabilityStrict key).addrLookup.lookup s = none := fun s =>
    AList.lookup_empty s
  refine ⟨fun t => ?_, fun s => ?_, fun t => ?_⟩
  · cases t <;> exact List.length_replicate
  · rw [RowOk, hnone]
    intro t i
    cases t <;> exact hempty _ i s
  · have hcard : knownOf (newAddrBook routabilityStrict key) t = ∅ :=
      Finset.eq_empty_of_forall_notMem fun s => not_mem_knownOf (hnone s) t
    rw [hcard]
    cases t <;> rfl

/-- Every run keeps the invariant and does not panic. -/
theorem run_spec (h : RepInv env a) (ops : List AddrBook.Op) :
    ∃ a', a.run env ops = .ok a' ∧ RepInv env a' := by
  refine foldlM_succeeds (fun a op _ h => ?_) h
  obtain ⟨a', hstep, h', -⟩ := step_spec h op
  exact ⟨a', hstep, h'⟩

end

end BtmStats.Proofs.Pex
