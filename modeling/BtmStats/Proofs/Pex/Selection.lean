import BtmStats.Proofs.Pex.Methods

/-!
# `BtmStats.Proofs.Pex.Selection`: the addresses that `GetSelection` returns

`GetSelection` collects the address of every entry of `addrLookup` (`allAddr_spec`), shuffles
the front of the list (`selectLoop_spec`) and returns it. A swap within the list only changes
its order, so whatever is drawn, the addresses that are returned are different entries of the
book. How many they are is computed from the counters, which agree with the number of entries
(`RepInv.size_eq`). `getSelection_samples` says this for the book after any calls.
-/

set_option autoImplicit false

namespace BtmStats.Proofs.Pex

open Lib Spec Spec.Pex

section
variable {env : Env} {a : AddrBook}

/-! ### The collected addresses -/

/-- The counters add up to the number of entries of `addrLookup`. -/
theorem RepInv.size_eq (h : RepInv env a) : a.size = a.addrLookup.entries.length := by
  -- Each entry has a known address of one of the two types.
  have hunion : knownOf a .new ∪ knownOf a .old = a.addrLookup.keys.toFinset := by
    ext s
    rw [Finset.mem_union]
    constructor
    · rintro (hs | hs)
      · exact (Finset.mem_filter.mp hs).1
      · exact (Finset.mem_filter.mp hs).1
    · intro hs
      have hmem := AList.mem_keys.mpr (List.mem_toFinset.mp hs)
      obtain ⟨p, hp⟩ := Option.isSome_iff_exists.mp (AList.lookup_isSome.mpr hmem)
      obtain ⟨ka, hrow⟩ := (h.rows s).of_some hp
      rw [mem_knownOf_iff hp hrow.heap, mem_knownOf_iff hp hrow.heap]
      cases ka.bucketType
      · exact .inl rfl
      · exact .inr rfl
  have hdisj : Disjoint (knownOf a .new) (knownOf a .old) := by
    rw [Finset.disjoint_left]
    intro s hnew hold
    obtain ⟨ka, hka, hty⟩ := mem_knownOf.mp hnew
    obtain ⟨ka', hka', hty'⟩ := mem_knownOf.mp hold
    rw [hka, Option.some.injEq] at hka'
    rw [hka', hty'] at hty
    cases hty
  have hcard := Finset.card_union_of_disjoint hdisj
  rw [hunion, List.toFinset_card_of_nodup a.addrLookup.keys_nodup] at hcard
  have hnew : a.nNew = (knownOf a .new).card := h.count_eq .new
  have hold : a.nOld = (knownOf a .old).card := h.count_eq .old
  have hlen : a.addrLookup.keys.length = a.addrLookup.entries.length := List.length_map _
  rw [AddrBook.size, hnew, hold]
  omega

/-- What a list of pointers leads to, by the strings. -/
theorem mapM_deref {ps : List Nat} (hps : ∀ q ∈ ps, Listed env a q) :
    ∃ kas, ps.mapM a.deref = .ok kas ∧ kas.map some = (ps.map (strOf env a)).map (known? a) := by
  induction ps with
  | nil => exact ⟨[], rfl, rfl⟩
  | cons q ps ih =>
    obtain ⟨kas, hkas, hmap⟩ := ih fun q' hq' => hps q' (.tail _ hq')
    have hq := hps q List.mem_cons_self
    obtain ⟨ka, -, hrow⟩ := id hq
    refine ⟨ka :: kas, ?_, ?_⟩
    · rw [List.mapM_cons, deref_eq_ok.mpr hrow.heap, hkas]
      rfl
    · rw [List.map_cons, List.map_cons, List.map_cons, hmap, hq.known hrow.heap]

/-- The addresses of known addresses, all at once. -/
theorem mapM_map_addr (a : AddrBook) (ps : List Nat) :
    (ps.mapM fun p => (a.deref p).map KnownAddress.addr) =
      (ps.mapM a.deref).map fun kas => kas.map KnownAddress.addr := by
  induction ps with
  | nil => rfl
  | cons q ps ih =>
    rw [List.mapM_cons, List.mapM_cons, ih]
    cases a.deref q with
    | error e => rfl
    | ok ka => cases ps.mapM a.deref <;> rfl

/-- The known addresses of a list of strings have these strings. -/
theorem RepInv.map_str_of_known (h : RepInv env a) {kas : List KnownAddress} {ss : List Str}
    (hmap : kas.map some = ss.map (known? a)) :
    (kas.map KnownAddress.addr).map env.str = ss ∧
      ∀ ka ∈ kas, known? a (env.str ka.addr) = some ka := by
  induction kas generalizing ss with
  | nil =>
    obtain rfl := List.map_eq_nil_iff.mp hmap.symm
    exact ⟨rfl, fun _ hmem => absurd hmem List.not_mem_nil⟩
  | cons ka kas ih =>
    cases ss with
    | nil => cases hmap
    | cons s ss =>
      obtain ⟨hka, hrest⟩ := List.cons.inj hmap
      obtain ⟨hstrs, hknown⟩ := ih hrest
      obtain ⟨_, -, hrow⟩ := h.row_of_known hka.symm
      have hstr : env.str ka.addr = s := hrow.str
      refine ⟨?_, List.forall_mem_cons.mpr ⟨?_, hknown⟩⟩
      · rw [List.map_cons, List.map_cons, hstrs, hstr]
      · rw [hstr]
        exact hka.symm

/-- `GetSelection` collects the address of every entry, once. -/
theorem allAddr_spec (h : RepInv env a) (order : IterOrder Nat) :
    ∃ l, a.allAddr order = .ok l ∧ (l.map env.str).Perm a.addrLookup.keys ∧
      ∀ addr ∈ l, ∃ ka, known? a (env.str addr) = some ka ∧ ka.addr = addr := by
  have hmapOf := h.mapOf_addrLookup
  obtain ⟨kas, hkas, hmap⟩ := mapM_deref (listed_of_order hmapOf order)
  obtain ⟨hstrs, hknown⟩ := h.map_str_of_known hmap
  refine ⟨kas.map KnownAddress.addr, ?_, ?_, ?_⟩
  · rw [AddrBook.allAddr, mapM_map_addr, hkas]
    rfl
  · rw [hstrs, ← hmapOf.map_strOf]
    exact (order.perm _).map _
  · intro addr haddr
    obtain ⟨ka, hka, rfl⟩ := List.mem_map.mp haddr
    exact ⟨ka, hknown ka hka, rfl⟩

/-! ### The shuffle -/

/-- Two elements of the list can be swapped. -/
theorem swap_spec {α : Type} {l : List α} {i j : Nat} (hi : i < l.length) (hj : j < l.length) :
    ∃ l', AddrBook.swap l i j = .ok l' ∧ l'.Perm l := by
  rw [AddrBook.swap, List.getElem?_eq_getElem hi, List.getElem?_eq_getElem hj]
  exact ⟨_, rfl, List.set_set_perm hi hj⟩

/-- The loop of `GetSelection` stays within the list, and only changes its order. -/
theorem selectLoop_spec {α : Type} (draws : Nat → Nat) (k i : Nat) (l : List α)
    (hle : i + k ≤ l.length) :
    ∃ l', AddrBook.selectLoop draws k i l = .ok l' ∧ l'.Perm l := by
  induction k generalizing i l with
  | zero => exact ⟨l, rfl, .refl l⟩
  | succ k ih =>
    have hpos : 0 < (l.length : Int) - (i : Int) := by omega
    have hr : draws i % ((l.length : Int) - (i : Int)).toNat + i < l.length := by
      have := Nat.mod_lt (draws i) (by omega : ((l.length : Int) - (i : Int)).toNat > 0)
      omega
    obtain ⟨l₁, hl₁, hperm₁⟩ := swap_spec (by omega : i < l.length) hr
    have hlen₁ := hperm₁.length_eq
    obtain ⟨l', hl', hperm⟩ := ih (i + 1) l₁ (by omega)
    refine ⟨l', ?_, hperm.trans hperm₁⟩
    rw [AddrBook.selectLoop, intn_of_pos _ hpos]
    show (AddrBook.swap l i _ >>= _) = _
    rw [hl₁]
    exact hl'

/-! ### The selection -/

/-- The number of addresses that `GetSelection` returns, of a book with `s` of them. -/
def selectionSize (s : Nat) : Nat := min 250 (max (min 32 s) (s * 23 / 100))

theorem selectionSize_le (s : Nat) : selectionSize s ≤ s := by
  rw [selectionSize]
  omega

theorem numAddresses_eq {s : Nat} (h : a.size = s) : a.numAddresses = selectionSize s := by
  rw [AddrBook.numAddresses, h, Int.tdiv_eq_ediv_of_nonneg (by rw [getSelectionPercent]; omega)]
  rw [maxGetSelection, minGetSelection, getSelectionPercent, selectionSize]
  omega

/-- `GetSelection` takes the front of a shuffled list of all addresses. -/
theorem getSelection_spec (h : RepInv env a) (order : IterOrder Nat) (draws : Nat → Nat) :
    ∃ l, a.getSelection order draws = .ok l ∧
      l.length = selectionSize a.addrLookup.entries.length ∧ (l.map env.str).Nodup ∧
      ∀ addr ∈ l, ∃ ka, known? a (env.str addr) = some ka ∧ ka.addr = addr := by
  have hsize := h.size_eq
  rw [AddrBook.getSelection]
  split
  · next hzero =>
    have hlen : a.addrLookup.entries.length = 0 := by omega
    rw [hlen]
    exact ⟨[], rfl, rfl, List.nodup_nil, fun _ hmem => absurd hmem List.not_mem_nil⟩
  · obtain ⟨l, hl, hkeys, hknown⟩ := allAddr_spec h order
    have hlen : l.length = a.addrLookup.entries.length := by
      have hlen := hkeys.length_eq
      rw [List.length_map] at hlen
      rw [hlen]
      exact List.length_map _
    have hnum := numAddresses_eq hsize
    have hle := selectionSize_le a.addrLookup.entries.length
    have htoNat : a.numAddresses.toNat = selectionSize a.addrLookup.entries.length := by omega
    obtain ⟨l', hl', hperm⟩ := selectLoop_spec draws a.numAddresses.toNat 0 l (by omega)
    have hlen' := hperm.length_eq
    have hnodup : (l'.map env.str).Nodup :=
      ((hperm.map env.str).trans hkeys).nodup_iff.mpr a.addrLookup.keys_nodup
    refine ⟨l'.take a.numAddresses.toNat, ?_, ?_, ?_, fun addr haddr => ?_⟩
    · show (a.allAddr order >>= _) = _
      rw [hl]
      show (AddrBook.selectLoop draws a.numAddresses.toNat 0 _ >>= _) = _
      rw [hl']
      show (if a.numAddresses < 0 ∨ (l'.length : Int) < a.numAddresses then _ else _) = _
      rw [if_neg (by omega)]
      rfl
    · rw [List.length_take]
      omega
    · rw [List.map_take]
      exact hnodup.sublist (List.take_sublist _ _)
    · exact hknown addr (hperm.mem_iff.mp (List.mem_of_mem_take haddr))

end

/-- After any calls on a new book, in any order of iteration and with any draws, `GetSelection`
returns. Of `s` known addresses it returns nil for `s = 0`, and otherwise
`min(250, max(min(32, s), s*23/100))` of them, which are known and have different strings, so
they are pairwise different. -/
theorem getSelection_samples (env : Env) (routabilityStrict : Bool) (key : Str)
    (ops : List AddrBook.Op) (order : IterOrder Nat) (draws : Nat → Nat) :
    ∃ a l, (newAddrBook routabilityStrict key).run env ops = .ok a ∧
      a.getSelection order draws = .ok l ∧
      (a.addrLookup.entries.length = 0 → l = []) ∧
      (a.addrLookup.entries.length ≠ 0 → l.length =
        min 250 (max (min 32 a.addrLookup.entries.length)
          (a.addrLookup.entries.length * 23 / 100))) ∧
      (∀ addr ∈ l, ∃ ka, known? a (env.str addr) = some ka ∧ ka.addr = addr) ∧
      (l.map env.str).Nodup ∧ l.Nodup := by
  obtain ⟨a, hrun, h⟩ := run_spec (repInv_new env routabilityStrict key) ops
  obtain ⟨l, hl, hlen, hnodup, hknown⟩ := getSelection_spec h order draws
  refine ⟨a, l, hrun, hl, fun hzero => ?_, fun _ => hlen, hknown, hnodup, hnodup.of_map _⟩
  rw [hzero] at hlen
  exact List.length_eq_zero_iff.mp hlen

end BtmStats.Proofs.Pex
