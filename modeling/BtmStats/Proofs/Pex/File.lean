import BtmStats.Proofs.Pex.MarkGood
import BtmStats.Proofs.Pex.SameContents

/-!
# `BtmStats.Proofs.Pex.File`: a book that is saved and loaded is the same book

A known address lists its buckets, so the known addresses of `addrLookup` are the whole
book. `SaveToFile` writes them in some order. `loadFromFile` files each of them under its
string and in its buckets: one round sets one string of the contents (`loadKnown_spec`),
so the rounds together set the strings that were saved (`load_spec`).

The loaded book has the contents of the saved one, and by `SameBook.calls` a caller cannot
tell them apart (`addrBook_file_roundTrip`).
-/

set_option autoImplicit false

namespace BtmStats.Proofs.Pex

open Lib Spec Spec.Pex

section
variable {env : Env} {a a' : AddrBook} {s : Str} {p : Nat} {ka : KnownAddress}

/-! ### One round of the loop -/

/-- The inner loop of `loadFromFile` puts the string into the buckets listed. -/
theorem fileInBuckets_spec (s : Str) (p : Nat) (t : BucketType) (refs : List Nat)
    (hin : ∀ i ∈ refs, i < (a.buckets t).length) :
    ∃ a', AddrBook.fileInBuckets s p t refs a = .ok a' ∧ SetInBuckets t refs s (some p) a a' :=
  bucketLoop_spec (fun _ => rfl) (fun _ _ _ => rfl)
    (fun bucket s' => lookup_insert_eq_ite bucket s s' p) refs hin

/-- A known address that a book can have. -/
structure Loadable (ka : KnownAddress) : Prop where
  refs : RefsOk ka
  lt : ∀ i ∈ ka.buckets, i < bucketCount ka.bucketType

theorem Row.loadable (h : RepInv env a) (hrow : Row env a s p ka) : Loadable ka := by
  refine ⟨hrow.refs, fun i hi => ?_⟩
  obtain ⟨bucket, hb⟩ := hrow.bucket hi
  rw [← h.length]
  exact (List.getElem?_eq_some_iff.mp hb).1

/-- A round for a string that the book does not have sets it. -/
theorem loadKnown_spec (h : RepInv env a) (hka : Loadable ka)
    (hs : a.addrLookup.lookup (env.str ka.addr) = none) :
    ∃ a', a.loadKnown env ka = .ok a' ∧ RepInv env a' ∧
      contents a' = (contents a).set (env.str ka.addr) (some ka) := by
  obtain ⟨a₁, hrun, hset⟩ := fileInBuckets_spec
    (a := { a with heap := a.heap ++ [ka],
                   addrLookup := a.addrLookup.insert (env.str ka.addr) a.heap.length })
    (env.str ka.addr) a.heap.length ka.bucketType ka.buckets
    (fun i hi => (hka.lt i hi).trans_eq (h.length _).symm)
  have hlook' : ∀ s', (a₁.addCount ka.bucketType 1).addrLookup.lookup s' =
      if s' = env.str ka.addr then some a.heap.length else a.addrLookup.lookup s' := by
    intro s'
    rw [addrLookup_addCount, hset.addrLookup]
    exact lookup_insert_eq_ite ..
  have hget' : ∀ t j s', bucketGet (a₁.addCount ka.bucketType 1) t j s' =
      if t = ka.bucketType ∧ j ∈ ka.buckets ∧ s' = env.str ka.addr then some a.heap.length
      else bucketGet a t j s' := by
    intro t j s'
    rw [bucketGet_addCount, hset.bucketGet]
    rfl
  have hself : (a₁.addCount ka.bucketType 1).heap[a.heap.length]? = some ka := by
    rw [heap_addCount, hset.heap]
    exact List.getElem?_concat_length
  -- The known addresses that the book had are where they were.
  have hframe : ∀ s', s' ≠ env.str ka.addr → SameAt s' a (a₁.addCount ka.bucketType 1) := by
    intro s' hne
    refine ⟨by rw [hlook', if_neg hne], fun t j => by rw [hget', if_neg fun hc => hne hc.2.2],
      fun q hq => ?_⟩
    obtain ⟨kq, hrow⟩ := (h.rows s').of_some hq
    rw [heap_addCount, hset.heap]
    exact List.getElem?_append_left (List.getElem?_eq_some_iff.mp hrow.heap).1
  have hupd : Update env (env.str ka.addr) a (a₁.addCount ka.bucketType 1) := by
    refine ⟨fun t => ?_, hframe, ?_, fun t => ?_⟩
    · rw [buckets_addCount]
      exact hset.length t
    · rw [RowOk, hlook', if_pos rfl]
      refine ⟨ka, hself, rfl, hka.refs, fun t j q => ?_⟩
      rw [hget', (h.rows _).of_none hs t j]
      by_cases hc : t = ka.bucketType ∧ j ∈ ka.buckets
      · rw [if_pos ⟨hc.1, hc.2, rfl⟩]
        simp [hc.1, hc.2, eq_comm]
      · rw [if_neg fun hcc => hc ⟨hcc.1, hcc.2.1⟩]
        refine ⟨fun hq => ?_, fun hq => absurd ⟨hq.2.1.symm, hq.2.2⟩ hc⟩
        cases hq
    · rw [count_addCount, hset.count_eq]
      simp only [not_mem_knownOf hs t, mem_knownOf_iff ((hlook' _).trans (if_pos rfl)) hself,
        if_false, add_zero]
      rfl
  refine ⟨_, ?_, h.update hupd, hupd.contents_eq ?_ ?_⟩
  · rw [AddrBook.loadKnown]
    show (AddrBook.fileInBuckets _ _ _ _ _ >>= _) = _
    rw [hrun]
    rfl
  · rw [header_addCount, hset.header]
    rfl
  · exact known_of_row ((hlook' _).trans (if_pos rfl)) hself

/-! ### The loop -/

/-- The loop sets the strings of the known addresses, which are all different. -/
theorem load_spec (h : RepInv env a) (kas : List KnownAddress) (hkas : ∀ ka ∈ kas, Loadable ka)
    (hnodup : (kas.map fun ka => env.str ka.addr).Nodup)
    (hnew : ∀ ka ∈ kas, known? a (env.str ka.addr) = none) :
    ∃ a', kas.foldlM (AddrBook.loadKnown env) a = .ok a' ∧ RepInv env a' ∧ header a' = header a ∧
      (∀ ka ∈ kas, known? a' (env.str ka.addr) = some ka) ∧
      ∀ s, s ∉ kas.map (fun ka => env.str ka.addr) → known? a' s = known? a s := by
  induction kas generalizing a with
  | nil => exact ⟨a, rfl, h, rfl, nofun, fun _ _ => rfl⟩
  | cons ka kas ih =>
    rw [List.map_cons, List.nodup_cons] at hnodup
    obtain ⟨hnotin, hnodup⟩ := hnodup
    have hlook : a.addrLookup.lookup (env.str ka.addr) = none := by
      rw [AList.lookup_eq_none, ← h.known_isSome_iff, hnew ka List.mem_cons_self]
      simp
    obtain ⟨a₁, hrun, h₁, hcont⟩ := loadKnown_spec h (hkas ka List.mem_cons_self) hlook
    have hknown₁ : ∀ s, known? a₁ s = ((contents a).set (env.str ka.addr) (some ka)).known s :=
      fun s => congrArg (fun c => c.known s) hcont
    have hother : ∀ s, s ≠ env.str ka.addr → known? a₁ s = known? a s := by
      intro s hne
      rw [hknown₁, Contents.known_set_of_ne _ hne]
      rfl
    have hne : ∀ kb ∈ kas, env.str kb.addr ≠ env.str ka.addr := fun kb hkb heq =>
      hnotin (heq ▸ List.mem_map_of_mem hkb)
    obtain ⟨a', hrest, h', hhead, hin, hout⟩ := ih h₁ (fun kb hkb => hkas kb (.tail _ hkb)) hnodup
      fun kb hkb => (hother _ (hne kb hkb)).trans (hnew kb (.tail _ hkb))
    refine ⟨a', ?_, h', hhead.trans ?_, fun kb hkb => ?_, fun s hs => ?_⟩
    · rw [List.foldlM_cons, hrun]
      exact hrest
    · exact Prod.ext (congrArg Contents.routabilityStrict hcont) (Prod.ext
        (congrArg Contents.key hcont) (congrArg Contents.ourAddrs hcont))
    · rcases List.mem_cons.mp hkb with rfl | hkb
      · rw [hout _ hnotin, hknown₁, Contents.known_set_self]
      · exact hin kb hkb
    · rw [List.map_cons, List.mem_cons, not_or] at hs
      rw [hout s hs.2, hother s hs.1]

/-! ### What is saved -/

/-- Every string of the book is saved once, with its known address. -/
structure SavedOf (env : Env) (a : AddrBook) (kas : List KnownAddress) : Prop where
  loadable : ∀ ka ∈ kas, Loadable ka
  nodup : (kas.map fun ka => env.str ka.addr).Nodup
  known : ∀ ka ∈ kas, known? a (env.str ka.addr) = some ka
  all : ∀ s ka, known? a s = some ka → ka ∈ kas

/-- What is written is one record for each known address. -/
theorem saved_savedOf (h : RepInv env a) (order : IterOrder Nat) :
    ∃ kas, a.saved order = .ok ⟨a.key, kas⟩ ∧ SavedOf env a kas := by
  obtain ⟨⟨key, kas⟩, hsaved, rfl, hmap⟩ := saved_spec h order
  refine ⟨kas, hsaved, ?_⟩
  have hperm : ((order.apply a.addrLookup.pointers).map (strOf env a)).Perm a.addrLookup.keys :=
    h.mapOf_addrLookup.map_strOf ▸ (order.perm _).map _
  generalize (order.apply a.addrLookup.pointers).map (strOf env a) = strings at hmap hperm
  change kas.map some = _ at hmap
  have hrow : ∀ ka ∈ kas, ∃ s ∈ strings, known? a s = some ka := by
    intro ka hka
    have hmem : some ka ∈ kas.map some := List.mem_map_of_mem hka
    rw [hmap] at hmem
    exact List.mem_map.mp hmem
  have hstr : ∀ s ka, known? a s = some ka → env.str ka.addr = s := by
    intro s ka hs
    obtain ⟨p, -, hrow⟩ := h.row_of_known hs
    exact hrow.str
  -- The strings that were visited are the strings of what was found.
  have hstrings : (kas.map fun ka => env.str ka.addr) = strings := by
    have hback := congrArg (List.map fun o : Option KnownAddress =>
      (o.map fun ka => env.str ka.addr).getD []) hmap
    rw [List.map_map, List.map_map] at hback
    refine hback.trans ((List.map_congr_left fun s hs => ?_).trans (List.map_id _))
    have hmem := AList.mem_keys.mpr (hperm.mem_iff.mp hs)
    obtain ⟨ka, hka⟩ := Option.isSome_iff_exists.mp ((h.known_isSome_iff s).mpr hmem)
    simp [hka, hstr s ka hka]
  refine ⟨fun ka hka => ?_, ?_, fun ka hka => ?_, fun s ka hs => ?_⟩
  · obtain ⟨s, -, hs⟩ := hrow ka hka
    obtain ⟨p, -, hrow⟩ := h.row_of_known hs
    exact hrow.loadable h
  · rw [hstrings]
    exact hperm.nodup_iff.mpr a.addrLookup.keys_nodup
  · obtain ⟨s, -, hs⟩ := hrow ka hka
    rw [hstr s ka hs]
    exact hs
  · have hmem : s ∈ a.addrLookup := (h.known_isSome_iff s).mp (by rw [hs]; rfl)
    have hin : some ka ∈ kas.map some := by
      rw [hmap, ← hs]
      exact List.mem_map_of_mem (hperm.mem_iff.mpr (AList.mem_keys.mp hmem))
    obtain ⟨ka', hka', heq⟩ := List.mem_map.mp hin
    exact Option.some.inj heq ▸ hka'

/-- Loading what was saved into a new book gives the known addresses of the old one. -/
theorem load_saved (h : RepInv env a) {kas : List KnownAddress} (hkas : SavedOf env a kas)
    (routabilityStrict : Bool) :
    ∃ b, kas.foldlM (AddrBook.loadKnown env) (newAddrBook routabilityStrict a.key) = .ok b ∧
      RepInv env b ∧ header b = (routabilityStrict, a.key, ∅) ∧
      ∀ s, known? b s = known? a s := by
  have hnew : ∀ s, known? (newAddrBook routabilityStrict a.key) s = none := by
    intro s
    have hlook : (newAddrBook routabilityStrict a.key).addrLookup.lookup s = none :=
      AList.lookup_empty s
    exact contents_known_none hlook
  obtain ⟨b, hload, hb, hhead, hin, hout⟩ := load_spec
    (repInv_new env routabilityStrict a.key) kas hkas.loadable hkas.nodup fun ka _ => hnew _
  refine ⟨b, hload, hb, hhead, fun s => ?_⟩
  cases hs : known? a s with
  | some ka =>
    have hka := hkas.all s ka hs
    obtain ⟨p, -, hrow⟩ := h.row_of_known hs
    rw [← hrow.str]
    exact hin ka hka
  | none =>
    rw [hout s, hnew]
    intro hmem
    obtain ⟨ka, hka, rfl⟩ := List.mem_map.mp hmem
    cases hs.symm.trans (hkas.known ka hka)

/-! ### Runs -/

/-- `encoding/json` round-trips what `SaveToFile` encodes. -/
def RoundTrips (json : BookJson) : Prop :=
  ∀ aJSON, ∃ rawDats, json.marshalIndent aJSON = .ok rawDats ∧ json.decode rawDats = .ok aJSON

/-- A call of `AddAddress`, `MarkGood`, `MarkAttempt` or `RemoveAddress`. -/
def AboutOthers : AddrBook.Op → Prop
  | .addOurAddress _ => False
  | _ => True

theorem step_header (env : Env) (a : AddrBook) {op : AddrBook.Op} (hop : AboutOthers op) :
    (contentsAfter env a op).routabilityStrict = a.routabilityStrict ∧
      (contentsAfter env a op).ourAddrs = a.ourAddrs := by
  cases op with
  | addAddress chance addr src => exact Contents.addAddress_header ..
  | markGood | markAttempt | removeAddress => exact ⟨rfl, rfl⟩
  | addOurAddress addr => exact hop.elim

/-- A run of such calls on a new book. -/
theorem run_header (env : Env) (routabilityStrict : Bool) (key : Str) {ops : List AddrBook.Op}
    (hops : ∀ op ∈ ops, AboutOthers op) :
    ∃ a, (newAddrBook routabilityStrict key).run env ops = .ok a ∧ RepInv env a ∧
      a.routabilityStrict = routabilityStrict ∧ a.ourAddrs = ∅ := by
  refine foldlM_succeeds (P := fun a => RepInv env a ∧ a.routabilityStrict = routabilityStrict ∧
    a.ourAddrs = ∅) (fun a op hop hP => ?_) ⟨repInv_new env routabilityStrict key, rfl, rfl⟩
  obtain ⟨h, hstrict, hour⟩ := hP
  obtain ⟨a', hstep, h', hcont⟩ := step_spec h op
  obtain ⟨hstrict', hour'⟩ := step_header env a (hops op hop)
  rw [← hcont] at hstrict' hour'
  exact ⟨a', hstep, h', hstrict'.trans hstrict, hour'.trans hour⟩

/-- Whatever the first book returns to calls, the second returns in some orders of
iteration. -/
def Imitates (env : Env) (a b : AddrBook) : Prop :=
  ∀ cs, ∃ cs' a' b' replies, List.Forall₂ SameCall cs cs' ∧ a.calls env cs = .ok (a', replies) ∧
    b.calls env cs' = .ok (b', replies)

theorem SameBook.imitates {b : AddrBook} (h : SameBook env a b) : Imitates env a b := by
  intro cs
  obtain ⟨cs', a', b', replies, hcs, hrun, hrun', -⟩ := h.calls cs
  exact ⟨cs', a', b', replies, hcs, hrun, hrun'⟩

end

/-- A book that calls lead to is saved, and loaded into a new book. The new book has the
key, the known addresses, the buckets and the counters of the old one, and it is in order.
If it is as strict as the old one, neither can be told from the other by any further
calls. -/
theorem addrBook_file_roundTrip (env : Env) (json : BookJson) (hjson : RoundTrips json)
    (routabilityStrict : Bool) (key : Str) (ops : List AddrBook.Op)
    (hops : ∀ op ∈ ops, AboutOthers op) (order : IterOrder Nat) (file : Option Str)
    (strict' : Bool) (key' : Str) :
    ∃ a b rawDats, (newAddrBook routabilityStrict key).run env ops = .ok a ∧
      a.saveToFile json order none file = .ok (some rawDats, none) ∧
      (newAddrBook strict' key').loadFromFile env json (some rawDats) = .ok (b, none) ∧
      b.key = a.key ∧ (∀ s, s ∈ b.addrLookup ↔ s ∈ a.addrLookup) ∧
      (∀ s, known? b s = known? a s) ∧
      (∀ t i s, (bucketGet b t i s).isSome ↔ (bucketGet a t i s).isSome) ∧
      b.nNew = a.nNew ∧ b.nOld = a.nOld ∧ RepInv env b ∧
      (strict' = routabilityStrict → Imitates env a b ∧ Imitates env b a) := by
  obtain ⟨a, hrun, h, hstrict, hour⟩ := run_header env routabilityStrict key hops
  obtain ⟨kas, hsaved, hkas⟩ := saved_savedOf h order
  obtain ⟨rawDats, hmarshal, hdecode⟩ := hjson ⟨a.key, kas⟩
  obtain ⟨b, hload, hb, hhead, hknown⟩ := load_saved h hkas strict'
  simp only [header, Prod.mk.injEq] at hhead
  obtain ⟨hstrict', hkey, hour'⟩ := hhead
  refine ⟨a, b, rawDats, hrun, ?_, ?_, hkey, fun s => ?_, hknown, fun t i s => ?_,
    count_eq_of_known h hb hknown .new, count_eq_of_known h hb hknown .old, hb, fun hsame => ?_⟩
  · rw [AddrBook.saveToFile, hsaved]
    simp [bind, Except.bind, hmarshal, pure, Except.pure]
  · rw [AddrBook.loadFromFile]
    simp only [hdecode]
    show (kas.foldlM (AddrBook.loadKnown env) (newAddrBook strict' a.key) >>= _) = _
    rw [hload]
    rfl
  · rw [← h.known_isSome_iff, ← hb.known_isSome_iff, hknown]
  · rw [h.bucketGet_isSome_iff, hb.bucketGet_isSome_iff]
    exact exists_congr fun ka => and_congr_left fun _ => by
      rw [show (contents b).known s = (contents a).known s from hknown s]
  · have hsameBook : SameBook env a b := ⟨h, hb, Contents.ext
      (hstrict'.trans (hsame.trans hstrict.symm)) hkey (hour'.trans hour.symm) (funext hknown)⟩
    exact ⟨hsameBook.imitates, hsameBook.symm.imitates⟩

/-! ### A book with two addresses -/

instance : Encodable KnownAddress :=
  .ofLeftInverse
    (fun ka => (ka.addr.ip, ka.addr.port.toNat, ka.src.ip, ka.src.port.toNat, ka.attempts.toInt,
      ka.lastAttempt, ka.lastSuccess, ka.isOld, ka.buckets))
    (fun (ip, port, srcIP, srcPort, attempts, lastAttempt, lastSuccess, isOld, buckets) =>
      ⟨⟨ip, .ofNat port⟩, ⟨srcIP, .ofNat srcPort⟩, .ofInt attempts, lastAttempt, lastSuccess,
        if isOld then .old else .new, buckets⟩)
    fun ka => by
      have htype : (if ka.isOld = true then BucketType.old else .new) = ka.bucketType := by
        cases hty : ka.bucketType <;> simp [KnownAddress.isOld, hty]
      simp [htype]

/-- A stand-in for `encoding/json`: the number of what is encoded, in unary. -/
def unaryBookJson : BookJson where
  marshalIndent aJSON := .ok (toUnary (aJSON.key, aJSON.addrs))
  decode rawDats :=
    match ofUnary (Str × List KnownAddress) rawDats with
    | none => .error (RootErr.errorf "").err
    | some (key, addrs) => .ok ⟨key, addrs⟩

theorem unaryBookJson_roundTrips : RoundTrips unaryBookJson := by
  intro aJSON
  refine ⟨_, rfl, ?_⟩
  simp [unaryBookJson]

/-- Two addresses are added, and the first is marked as good. -/
def twoHosts : List AddrBook.Op := [addHost 1, addHost 2, .markGood 0 (hostAddr 1)]

/-- Both addresses are in the loaded book, each in a bucket of its type. -/
theorem addrBook_file_roundTrip_two :
    RoundTrips unaryBookJson ∧ (∀ op ∈ twoHosts, AboutOthers op) ∧
    ∃ b rawDats, (newAddrBook false [7]).loadFromFile oneBucketEnv unaryBookJson (some rawDats) =
        .ok (b, none) ∧
      (∀ s, s ∈ b.addrLookup ↔ s = [1] ∨ s = [2]) ∧ b.nNew = 1 ∧ b.nOld = 1 ∧
      (bucketGet b .old 0 [1]).isSome ∧ (bucketGet b .new 0 [2]).isSome := by
  have hops : ∀ op ∈ twoHosts, AboutOthers op := by
    intro op hop
    rcases List.mem_cons.mp hop with rfl | hop
    · exact trivial
    rcases List.mem_cons.mp hop with rfl | hop
    · exact trivial
    cases List.mem_singleton.mp hop
    exact trivial
  obtain ⟨a, b, rawDats, hrun, -, hload, -, hmem, -, hget, hnew, hold, -⟩ :=
    addrBook_file_roundTrip oneBucketEnv unaryBookJson unaryBookJson_roundTrips false []
      twoHosts hops ⟨id, .refl⟩ none false [7]
  have hvalue : ((newAddrBook false []).run oneBucketEnv twoHosts).map (fun a =>
      (a.addrLookup.keys, a.nNew, a.nOld, (bucketGet a .old 0 [1]).isSome,
        (bucketGet a .new 0 [2]).isSome)) = .ok ([[1], [2]], 1, 1, true, true) := by
    decide
  rw [hrun] at hvalue
  obtain ⟨hkeys, hnews, holds, hfirst, hsecond⟩ :
      a.addrLookup.keys = [[1], [2]] ∧ a.nNew = 1 ∧ a.nOld = 1 ∧
        (bucketGet a .old 0 [1]).isSome = true ∧ (bucketGet a .new 0 [2]).isSome = true := by
    simpa only [Prod.mk.injEq] using Except.ok.inj hvalue
  refine ⟨unaryBookJson_roundTrips, hops, b, rawDats, hload, fun s => ?_, hnew.trans hnews,
    hold.trans holds, (hget ..).mpr hfirst, (hget ..).mpr hsecond⟩
  rw [hmem, AList.mem_keys, hkeys, List.mem_pair]

end BtmStats.Proofs.Pex
