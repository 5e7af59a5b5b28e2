import BtmStats.Proofs.Pex.Capacity
import BtmStats.Proofs.Pex.Exchange
import BtmStats.Spec.P2p.NetAddress

/-!
# `BtmStats.Proofs.Pex.LongAddresses`: IPs that are no IPs

Nothing checks the length of the IP of an address that comes in with a message. `Routable` holds for
every IP that is neither of 4 nor of 16 bytes, because all of its checks are about other IPs
(`OtherLength.routable`). So a strict book takes such an address too.

A message in the limit can bring in an IP of nearly 1 MB. As soon as the addresses of a book take
more than that together, and are few enough to be all selected, every answer of the node is refused
and its peers stop it (`long_addresses_cut_off`).
-/

set_option autoImplicit false

namespace BtmStats.Proofs.Pex

open Lib Spec Spec.Pex
open Spec.P2p (IP IPNet)
open Spec.Wire (writePointer writeSliceOf)

/-! ### IPs of other lengths -/

section
variable {ip : List UInt8}

/-- Neither an IPv4 nor an IPv6 address. -/
def OtherLength (ip : List UInt8) : Prop := ip.length ≠ 4 ∧ ip.length ≠ 16

theorem OtherLength.length_ne (h : OtherLength ip) {k : Nat} (hk : k = 4 ∨ k = 16) :
    ip.length ≠ k := by
  rcases hk with rfl | rfl
  · exact h.1
  · exact h.2

theorem OtherLength.to4 (h : OtherLength ip) : IP.to4 ip = none := by
  rw [IP.to4, if_neg h.1, if_neg fun hip => h.2 hip.1]

theorem OtherLength.not_contains (h : OtherLength ip) (n : IPNet)
    (hn : n.networkNumberAndMask.1.length = 4 ∨ n.networkNumberAndMask.1.length = 16) :
    n.contains ip = false := by
  simp only [IPNet.contains, h.to4, Option.getD_none, decide_eq_false (h.length_ne hn),
    Bool.false_and]

theorem OtherLength.not_equal (h : OtherLength ip) (x : List UInt8)
    (hx : x.length = 4 ∨ x.length = 16) : IP.equal ip x = false := by
  rw [IP.equal, if_neg (h.length_ne hx), if_neg fun hip => h.1 hip.1,
    if_neg fun hip => h.2 hip.1]

variable {na : NetAddress}

theorem OtherLength.valid (h : OtherLength na.bytes) (hip : na.ip ≠ none) : na.valid = true := by
  simp only [NetAddress.valid, IP.isUnspecified, NetAddress.rfc3849,
    Option.isSome_iff_ne_none.mpr hip]
  rw [h.not_equal (P2p.ipv4 0 0 0 0) (by decide), h.not_equal (P2p.ipv6 []) (by decide),
    h.not_equal (P2p.ipv4 255 255 255 255) (by decide), h.not_contains P2p.rfc3849 (by decide)]
  rfl

theorem OtherLength.not_isLocal (h : OtherLength na.bytes) : na.isLocal = false := by
  simp only [NetAddress.isLocal, IP.isLoopback, h.to4]
  rw [h.not_equal (List.replicate 15 0 ++ [1]) (by decide), h.not_contains P2p.zero4 (by decide)]
  rfl

theorem OtherLength.routable (h : OtherLength na.bytes) (hip : na.ip ≠ none) :
    na.routable = true := by
  simp only [NetAddress.routable, h.valid hip, h.not_isLocal, NetAddress.rfc1918,
    NetAddress.rfc3927, NetAddress.rfc4862, NetAddress.rfc4193, NetAddress.rfc4843]
  rw [h.not_contains P2p.rfc1918_10 (by decide), h.not_contains P2p.rfc1918_192 (by decide),
    h.not_contains P2p.rfc1918_172 (by decide), h.not_contains P2p.rfc3927 (by decide),
    h.not_contains P2p.rfc4862 (by decide), h.not_contains P2p.rfc4193 (by decide),
    h.not_contains P2p.rfc4843 (by decide)]
  rfl

end

/-! ### A book that is selected as a whole -/

section
variable {env : Env} {a : AddrBook}

/-- The book knows the address. -/
def Knows (env : Env) (a : AddrBook) (na : NetAddress) : Prop :=
  ∃ ka, known? a (env.str na) = some ka ∧ ka.addr = na

/-- Of at most 32 addresses none is left out. -/
theorem getSelection_all (hinv : RepInv env a) (hfew : a.addrLookup.entries.length ≤ 32)
    (order : IterOrder Nat) (draws : Nat → Nat) :
    ∃ l, a.getSelection order draws = .ok l ∧ l.length ≤ 32 ∧ (∀ na ∈ l, Knows env a na) ∧
      ∀ na, Knows env a na → na ∈ l := by
  obtain ⟨l, hl, hlen, hnodup, hknown⟩ := getSelection_spec hinv order draws
  have hsize : selectionSize a.addrLookup.entries.length = a.addrLookup.entries.length := by
    rw [selectionSize]
    omega
  have hsubset : l.map env.str ⊆ a.addrLookup.keys := by
    intro s hs
    obtain ⟨na, hna, rfl⟩ := List.mem_map.mp hs
    obtain ⟨ka, hka, -⟩ := hknown na hna
    exact (hinv.known_isSome_iff _).mp (by rw [hka]; rfl)
  have hperm : (l.map env.str).Perm a.addrLookup.keys := by
    refine (List.subperm_of_subset hnodup hsubset).perm_of_length_le ?_
    rw [List.length_map, hlen, hsize, AList.keys, List.keys, List.length_map]
  refine ⟨l, hl, by omega, hknown, ?_⟩
  rintro na ⟨ka, hka, rfl⟩
  have hmem : env.str ka.addr ∈ a.addrLookup.keys :=
    (hinv.known_isSome_iff _).mp (by rw [hka]; rfl)
  obtain ⟨na, hna, hstr⟩ := List.mem_map.mp (hperm.mem_iff.mpr hmem)
  obtain ⟨ka', hka', rfl⟩ := hknown na hna
  rw [hstr, hka, Option.some.injEq] at hka'
  rwa [hka']

end

/-! ### The size of an answer -/

theorem length_flatMap_write_le (l : List NetAddress) :
    (l.flatMap NetAddress.write).length ≤
      ((l.map some).flatMap (writePointer NetAddress.write)).length := by
  rw [List.flatMap_map]
  exact (List.Sublist.flatMap_right l fun na _ => List.sublist_cons_self 0x01 na.write).length_le

/-- An answer has all of the addresses in it. -/
theorem length_answer_ge {l nas : List NetAddress} (hnodup : nas.Nodup) (hsub : nas ⊆ l) :
    (nas.flatMap NetAddress.write).length ≤ (PexMessage.addrs (l.map some)).binaryBytes.length := by
  obtain ⟨nas', hperm, hsublist⟩ := List.subperm_of_subset hnodup hsub
  calc (nas.flatMap NetAddress.write).length
      = (nas'.flatMap NetAddress.write).length :=
        (hperm.flatMap_right NetAddress.write).length_eq.symm
    _ ≤ (l.flatMap NetAddress.write).length := (hsublist.flatMap NetAddress.write).length_le
    _ ≤ ((l.map some).flatMap (writePointer NetAddress.write)).length := length_flatMap_write_le l
    _ ≤ (PexMessage.addrs (l.map some)).binaryBytes.length := by
        rw [PexMessage.binaryBytes, writeSliceOf, List.length_cons, List.length_append]
        omega

/-! ### A new address -/

section
variable {env : Env} {a : AddrBook} {na : NetAddress}

theorem RepInv.bucketSize_le (hinv : RepInv env a) (t : BucketType) (i : Nat) :
    (contents a).bucketSize t i ≤ a.addrLookup.entries.length := by
  have hsub : (contents a).inBucket t i ⊆ (a.addrLookup.keys.toFinset : Set Str) := by
    rintro s ⟨ka, hka, -⟩
    have hka' : known? a s = some ka := hka
    rw [Finset.mem_coe, List.mem_toFinset]
    exact (hinv.known_isSome_iff s).mp (by rw [hka']; rfl)
  calc (contents a).bucketSize t i
      ≤ (a.addrLookup.keys.toFinset : Set Str).ncard :=
        Set.ncard_le_ncard hsub (Finset.finite_toSet _)
    _ = a.addrLookup.keys.toFinset.card := Set.ncard_coe_finset _
    _ ≤ a.addrLookup.keys.length := List.toFinset_card_le _
    _ = a.addrLookup.entries.length := List.length_map _

/-- A book with room takes a new address and keeps all others. -/
theorem addAddress_new (hinv : RepInv env a) (hacc : Accepts env a na)
    (hnew : known? a (env.str na) = none) (hroom : a.addrLookup.entries.length ≤ 64)
    (chance : Chance) (src : NetAddress) :
    ∃ a', a.addAddress env chance (some na) (some src) = .ok (a', none) ∧
      a.step env (.addAddress chance (some na) (some src)) = .ok a' ∧ RepInv env a' ∧
      Knows env a' na ∧ (∀ s, s ≠ env.str na → known? a' s = known? a s) ∧
      a'.addrLookup.entries.length ≤ a.addrLookup.entries.length + 1 ∧
      a'.ourAddrs = a.ourAddrs := by
  obtain ⟨a', err, hadd, hinv', -⟩ := addAddress_spec hinv chance (some na) (some src)
  obtain rfl : err = none := by
    cases err with
    | none => rfl
    | some err => exact absurd hacc (addAddress_refuses hinv hadd na rfl)
  have hstep : a.step env (.addAddress chance (some na) (some src)) = .ok a' := by
    rw [AddrBook.step, hadd]
    rfl
  have hpick : (contents a).pickKnown env (liftCall env a chance (some na) (some src)) na src =
      some (newKnownAddress (liftCall env a chance (some na) (some src)).now na src) := by
    have hnone : (contents a).known (env.str na) = none := hnew
    rw [Contents.pickKnown, hnone]
  have hcont := (contents_of_step hinv hstep).2
  rw [contentsAfter_of_files hacc hpick List.not_mem_nil, if_neg] at hcont
  · have hknown : known? a' = ((contents a).set (env.str na) _).known :=
      congrArg Contents.known hcont
    have hother : ∀ s, s ≠ env.str na → known? a' s = known? a s := fun s hs => by
      rw [hknown]
      exact Contents.known_set_of_ne _ hs _
    refine ⟨a', hadd, hstep, hinv', ⟨_, by rw [hknown]; exact Contents.known_set_self .., rfl⟩,
      hother, ?_, congrArg Contents.ourAddrs hcont⟩
    -- The keys are those of before and the new one.
    have hsub : a'.addrLookup.keys ⊆ env.str na :: a.addrLookup.keys := by
      intro s hs
      by_cases hna : s = env.str na
      · exact List.mem_cons.mpr (.inl hna)
      · have hsome := (hinv'.known_isSome_iff s).mpr hs
        rw [hother s hna] at hsome
        exact List.mem_cons_of_mem _ ((hinv.known_isSome_iff s).mp hsome)
    have hlen := (List.subperm_of_subset a'.addrLookup.keys_nodup hsub).length_le
    simpa only [AList.keys, List.keys, List.length_cons, List.length_map] using hlen
  · have := hinv.bucketSize_le .new (a.calcNewBucket env na src)
    rw [newBucketSize]
    omega

end

/-! ### The attack -/

section
variable {env : Env} {x : Exchange} {srcAddr : Nat → Nat → Option NetAddress}

/-- A message in the limit is handled. -/
theorem receive_addrs (src : NetAddress) {list : List (Option NetAddress)}
    (h : (PexMessage.addrs list).binaryBytes.length ≤ maxPexMessageSize) :
    receive (some src) false (PexMessage.addrs list).binaryBytes =
      .ok (.addAddrs src (list.map (Option.map NetAddress.sent))) := by
  obtain ⟨d, hdecode⟩ : ∃ d, decodeMessage (PexMessage.addrs list).binaryBytes = .ok d := ⟨_, rfl⟩
  have hmax := maxPexMessageSize_le
  obtain ⟨herr, hmsg⟩ := decodeMessage_binaryBytes (by omega) hdecode
  obtain ⟨msgType, msg, err⟩ := d
  obtain rfl : err = none := herr.mpr h
  obtain rfl : msg = some (PexMessage.sent (.addrs list)) := hmsg rfl
  simp only [receive, hdecode, bind, Except.bind]
  rfl

/-- A message over the limit is not. -/
theorem receive_large (src : Option NetAddress) {list : List (Option NetAddress)}
    (hmax : ((PexMessage.addrs list).binaryBytes.length : Int) ≤ Wire.maxSliceLength)
    (h : maxPexMessageSize < (PexMessage.addrs list).binaryBytes.length) :
    receive src false (PexMessage.addrs list).binaryBytes =
      .ok (.stop (.undecodable (PexMessage.addrs list).binaryBytes)) := by
  obtain ⟨d, hdecode⟩ : ∃ d, decodeMessage (PexMessage.addrs list).binaryBytes = .ok d := ⟨_, rfl⟩
  have herr := (decodeMessage_binaryBytes hmax hdecode).1
  obtain ⟨msgType, msg, err⟩ := d
  simp only [receive, hdecode, bind, Except.bind]
  cases err with
  | none => exact absurd (herr.mp rfl) (Nat.not_le.mpr h)
  | some err => rfl

/-- A node gets one address from an attacker. -/
def bringsIn (x : Exchange) (attacker node : Nat) (na : NetAddress) (chance : Chance)
    (order : IterOrder Nat) (draws : Nat → Nat) : List ExchangeEvent :=
  [.inject attacker node (PexMessage.addrs [some na]).binaryBytes,
    .receive x.wire.length false order draws true, .add x.calls.length chance]

theorem run_bringsIn {attacker node : Nat} {src na : NetAddress} {book : AddrBook}
    {chance : Chance} (hsrc : srcAddr node attacker = some src) (hip : na.bytes ≠ [])
    (hlen : (PexMessage.addrs [some na]).binaryBytes.length ≤ maxPexMessageSize)
    (hadd : (x.books node).addAddress env chance (some na) (some src) = .ok (book, none))
    (order : IterOrder Nat) (draws : Nat → Nat) :
    ∃ x', x.run env srcAddr (bringsIn x attacker node na chance order draws) = .ok x' ∧
      x'.books node = book ∧ x'.stops = x.stops := by
  have hreceive := receive_addrs src hlen
  rw [List.map_singleton, Option.map_some, sent_of_ne_nil hip] at hreceive
  refine ⟨⟨Function.update x.books node book,
    x.wire ++ [⟨attacker, node, (PexMessage.addrs [some na]).binaryBytes⟩],
    x.calls ++ [⟨attacker, node, src, []⟩], x.stops⟩, ?_, Function.update_self .., rfl⟩
  simp only [Exchange.run, bringsIn, List.foldlM_cons, List.foldlM_nil, Exchange.step, bind,
    Except.bind, List.getElem?_concat_length, hsrc, hreceive, hadd, Exchange.setBook]
  simp [pure, Except.pure]

/-- A node sends its addresses, and the message arrives. -/
def answers (x : Exchange) (node peer : Nat) (order : IterOrder Nat) (draws : Nat → Nat) :
    List ExchangeEvent :=
  [.sendAddrs node peer order draws true, .receive x.wire.length false order draws true]

/-- A peer that asks for the addresses stops the node. -/
theorem run_answers {node peer : Nat} {nas : List NetAddress} (hinv : RepInv env (x.books node))
    (hfew : (x.books node).addrLookup.entries.length ≤ 32) (hnodup : nas.Nodup)
    (hknows : ∀ na ∈ nas, Knows env (x.books node) na)
    (hlarge : maxPexMessageSize < (nas.flatMap NetAddress.write).length)
    (hmodest : KnownAddrs (fun na => na.bytes.length ≤ 2 ^ 22) (contents (x.books node)))
    (order : IterOrder Nat) (draws : Nat → Nat) :
    ∃ bytes, x.run env srcAddr (answers x node peer order draws) =
      .ok (Exchange.stop { x with wire := x.wire ++ [⟨node, peer, bytes⟩] } peer node
        (.undecodable bytes)) := by
  obtain ⟨l, hl, hlen, hknown, hall⟩ := getSelection_all hinv hfew order draws
  have hmax : ((PexMessage.addrs (l.map some)).binaryBytes.length : Int) ≤
      Wire.maxSliceLength := by
    have hbytes := length_binaryBytes_addrs_le (l.map some) (2 ^ 22) (by decide)
      (by rw [List.length_map, Wire.maxSliceLength]; omega) fun na hna => by
        obtain ⟨na', hmem, hna'⟩ := List.mem_map.mp hna
        cases hna'
        obtain ⟨ka, hka, rfl⟩ := hknown na hmem
        exact hmodest _ ka hka
    rw [List.length_map] at hbytes
    rw [Wire.maxSliceLength]
    omega
  have hreceive := receive_large (srcAddr peer node) hmax
    (hlarge.trans_le (length_answer_ge hnodup fun na hna => hall na (hknows na hna)))
  refine ⟨(PexMessage.addrs (l.map some)).binaryBytes, ?_⟩
  simp only [Exchange.run, answers, List.foldlM_cons, List.foldlM_nil, Exchange.step,
    Exchange.sendSelection, hl, bind, Except.bind, pure, Except.pure, Exchange.send, if_true,
    List.getElem?_concat_length, hreceive]

end

/-- An IP that fits into a message, and that no second one like it fits into one with. -/
def Oversized (na : NetAddress) : Prop := 524288 ≤ na.bytes.length ∧ na.bytes.length ≤ 1048554

variable {na : NetAddress}

theorem Oversized.length_binaryBytes_le (h : Oversized na) :
    (PexMessage.addrs [some na]).binaryBytes.length ≤ maxPexMessageSize := by
  have hlen := length_binaryBytes_addrs_le [some na] 1048554 (by decide)
    (show ((1 : Nat) : Int) ≤ _ by decide) fun na' hna' => by
      cases List.mem_singleton.mp hna'
      exact h.2
  rw [maxPexMessageSize]
  simpa using hlen

theorem Oversized.ne_nil (h : Oversized na) : na.bytes ≠ [] := by
  intro hnil
  have hlen := h.1
  rw [hnil] at hlen
  exact absurd hlen (by decide)

theorem Oversized.routable (h : Oversized na) : na.routable = true := by
  have hlen := h.1
  refine OtherLength.routable ⟨by omega, by omega⟩ fun hip => h.ne_nil ?_
  rw [NetAddress.bytes, hip]
  rfl

theorem Oversized.pair_too_large {na' : NetAddress} (h : Oversized na) (h' : Oversized na') :
    maxPexMessageSize < ([na, na'].flatMap NetAddress.write).length := by
  have hwrite := length_le_length_write na
  have hwrite' := length_le_length_write na'
  have hlong := h.1
  have hlong' := h'.1
  rw [List.flatMap_cons, List.flatMap_singleton, List.length_append, maxPexMessageSize]
  omega

/-- `Routable` holds for every IP of a length other than 4 and 16, and two messages are enough to
cut a node off from the exchange, whether its book is strict or not. From every state that is
reached with at most 30 addresses in its book, it takes the two long addresses of an attacker and
goes on. From then on every peer that it sends its addresses to stops it. -/
theorem long_addresses_cut_off {env : Env} (henv : env.routable = NetAddress.routable)
    (srcAddr : Nat → Nat → Option NetAddress) (routabilityStrict : Nat → Bool) (key : Nat → Str)
    {events : List ExchangeEvent} (hcalls : ModestCalls events) {x : Exchange}
    (hrun : (Exchange.fresh routabilityStrict key).run env srcAddr events = .ok x)
    (attacker node : Nat) {src na na' : NetAddress} (hsrc : srcAddr node attacker = some src)
    (hfew : (x.books node).addrLookup.entries.length ≤ 30)
    (hna : Oversized na) (hna' : Oversized na') (hne : env.str na ≠ env.str na')
    (hnew : known? (x.books node) (env.str na) = none)
    (hnew' : known? (x.books node) (env.str na') = none)
    (hown : env.str na ∉ (x.books node).ourAddrs) (hown' : env.str na' ∉ (x.books node).ourAddrs)
    (chance chance' : Chance) (order : IterOrder Nat) (draws : Nat → Nat) :
    (∀ ip port, ip.length ≠ 4 → ip.length ≠ 16 → NetAddress.routable ⟨some ip, port⟩ = true) ∧
    ∃ x₁ x₂, x.run env srcAddr (bringsIn x attacker node na chance order draws) = .ok x₁ ∧
      x₁.run env srcAddr (bringsIn x₁ attacker node na' chance' order draws) = .ok x₂ ∧
      x₂.stops = x.stops ∧
      ∀ peer order draws, ∃ bytes,
        x₂.run env srcAddr (answers x₂ node peer order draws) =
          .ok (Exchange.stop { x₂ with wire := x₂.wire ++ [⟨node, peer, bytes⟩] } peer node
            (.undecodable bytes)) := by
  obtain ⟨x', hrun', hinv⟩ := run_exchangeInv env srcAddr routabilityStrict key hcalls
  obtain rfl : x = x' := Except.ok.inj (hrun.symm.trans hrun')
  have hmodest : KnownAddrs (fun na => na.bytes.length ≤ 2 ^ 22) (contents (x.books node)) :=
    fun s ka hka => (hinv.known node s ka hka).length_le hcalls
  -- Being long makes an address routable.
  have haccepts : ∀ a na, Oversized na → env.str na ∉ a.ourAddrs → Accepts env a na := by
    refine fun a na hlong hnot => ⟨hnot, fun hstrict => ?_⟩
    rw [henv, hlong.routable] at hstrict
    exact Bool.false_ne_true hstrict.2.symm
  obtain ⟨book₁, hadd₁, hstep₁, hinv₁, hknows₁, hother₁, hlen₁, hours₁⟩ :=
    addAddress_new (hinv.books node) (haccepts _ na hna hown) hnew (by omega) chance src
  obtain ⟨book₂, hadd₂, hstep₂, hinv₂, hknows₂, hother₂, hlen₂, -⟩ :=
    addAddress_new hinv₁ (haccepts _ na' hna' (by rwa [hours₁]))
      ((hother₁ _ hne.symm).trans hnew') (by omega) chance' src
  obtain ⟨x₁, hrun₁, hbook₁, hstops₁⟩ :=
    run_bringsIn hsrc hna.ne_nil hna.length_binaryBytes_le hadd₁ order draws
  obtain ⟨x₂, hrun₂, hbook₂, hstops₂⟩ := run_bringsIn (x := x₁) hsrc hna'.ne_nil
    hna'.length_binaryBytes_le (by rw [hbook₁]; exact hadd₂) order draws
  refine ⟨fun ip port h4 h16 => OtherLength.routable ⟨h4, h16⟩ (Option.some_ne_none ip), x₁, x₂,
    hrun₁, hrun₂, hstops₂.trans hstops₁, fun peer order draws => ?_⟩
  have hmodest₁ := hmodest.step_addAddress (hinv.books node) (hna.2.trans (by decide)) hstep₁
  have hmodest₂ := hmodest₁.step_addAddress hinv₁ (hna'.2.trans (by decide)) hstep₂
  have hknows : ∀ na₀ ∈ [na, na'], Knows env book₂ na₀ := by
    intro na₀ hna₀
    rcases List.mem_cons.mp hna₀ with rfl | hna₀
    · obtain ⟨ka, hka, haddr⟩ := hknows₁
      exact ⟨ka, (hother₂ _ hne).trans hka, haddr⟩
    · rw [List.mem_singleton.mp hna₀]
      exact hknows₂
  have hnodup : [na, na'].Nodup :=
    List.nodup_cons.mpr ⟨fun hmem => hne (by rw [List.mem_singleton.mp hmem]),
      List.nodup_singleton _⟩
  rw [← hbook₂] at hinv₂ hlen₂ hknows hmodest₂
  exact run_answers hinv₂ (by omega) hnodup hknows (hna.pair_too_large hna') hmodest₂ order draws

def portEnv : Env :=
  netEnv ⟨fun ip mask => ip ++ mask⟩ (fun na => Wire.writeUint16 na.port) fun _ => .replicate 32 0

def zerosAddr (port : UInt16) : NetAddress := ⟨some (List.replicate 524288 0), port⟩

theorem oversized_zerosAddr (port : UInt16) : Oversized (zerosAddr port) := by
  rw [Oversized, zerosAddr, NetAddress.bytes, Option.getD_some, List.length_replicate]
  decide

def strictNodes : Exchange := .fresh (fun _ => true) fun _ => []

/-- Node 0 with a new and strict book, attacked by node 1. -/
theorem strictNodes_cut_off :
    ∃ x₁ x₂, strictNodes.run portEnv (fun _ _ => some plainSeed)
        (bringsIn strictNodes 1 0 (zerosAddr 1) plainChance reverseOrder id) = .ok x₁ ∧
      x₁.run portEnv (fun _ _ => some plainSeed)
        (bringsIn x₁ 1 0 (zerosAddr 2) plainChance reverseOrder id) = .ok x₂ ∧ x₂.stops = [] ∧
      ∃ bytes x₃, x₂.run portEnv (fun _ _ => some plainSeed)
        (answers x₂ 0 2 reverseOrder id) = .ok x₃ ∧ x₃.stops = [⟨2, 0, .undecodable bytes⟩] := by
  have hcalls : ModestCalls [] := by
    rintro na ⟨_, _, _, hmem⟩
    cases hmem
  obtain ⟨-, x₁, x₂, hrun₁, hrun₂, hstops, hanswers⟩ := long_addresses_cut_off
    (show portEnv.routable = _ from rfl) (fun _ _ => some plainSeed) (fun _ => true) (fun _ => [])
    hcalls (x := strictNodes) rfl 1 0 rfl (Nat.zero_le 30)
    (oversized_zerosAddr 1) (oversized_zerosAddr 2)
    (show Wire.writeUint16 1 ≠ Wire.writeUint16 2 by decide) rfl rfl
    (AList.notMem_empty _) (AList.notMem_empty _) plainChance plainChance reverseOrder id
  obtain ⟨bytes, hanswer⟩ := hanswers 2 reverseOrder id
  refine ⟨x₁, x₂, hrun₁, hrun₂, hstops, bytes, _, hanswer, ?_⟩
  show x₂.stops ++ _ = _
  rw [hstops]
  rfl

end BtmStats.Proofs.Pex
