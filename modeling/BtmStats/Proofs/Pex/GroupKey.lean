import BtmStats.Proofs.Pex.BucketShare
import BtmStats.Spec.P2p.NetAddress

/-!
# `BtmStats.Proofs.Pex.GroupKey`: the groups of tunnelled addresses

An IPv6 address of one of four kinds carries an IPv4 address. A network whose mask ends at a byte
contains the addresses that begin with the same bytes (`contains_iff`), so the four kinds differ
in their first two bytes and `groupKey` takes the branch of the address's own kind. Three branches
print the network of the IPv4 address. The one of 6to4 cuts five bytes out of the address, so that
it is not an IP address any more and `IPNet.String` prints `<nil>` (`groupKey_of_tunnelled`).

So the group is the one of the embedded address exactly for the other three kinds, and two
addresses of different networks share a group exactly if both are 6to4 (`grouped_by_embedded_iff`).
-/

set_option autoImplicit false

namespace BtmStats.Proofs.Pex

open Lib Spec Spec.P2p Spec.Pex

/-- What the documentation says about the text of a network: equal texts are of one network, and
no text is the one for an address that does not fit its mask. -/
structure Documented (text : NetText) : Prop where
  network : ∀ {a b : IP} {m : IPMask}, a.length = m.length → b.length = m.length →
    text.cidr a m = text.cidr b m → maskBytes a m = maskBytes b m
  ne_nilText : ∀ {a : IP} {m : IPMask}, a.length = m.length → text.cidr a m ≠ nilText

/-! ### Masks of whole bytes -/

theorem cidrMaskBytes_zero (l : Nat) : cidrMaskBytes l 0 = List.replicate l 0 := by
  induction l with
  | zero => rfl
  | succ l ih =>
    rw [cidrMaskBytes, if_neg (by decide), ih]
    rfl

theorem cidrMaskBytes_whole (l k : Nat) :
    cidrMaskBytes (k + l) (8 * k) = List.replicate k 0xff ++ List.replicate l 0 := by
  induction k with
  | zero =>
    rw [Nat.zero_add]
    exact cidrMaskBytes_zero l
  | succ k ih =>
    rw [Nat.succ_add, cidrMaskBytes, if_pos (by omega), show 8 * (k + 1) - 8 = 8 * k by omega, ih]
    rfl

theorem maskBytes_zeros (ip : IP) :
    maskBytes ip (List.replicate ip.length 0) = List.replicate ip.length 0 := by
  induction ip with
  | nil => rfl
  | cons b ip ih =>
    show (b &&& 0) :: maskBytes ip _ = _
    rw [ih, UInt8.and_zero]
    rfl

/-- A mask of `k` whole bytes keeps the first `k` bytes. -/
theorem maskBytes_whole {ip : IP} {k l : Nat} (hlen : ip.length = k + l) :
    maskBytes ip (List.replicate k 0xff ++ List.replicate l 0) =
      ip.take k ++ List.replicate l 0 := by
  induction k generalizing ip with
  | zero =>
    rw [Nat.zero_add] at hlen
    subst hlen
    exact maskBytes_zeros ip
  | succ k ih =>
    cases ip with
    | nil =>
      rw [List.length_nil] at hlen
      omega
    | cons b ip =>
      have hrest := @ih ip (by rw [List.length_cons] at hlen; omega)
      show (b &&& -1) :: maskBytes ip (List.replicate k 0xff ++ List.replicate l 0) = _
      rw [hrest, UInt8.and_neg_one]
      rfl

theorem length_of_to4 {ip ip4 : IP} (h : IP.to4 ip = some ip4) : ip4.length = 4 := by
  unfold IP.to4 at h
  split at h
  · next hlen =>
    cases h
    exact hlen
  · split at h
    · next hlen =>
      cases h
      rw [List.length_drop, hlen.1]
    · cases h

/-- A network of IPv6 whose mask has `k` whole bytes contains the addresses with the same first
`k` bytes. -/
theorem contains_iff {nn ip : IP} {k : Nat} (hnn : nn.length = 16) (hv6 : IP.to4 nn = none)
    (hk : k ≤ 16) :
    IPNet.contains ⟨nn, cidrMask (8 * k) 128⟩ ip = true ↔
      IP.to4 ip = none ∧ ip.length = 16 ∧ ip.take k = nn.take k := by
  obtain ⟨l, hl⟩ := Nat.exists_eq_add_of_le hk
  have hmask : cidrMask (8 * k) 128 = List.replicate k 0xff ++ List.replicate l 0 := by
    rw [cidrMask, if_pos ⟨Or.inr rfl, by omega⟩, show 128 / 8 = k + l by omega]
    exact cidrMaskBytes_whole l k
  have hnumber : IPNet.networkNumberAndMask ⟨nn, cidrMask (8 * k) 128⟩ =
      (nn, List.replicate k 0xff ++ List.replicate l 0) := by
    simp only [IPNet.networkNumberAndMask, hv6, hmask, hnn, List.length_append,
      List.length_replicate, ← hl, and_self, if_true]
  simp only [IPNet.contains, hnumber, Bool.and_eq_true, decide_eq_true_eq, hnn]
  cases hip : IP.to4 ip with
  | some ip4 => simp [length_of_to4 hip]
  | none =>
    simp only [Option.getD_none, true_and]
    refine and_congr_right fun hlen => ?_
    rw [maskBytes_whole (hlen.trans hl), maskBytes_whole (hnn.trans hl), List.append_left_inj]

/-! ### The four kinds -/

section
variable {text : NetText} {na : NetAddress}

theorem rfc6145_iff : na.rfc6145 = true ↔ IP.to4 na.bytes = none ∧ na.bytes.length = 16 ∧
    na.bytes.take 12 = [0, 0, 0, 0, 0, 0, 0, 0, 0xff, 0xff, 0, 0] :=
  contains_iff (k := 12) (by decide) (by decide) (by decide)

theorem rfc6052_iff : na.rfc6052 = true ↔ IP.to4 na.bytes = none ∧ na.bytes.length = 16 ∧
    na.bytes.take 12 = [0x00, 0x64, 0xff, 0x9b, 0, 0, 0, 0, 0, 0, 0, 0] :=
  contains_iff (k := 12) (by decide) (by decide) (by decide)

theorem rfc3964_iff : na.rfc3964 = true ↔ IP.to4 na.bytes = none ∧ na.bytes.length = 16 ∧
    na.bytes.take 2 = [0x20, 0x02] :=
  contains_iff (k := 2) (by decide) (by decide) (by decide)

theorem rfc4380_iff : na.rfc4380 = true ↔ IP.to4 na.bytes = none ∧ na.bytes.length = 16 ∧
    na.bytes.take 4 = [0x20, 0x01, 0, 0] :=
  contains_iff (k := 4) (by decide) (by decide) (by decide)

/-- An IPv6 address of one of the kinds that carry an IPv4 address. -/
def Tunnelled (na : NetAddress) : Prop :=
  na.bytes.length = 16 ∧
    (na.rfc6145 = true ∨ na.rfc6052 = true ∨ na.rfc3964 = true ∨ na.rfc4380 = true)

/-- The IPv4 address that a tunnelled address carries: bytes 2 to 5 for 6to4, the complement of
the last four bytes for Teredo, and else the last four bytes. -/
def embeddedIPv4 (na : NetAddress) : IP :=
  if na.rfc3964 then slice na.bytes 2 6
  else if na.rfc4380 then (slice na.bytes 12 16).map (· ^^^ 0xff)
  else slice na.bytes 12 16

theorem length_embeddedIPv4 (hlen : na.bytes.length = 16) : (embeddedIPv4 na).length = 4 := by
  unfold embeddedIPv4
  split
  · simp [slice, hlen]
  · split
    · simp [slice, hlen]
    · simp [slice, hlen]

/-- The first two bytes of a longer front. -/
theorem take_two_of_take {ip front : IP} {k : Nat} (h : ip.take k = front) (hk : 2 ≤ k) :
    ip.take 2 = front.take 2 := by
  rw [← h, List.take_take, Nat.min_eq_left hk]

theorem front_of_rfc6145 (h : na.rfc6145 = true) : na.bytes.take 2 = [0, 0] :=
  take_two_of_take (rfc6145_iff.mp h).2.2 (by decide)

theorem front_of_rfc6052 (h : na.rfc6052 = true) : na.bytes.take 2 = [0, 0x64] :=
  take_two_of_take (rfc6052_iff.mp h).2.2 (by decide)

theorem front_of_rfc3964 (h : na.rfc3964 = true) : na.bytes.take 2 = [0x20, 0x02] :=
  (rfc3964_iff.mp h).2.2

theorem front_of_rfc4380 (h : na.rfc4380 = true) : na.bytes.take 2 = [0x20, 0x01] :=
  take_two_of_take (rfc4380_iff.mp h).2.2 (by decide)

/-- A kind with another front is not the address's kind. -/
theorem not_kind {kind : Bool} {front other : IP} (hfront : na.bytes.take 2 = front)
    (hkind : kind = true → na.bytes.take 2 = other) (hne : front ≠ other) : kind = false :=
  Bool.eq_false_iff.mpr fun h => hne (hfront.symm.trans (hkind h))

/-! ### Groups -/

/-- The text of a network with a mask of 16 bits, for an address of four bytes in either form. -/
theorem networkText_of_to4 {ip ip4 : IP} (h : IP.to4 ip = some ip4) :
    networkText text ip 16 32 = text.cidr ip4 (cidrMask 16 32) := by
  have hlen := length_of_to4 h
  have hne : ip4 ≠ [] := by
    rintro rfl
    cases hlen
  have hnumber : IPNet.networkNumberAndMask ⟨ip, cidrMask 16 32⟩ = (ip4, cidrMask 16 32) := by
    simp only [IPNet.networkNumberAndMask, h]
    exact if_pos (by decide)
  simp only [networkText, IPNet.string, hnumber]
  exact if_neg fun hc => hc.elim hne (by decide)

/-- Five bytes are no IP address. -/
theorem networkText_of_length_five {ip : IP} (h : ip.length = 5) :
    networkText text ip 16 32 = nilText := by
  have hto4 : IP.to4 ip = none := by
    rw [IP.to4, if_neg (by omega), if_neg (by omega)]
  have hnumber : IPNet.networkNumberAndMask ⟨ip, cidrMask 16 32⟩ = ([], []) := by
    simp only [IPNet.networkNumberAndMask, hto4]
    exact if_neg (by omega)
  simp only [networkText, IPNet.string, hnumber]
  rfl

theorem to4_of_length_four {ip : IP} (h : ip.length = 4) : IP.to4 ip = some ip := if_pos h

/-- The group of an IPv4 address is the text of its network. -/
theorem groupKey_of_to4 {ip4 : IP} (h : IP.to4 na.bytes = some ip4) :
    groupKey text false na = text.cidr ip4 (cidrMask 16 32) := by
  rw [groupKey, h]
  exact networkText_of_to4 h

theorem to4_of_tunnelled (h : Tunnelled na) : IP.to4 na.bytes = none := by
  obtain ⟨-, h | h | h | h⟩ := h
  · exact (rfc6145_iff.mp h).1
  · exact (rfc6052_iff.mp h).1
  · exact (rfc3964_iff.mp h).1
  · exact (rfc4380_iff.mp h).1

/-- The group of a tunnelled address is the network of the IPv4 address that it carries, but for
6to4, whose addresses all get the text of no network. -/
theorem groupKey_of_tunnelled (h : Tunnelled na) :
    groupKey text false na =
      if na.rfc3964 then nilText else text.cidr (embeddedIPv4 na) (cidrMask 16 32) := by
  have hto4 := to4_of_tunnelled h
  have hembedded : networkText text (embeddedIPv4 na) 16 32 =
      text.cidr (embeddedIPv4 na) (cidrMask 16 32) :=
    networkText_of_to4 (to4_of_length_four (length_embeddedIPv4 h.1))
  simp only [groupKey, hto4, Bool.false_and, Bool.false_eq_true, if_false, Option.isSome_none]
  rw [← hembedded, embeddedIPv4]
  obtain ⟨hlen, hkind⟩ := h
  by_cases h3964 : na.rfc3964 = true
  · have hfront := front_of_rfc3964 h3964
    rw [not_kind hfront front_of_rfc6145 (by decide), not_kind hfront front_of_rfc6052 (by decide),
      h3964]
    exact networkText_of_length_five (by simp [slice, hlen])
  by_cases h4380 : na.rfc4380 = true
  · have hfront := front_of_rfc4380 h4380
    rw [not_kind hfront front_of_rfc6145 (by decide), not_kind hfront front_of_rfc6052 (by decide),
      not_kind hfront front_of_rfc3964 (by decide), h4380]
    rfl
  have hlast : (na.rfc6145 || na.rfc6052) = true := by
    rcases hkind with h | h | h | h
    · rw [h, Bool.true_or]
    · rw [h, Bool.or_true]
    · exact absurd h h3964
    · exact absurd h h4380
  rw [if_pos hlast, if_neg h3964, if_neg h3964, if_neg h4380]

/-- The first 16 bits of an IPv4 address are its network. -/
theorem take_two_of_cidr {a b : IP} (htext : Documented text) (ha : a.length = 4)
    (hb : b.length = 4) (h : text.cidr a (cidrMask 16 32) = text.cidr b (cidrMask 16 32)) :
    a.take 2 = b.take 2 := by
  have hmask := htext.network ha hb h
  have hwhole : cidrMask 16 32 = List.replicate 2 0xff ++ List.replicate 2 0 := by decide
  rw [hwhole, maskBytes_whole ha, maskBytes_whole hb] at hmask
  exact List.append_cancel_right hmask

end

/-- The group of a tunnelled address is the group of the IPv4 address that it carries, in either
form, exactly if it is not 6to4. Two tunnelled addresses that carry addresses of different networks
of 16 bits are in different groups exactly if not both are 6to4. -/
theorem grouped_by_embedded_iff (text : NetText) (htext : Documented text) :
    (∀ na v4, Tunnelled na → IP.to4 v4.bytes = some (embeddedIPv4 na) →
      (groupKey text false na = groupKey text false v4 ↔ na.rfc3964 = false)) ∧
    ∀ na nb, Tunnelled na → Tunnelled nb →
      (embeddedIPv4 na).take 2 ≠ (embeddedIPv4 nb).take 2 →
      (groupKey text false na ≠ groupKey text false nb ↔
        ¬ (na.rfc3964 = true ∧ nb.rfc3964 = true)) := by
  constructor
  · intro na v4 hna hv4
    have hlen := length_embeddedIPv4 hna.1
    rw [groupKey_of_tunnelled hna, groupKey_of_to4 hv4]
    cases na.rfc3964 with
    | false => simp
    | true => simp [(htext.ne_nilText (m := cidrMask 16 32) hlen).symm]
  · intro na nb hna hnb hnetwork
    have hlen := length_embeddedIPv4 hna.1
    have hlen' := length_embeddedIPv4 hnb.1
    have hne := fun h => hnetwork (take_two_of_cidr htext hlen hlen' h)
    rw [groupKey_of_tunnelled hna, groupKey_of_tunnelled hnb]
    cases na.rfc3964 with
    | false =>
      cases nb.rfc3964 with
      | false => simpa using hne
      | true => simpa using htext.ne_nilText (m := cidrMask 16 32) hlen
    | true =>
      cases nb.rfc3964 with
      | false => simpa using (htext.ne_nilText (m := cidrMask 16 32) hlen').symm
      | true => simp

/-- A text that shows the bytes of the network and of the mask. -/
def byteText : NetText := ⟨fun nn m => maskBytes nn m ++ m⟩

theorem documented_byteText : Documented byteText where
  network _ _ h := List.append_cancel_right h
  ne_nilText := by
    intro a m hlen h
    have hlen' := congrArg List.length h
    simp [byteText, maskBytes, nilText, hlen] at hlen'
    omega

/-- 64:ff9b::1.2.3.4 is in the group of 1.2.3.4. -/
theorem wellKnown_prefix_grouped :
    groupKey byteText false
        ⟨some (ipv6 [0, 0x64, 0xff, 0x9b, 0, 0, 0, 0, 0, 0, 0, 0, 1, 2, 3, 4]), 46656⟩ =
      groupKey byteText false ⟨some [1, 2, 3, 4], 46656⟩ :=
  ((grouped_by_embedded_iff byteText documented_byteText).1 _ _ ⟨by decide, by decide⟩
    (by decide)).mpr (by decide)

/-- The 6to4 address with the given IPv4 address. -/
def sixToFour (a b c d : UInt8) : NetAddress := ⟨some (ipv6 [0x20, 0x02, a, b, c, d]), 46656⟩

/-- The 6to4 address of 1.2.0.0 is not in the group of 1.2.0.0, and it shares its group with the
one of 3.4.0.0. -/
theorem sixToFour_groups_merged :
    groupKey byteText false (sixToFour 1 2 0 0) ≠
        groupKey byteText false ⟨some [1, 2, 0, 0], 46656⟩ ∧
      groupKey byteText false (sixToFour 1 2 0 0) =
        groupKey byteText false (sixToFour 3 4 0 0) := by
  decide

end BtmStats.Proofs.Pex
