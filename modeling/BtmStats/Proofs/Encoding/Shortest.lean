import BtmStats.Lib.Shortest
import BtmStats.Proofs.Encoding.Writers

/-!
# `BtmStats.Proofs.Encoding.Shortest`: padded integers are the only freedom

`binary.ReadUvarint` takes padded encodings: an integer may be followed by digits 0, up to ten
bytes in all. The encoding of `binary.PutUvarint` is the one without padding, and every other
one can be made shorter by a byte (`uvarint_shrinks`). So every primitive grammar shrinks to
one shortest string for each value (`tightVarstr`, `tightVarstrList`). In an extensible string
a shorter body lowers the number in front, which may then be padded to the bytes that it had.
-/

set_option autoImplicit false

namespace BtmStats.Proofs.Blockchain

open Lib Spec Spec.Blockchain

/-! ### Integers -/

variable {v : Nat} {p : List UInt8}

theorem putUvarint_of_lt (h : v < 128) : putUvarint v = [UInt8.ofNat v] := by
  rw [putUvarint, if_pos h]

theorem putUvarint_of_le (h : ¬ v < 128) :
    putUvarint v = UInt8.ofNat (v % 128 + 128) :: putUvarint (v / 128) := by
  rw [putUvarint, if_neg h]

theorem length_putUvarint_le_nine (h : v ≤ maxInt64) : (putUvarint v).length ≤ 9 :=
  length_putUvarint_le 8 v (Nat.lt_of_le_of_lt h (by decide))

theorem length_putUvarint_le_five (h : v ≤ maxInt32) : (putUvarint v).length ≤ 5 :=
  length_putUvarint_le 4 v (Nat.lt_of_le_of_lt h (by decide))

/-- A digit in front of the encoding of a positive number. -/
theorem putUvarint_digit {b : UInt8} (hb : ¬ b < 0x80) (hv : 0 < v) :
    putUvarint (b.toNat % 128 + v * 128) = b :: putUvarint v := by
  have hb' : 128 ≤ b.toNat := Nat.not_lt.mp (UInt8.lt_iff_toNat_lt.not.mp hb)
  have hlt := b.toNat_lt
  have hmod : (b.toNat % 128 + v * 128) % 128 + 128 = b.toNat := by omega
  have hdiv : (b.toNat % 128 + v * 128) / 128 = v := by omega
  rw [putUvarint_of_le (by omega), hmod, hdiv, UInt8.ofNat_toNat]

/-- Digits with the value `v`, as many as one likes. -/
def IsDigits (p : List UInt8) (v : Nat) : Prop := Terminated p ∧ base128 p = v

/-- The last digit of a padded encoding is 0 and can be left out. Induction on the digits. -/
theorem digits_shrinks : Shrinks IsDigits putUvarint := by
  rintro p _ ⟨hp, rfl⟩
  induction p with
  | nil => exact hp.elim
  | cons b p ih =>
    cases p with
    | nil =>
      have hb : b.toNat < 128 := UInt8.lt_iff_toNat_lt.mp hp
      left
      rw [base128, base128, Nat.zero_mul, Nat.add_zero, Nat.mod_eq_of_lt hb,
        putUvarint_of_lt hb, UInt8.ofNat_toNat]
    | cons c p =>
      obtain ⟨hb, hp⟩ := hp
      rcases ih hp with heq | ⟨q, ⟨hq, hval⟩, hlen⟩
      · rw [base128]
        rcases Nat.eq_zero_or_pos (base128 (c :: p)) with hzero | hpos
        · -- One digit 0 is left of the padding: the digit in front of it ends the number.
          rw [hzero, Nat.zero_mul, Nat.add_zero]
          refine .inr ⟨putUvarint (b.toNat % 128), ⟨terminated_putUvarint _,
            base128_putUvarint _⟩, ?_⟩
          rw [heq, hzero, putUvarint_of_lt (Nat.mod_lt _ (by decide)),
            putUvarint_of_lt (by decide)]
          rfl
        · rw [putUvarint_digit hb hpos, ← heq]
          exact .inl rfl
      · refine .inr ⟨b :: q, ⟨terminated_cons hb hq, ?_⟩, congrArg Nat.succ hlen⟩
        rw [base128, base128, hval]

/-- A digit 0 more. Induction on the digits. -/
theorem exists_padded (h : Terminated p) :
    ∃ q, IsDigits q (base128 p) ∧ q.length = p.length + 1 := by
  induction p with
  | nil => exact h.elim
  | cons b p ih =>
    cases p with
    | nil =>
      have hb : b.toNat < 128 := UInt8.lt_iff_toNat_lt.mp h
      refine ⟨[UInt8.ofNat (b.toNat + 128), 0], ⟨⟨?_, show (0 : UInt8) < 0x80 by decide⟩, ?_⟩, rfl⟩
      · rw [UInt8.lt_iff_toNat_lt, UInt8.toNat_ofNat', Nat.mod_eq_of_lt (by omega)]
        exact Nat.not_lt.mpr (Nat.le_add_left 128 _)
      · rw [base128, base128, base128, base128, base128, UInt8.toNat_ofNat']
        have hzero : (0 : UInt8).toNat = 0 := rfl
        omega
    | cons c p =>
      obtain ⟨hb, hp⟩ := h
      obtain ⟨q, ⟨hq, hval⟩, hlen⟩ := ih hp
      refine ⟨b :: q, ⟨terminated_cons hb hq, ?_⟩, congrArg Nat.succ hlen⟩
      rw [base128, base128, hval]

theorem uvarint_shrinks : Shrinks IsUvarint putUvarint := by
  rintro p v ⟨hp, hlen, hval, hv⟩
  rcases digits_shrinks p v ⟨hp, hval⟩ with heq | ⟨q, ⟨hq, hval⟩, hshort⟩
  · exact .inl heq
  · exact .inr ⟨q, ⟨hq, by omega, hval, hv⟩, hshort⟩

/-- An integer may be padded to every length up to ten. -/
theorem exists_uvarint (hv : v < 2 ^ 64) {n : Nat} (hmin : (putUvarint v).length ≤ n)
    (hn : n ≤ 10) :
    ∃ s, IsUvarint s v ∧ s.length = n := by
  induction n, hmin using Nat.le_induction with
  | base => exact ⟨_, isUvarint_putUvarint hv, rfl⟩
  | succ n _ ih =>
    obtain ⟨s, ⟨hs, -, rfl, -⟩, rfl⟩ := ih (Nat.le_of_succ_le hn)
    obtain ⟨q, ⟨hq, hval⟩, hlen⟩ := exists_padded hs
    exact ⟨q, ⟨hq, hlen.trans_le hn, hval, hv⟩, hlen⟩

theorem exists_ten_bytes {s : List UInt8} (h : IsUvarint s v) :
    ∃ t, IsUvarint t v ∧ t.length = 10 :=
  exists_uvarint h.2.2.2 (isUvarint_putUvarint h.2.2.2).2.1 (Nat.le_refl 10)

theorem varint31_shrinks : Shrinks IsVarint31 putUvarint :=
  (uvarint_shrinks.guard (· ≤ maxInt32)).congr fun _ _ => and_comm

theorem varint63_shrinks : Shrinks IsVarint63 (fun v => putUvarint v.toNat) :=
  ((uvarint_shrinks.guard (· ≤ maxInt64)).part UInt64.toNat).congr fun _ _ => and_comm

theorem varint31_exists (hv : v ≤ maxInt32) {n : Nat} (hmin : (putUvarint v).length ≤ n)
    (hn : n ≤ 10) : ∃ s, IsVarint31 s v ∧ s.length = n := by
  obtain ⟨s, hs, hlen⟩ := exists_uvarint (Nat.lt_of_le_of_lt hv (by decide)) hmin hn
  exact ⟨s, ⟨hs, hv⟩, hlen⟩

/-- No integer of at most 63 bits fills ten bytes without padding. -/
theorem varint63_stretches : Stretches IsVarint63 (fun v => putUvarint v.toNat) := by
  intro v hv
  have hmin := length_putUvarint_le_nine hv.2
  obtain ⟨s, hs, hlen⟩ := exists_ten_bytes hv.1
  exact ⟨s, ⟨hs, hv.2⟩, hlen ▸ Nat.lt_succ_of_le hmin⟩

/-- A larger number does not have a shorter encoding. -/
theorem length_putUvarint_mono (v : Nat) :
    ∀ w, v ≤ w → (putUvarint v).length ≤ (putUvarint w).length := by
  induction v using putUvarint.induct with
  | case1 v hv =>
    intro w _
    rw [putUvarint_of_lt hv]
    exact Nat.succ_le_of_lt (List.length_pos_of_ne_nil (putUvarint_ne_nil w))
  | case2 v hv ih =>
    intro w hvw
    have hw : ¬ w < 128 := fun hw => hv (Nat.lt_of_le_of_lt hvw hw)
    rw [putUvarint_of_le hv, putUvarint_of_le hw]
    exact Nat.succ_le_succ (ih (w / 128) (Nat.div_le_div_right hvw))

/-- A length in front of a string that gets shorter: the bytes of the length may stay as many
as they were. -/
theorem varint31_lower {len : List UInt8} {w : Nat} (h : IsVarint31 len w) (hvw : v ≤ w) :
    ∃ len', IsVarint31 len' v ∧ len'.length = len.length :=
  varint31_exists (hvw.trans h.2)
    ((length_putUvarint_mono v w hvw).trans (varint31_shrinks.length_le h)) h.1.2.1

theorem length_uvarint_between (h : IsUvarint p v) : 1 ≤ p.length ∧ p.length ≤ 10 := by
  refine ⟨List.length_pos_of_ne_nil ?_, h.2.1⟩
  rintro rfl
  exact h.1

theorem varint63_spread : Spread IsVarint63 9 :=
  spread_of_between fun _ _ h => length_uvarint_between h.1

/-! ### Byte strings -/

/-- A byte string behind its length, without padding. -/
def tightVarstr (str : List UInt8) : List UInt8 := putUvarint str.length ++ str

/-- The strings of a list behind their number, without padding. -/
def tightVarstrList (l : List (List UInt8)) : List UInt8 :=
  putUvarint l.length ++ l.flatMap tightVarstr

theorem varstr31_shrinks : Shrinks IsVarstr31 tightVarstr := by
  have hself : Shrinks (fun s (str : List UInt8) => s = str) (fun str => str) :=
    shrinks_of_eq fun _ _ hs => hs
  refine ((varint31_shrinks.part List.length).cat hself).congr fun s str => ?_
  constructor
  · rintro ⟨len, _, rfl, hlen, rfl⟩
    exact ⟨len, rfl, hlen⟩
  · rintro ⟨len, rfl, hlen⟩
    exact ⟨len, str, rfl, hlen, rfl⟩

theorem varstrList_shrinks : Shrinks IsVarstrList tightVarstrList :=
  ((varint31_shrinks.part List.length).cat varstr31_shrinks.many).congr fun _ _ => Iff.rfl

/-- An extensible string shrinks with its body, or else in the length in front. -/
theorem extensibleString_shrinks {α : Type} {G : List UInt8 → α → Prop} {f : α → List UInt8}
    (hG : Shrinks G f) :
    Shrinks (IsExtensibleString G) (fun x => tightVarstr (f x.1 ++ x.2)) := by
  rintro _ ⟨a, suffix⟩ ⟨body, ⟨len, rfl, hlen⟩, hbody⟩
  rcases hG body a hbody with rfl | ⟨short, hshort, hone⟩
  · rcases varint31_shrinks len _ hlen with rfl | ⟨len', hlen', hone⟩
    · exact .inl rfl
    · refine .inr ⟨_, ⟨f a, ⟨len', rfl, hlen'⟩, hbody⟩, ?_⟩
      simp only [List.length_append]
      omega
  · have hle : (short ++ suffix).length + 1 = (body ++ suffix).length := by
      rw [List.length_append, List.length_append, ← hone, Nat.add_right_comm]
    obtain ⟨len', hlen', hsame⟩ := varint31_lower hlen (Nat.le_of_succ_le hle.le)
    refine .inr ⟨_, ⟨short, ⟨len', rfl, hlen'⟩, hshort⟩, ?_⟩
    simp only [List.length_append] at hle ⊢
    omega

/-- The length of a string that is behind its length is bounded by what the length can say. -/
theorem length_varstr31_between {str : List UInt8} (h : IsVarstr31 p str) :
    1 ≤ p.length ∧ p.length ≤ 10 + maxInt32 := by
  obtain ⟨len, rfl, hlen, hmax⟩ := h
  have hlen := length_uvarint_between hlen
  rw [List.length_append]
  omega

theorem varstr31_spread : Spread IsVarstr31 9 := by
  rintro _ _ str ⟨len, rfl, hlen⟩ ⟨len', rfl, hlen'⟩
  have h := length_uvarint_between hlen.1
  have h' := length_uvarint_between hlen'.1
  rw [List.length_append, List.length_append]
  omega

theorem extensibleString_spread {α : Type} {G : List UInt8 → α → Prop} {k : Nat}
    (hG : Spread G k) : Spread (IsExtensibleString G) (k + 9) := by
  rintro _ _ ⟨a, suffix⟩ ⟨body, ⟨len, rfl, hlen⟩, hbody⟩ ⟨body', ⟨len', rfl, hlen'⟩, hbody'⟩
  have h := length_uvarint_between hlen.1
  have h' := length_uvarint_between hlen'.1
  have hk := hG body body' a hbody hbody'
  simp only [List.length_append]
  omega

end BtmStats.Proofs.Blockchain
