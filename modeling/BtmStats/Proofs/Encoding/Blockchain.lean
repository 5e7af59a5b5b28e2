import BtmStats.Spec.Encoding.Blockchain

/-!
# `BtmStats.Proofs.Encoding.Blockchain`: the grammars of the primitive encodings

One grammar for each primitive of `encoding/blockchain`, and for each read the
theorem that it reads exactly this grammar (`Lib.Reads`). The grammars speak about
byte strings alone:

* `IsUvarint`: every byte but the last has the continuation bit, there are at most
  ten bytes, and the value fits 64 bits. A value has several encodings, because
  leading zero digits are accepted.
* `IsVarint31`, `IsVarint63`: an `IsUvarint` with a bounded value.
* `IsVarstr31`: a length and that many bytes.
* `IsVarstrList`: a count and that many strings.
* `IsExtensibleString`: a string whose front is in a grammar; the rest is the
  unconsumed suffix.
-/

set_option autoImplicit false

namespace BtmStats.Proofs.Blockchain

open Lib Spec Spec.Blockchain

/-! ### Variable-length integers -/

/-- Every byte but the last has the continuation bit, and the last one does not. -/
def Terminated : List UInt8 → Prop
  | [] => False
  | [b] => b < 0x80
  | b :: c :: rest => ¬ b < 0x80 ∧ Terminated (c :: rest)

/-- The value of base-128 digits, least significant digit first. -/
def base128 : List UInt8 → Nat
  | [] => 0
  | b :: rest => b.toNat % 128 + base128 rest * 128

/-- An encoding of the 64-bit value `v`. -/
def IsUvarint (p : List UInt8) (v : Nat) : Prop :=
  Terminated p ∧ p.length ≤ 10 ∧ base128 p = v ∧ v < 2 ^ 64

/-- An encoding of a value of at most 31 bits. -/
def IsVarint31 (p : List UInt8) (v : Nat) : Prop := IsUvarint p v ∧ v ≤ maxInt32

/-- An encoding of a value of at most 63 bits. -/
def IsVarint63 (p : List UInt8) (v : UInt64) : Prop := IsUvarint p v.toNat ∧ v.toNat ≤ maxInt64

/-- A digit below the weight `D` does not carry a multiple of `D` over a multiple of
`D`. -/
private theorem add_digit_lt {c m D E : Nat} (hc : c < D) (hm : m * D < E * D) :
    c + m * D < E * D := by
  have hlt : m + 1 ≤ E := Nat.lt_of_mul_lt_mul_right hm
  calc c + m * D < D + m * D := Nat.add_lt_add_right hc _
    _ = (m + 1) * D := by ring
    _ ≤ E * D := Nat.mul_le_mul_right D hlt

/-- The overflow test of the loop, on the byte that ends the encoding. -/
private theorem last_digit_fits {i c : Nat} (hc : c < 128) :
    ¬ (i > 9 ∨ (i = 9 ∧ c > 1)) ↔ i + 1 ≤ 10 ∧ c * 128 ^ i < 2 ^ 64 := by
  constructor
  · intro h
    -- The tenth digit has weight 2 ^ 63, so it may be 0 or 1. Below it every digit fits.
    refine ⟨by omega, ?_⟩
    by_cases h9 : i = 9
    · subst h9
      norm_num
      omega
    · have hpow : 128 ^ i ≤ 128 ^ 8 := Nat.pow_le_pow_right (by omega) (by omega)
      calc c * 128 ^ i ≤ 127 * 128 ^ 8 := Nat.mul_le_mul (by omega) hpow
        _ < 2 ^ 64 := by decide
  · rintro ⟨hi, hfit⟩ (h | ⟨h9, hgt⟩)
    · omega
    · subst h9
      norm_num at hfit
      omega

/-- One more digit in front keeps the bound: there are at most nine weights below
it, so its weight divides `2 ^ 64`. -/
private theorem digits_fit_cons {i c m : Nat} (hi : i ≤ 8) (hc : c < 128) :
    (c + m * 128) * 128 ^ i < 2 ^ 64 ↔ m * 128 ^ (i + 1) < 2 ^ 64 := by
  have hD : 2 ^ 64 = 2 ^ (64 - 7 * (i + 1)) * 128 ^ (i + 1) := by
    rw [show (128 : Nat) = 2 ^ 7 from rfl, ← Nat.pow_mul, ← Nat.pow_add]
    congr 1
    omega
  have hsum : (c + m * 128) * 128 ^ i = c * 128 ^ i + m * 128 ^ (i + 1) := by
    rw [Nat.pow_succ]
    ring
  have hdigit : c * 128 ^ i < 128 ^ (i + 1) := by
    rw [Nat.pow_succ, Nat.mul_comm (128 ^ i) 128]
    exact Nat.mul_lt_mul_of_pos_right hc (Nat.pow_pos (by omega))
  rw [hsum]
  constructor
  · intro h
    exact Nat.lt_of_le_of_lt (Nat.le_add_left _ _) h
  · intro h
    rw [hD] at h ⊢
    exact add_digit_lt hdigit h

theorem terminated_cons {b : UInt8} {p : List UInt8} (hb : ¬ b < 0x80) (hp : Terminated p) :
    Terminated (b :: p) := by
  cases p with
  | nil => exact hp.elim
  | cons c p => exact ⟨hb, hp⟩

/-- A byte without the continuation bit is a terminated string alone. -/
private theorem terminated_front_last {c : UInt8} (hc : c < 0x80) {b r : List UInt8}
    {Q : List UInt8 → Prop} :
    (∃ p, c :: b = p ++ r ∧ Terminated p ∧ Q p) ↔ b = r ∧ Q [c] := by
  constructor
  · rintro ⟨p, hp, ht, hq⟩
    cases p with
    | nil => exact ht.elim
    | cons d p =>
      obtain ⟨rfl, rfl⟩ := List.cons.inj hp
      cases p with
      | nil => exact ⟨rfl, hq⟩
      | cons e p => exact absurd hc ht.1
  · rintro ⟨rfl, hq⟩
    exact ⟨[c], rfl, hc, hq⟩

/-- A byte with the continuation bit starts a terminated string, and the rest of it is
terminated. -/
private theorem terminated_front_continued {c : UInt8} (hc : ¬ c < 0x80) {b r : List UInt8}
    {Q : List UInt8 → Prop} :
    (∃ p, c :: b = p ++ r ∧ Terminated p ∧ Q p) ↔
      ∃ p, b = p ++ r ∧ Terminated p ∧ Q (c :: p) := by
  constructor
  · rintro ⟨p, hp, ht, hq⟩
    cases p with
    | nil => exact ht.elim
    | cons d p =>
      obtain ⟨rfl, rfl⟩ := List.cons.inj hp
      cases p with
      | nil => exact absurd ht hc
      | cons e p => exact ⟨e :: p, rfl, ht.2, hq⟩
  · rintro ⟨p, rfl, ht, hq⟩
    exact ⟨c :: p, rfl, terminated_cons hc ht, hq⟩

/-- The loop of `ReadUvarint`, with `i` digits of value `x` read: it accepts the
encodings of at most `10 - i` bytes that do not overflow. Induction on the input. -/
theorem readUvarintLoop_eq_ok :
    ∀ (b : List UInt8) (i x v : Nat) (r : List UInt8),
      readUvarintLoop b i x = .ok (v, r) ↔
        ∃ p, b = p ++ r ∧ Terminated p ∧ i + p.length ≤ 10 ∧
          base128 p * 128 ^ i < 2 ^ 64 ∧ v = x + base128 p * 128 ^ i := by
  intro b
  induction b with
  | nil =>
    intro i x v r
    constructor
    · intro h
      simp [readUvarintLoop] at h
    · rintro ⟨p, hp, ht, -⟩
      have hnil : p = [] := (List.append_eq_nil_iff.mp hp.symm).1
      subst hnil
      exact ht.elim
  | cons c b ih =>
    intro i x v r
    rw [readUvarintLoop]
    by_cases hc : c < 0x80
    · -- The byte ends the encoding.
      have hcn : c.toNat < 128 := hc
      have hone : base128 [c] = c.toNat := by simp [base128, Nat.mod_eq_of_lt hcn]
      rw [if_pos hc, terminated_front_last hc, hone, List.length_singleton,
        ← and_assoc (b := c.toNat * 128 ^ i < 2 ^ 64), ← last_digit_fits hcn]
      split
      · next hover =>
        constructor
        · intro h
          cases h
        · rintro ⟨-, hfits, -⟩
          exact absurd hover hfits
      · next hfits =>
        simp only [Except.ok.injEq, Prod.mk.injEq]
        constructor
        · rintro ⟨rfl, rfl⟩
          exact ⟨rfl, hfits, rfl⟩
        · rintro ⟨rfl, -, rfl⟩
          exact ⟨rfl, rfl⟩
    · -- The byte is a digit in front of an encoding of at least one byte.
      have hcm : c.toNat % 128 < 128 := Nat.mod_lt _ (by omega)
      rw [if_neg hc, ih (i + 1) (x + c.toNat % 128 * 128 ^ i) v r, terminated_front_continued hc]
      refine exists_congr fun p => and_congr_right fun _ => and_congr_right fun ht => ?_
      have hpos : 0 < p.length := List.length_pos_of_ne_nil fun hnil => by
        subst hnil
        exact ht
      have hlen : i + 1 + p.length = i + (c :: p).length := by
        rw [List.length_cons]
        omega
      have hsum : x + c.toNat % 128 * 128 ^ i + base128 p * 128 ^ (i + 1) =
          x + base128 (c :: p) * 128 ^ i := by
        rw [base128.eq_2 c, Nat.pow_succ]
        ring
      rw [hlen, hsum]
      refine and_congr_right fun h10 => ?_
      rw [base128.eq_2 c, digits_fit_cons (by omega) hcm]

theorem readUvarint_reads : Reads readUvarint IsUvarint := by
  intro b v r
  show readUvarintLoop b 0 0 = .ok (v, r) ↔ _
  rw [readUvarintLoop_eq_ok]
  simp only [Nat.pow_zero, Nat.mul_one, Nat.zero_add]
  constructor
  · rintro ⟨p, rfl, ht, h10, h64, rfl⟩
    exact ⟨p, rfl, ht, h10, rfl, h64⟩
  · rintro ⟨p, rfl, ht, h10, rfl, h64⟩
    exact ⟨p, rfl, ht, h10, h64, rfl⟩

theorem readVarint31_reads : Reads readVarint31 IsVarint31 := by
  refine (reads_bind readUvarint_reads fun val =>
    reads_guard _ (reads_pure val)).congr fun s v => ?_
  constructor
  · rintro ⟨s₁, s₂, val, rfl, hval, hle, rfl, rfl⟩
    rw [List.append_nil]
    exact ⟨hval, Nat.not_lt.mp hle⟩
  · rintro ⟨hval, hle⟩
    exact ⟨s, [], v, (List.append_nil s).symm, hval, Nat.not_lt.mpr hle, rfl, rfl⟩

theorem readVarint63_reads : Reads readVarint63 IsVarint63 := by
  refine (reads_bind readUvarint_reads fun val =>
    reads_guard _ (reads_pure (UInt64.ofNat val))).congr fun s v => ?_
  constructor
  · rintro ⟨s₁, s₂, val, rfl, hval, hle, rfl, rfl⟩
    have hlt : val < 2 ^ 64 := hval.2.2.2
    -- The value fits 64 bits, so the conversion keeps it.
    have hnat : (UInt64.ofNat val).toNat = val := by
      rw [UInt64.toNat_ofNat', Nat.mod_eq_of_lt hlt]
    rw [List.append_nil, IsVarint63, hnat]
    exact ⟨hval, Nat.not_lt.mp hle⟩
  · rintro ⟨hval, hle⟩
    exact ⟨s, [], v.toNat, (List.append_nil s).symm, hval, Nat.not_lt.mpr hle, rfl,
      UInt64.ofNat_toNat.symm⟩

/-! ### Byte strings -/

/-- A length, and that many bytes. -/
def IsVarstr31 (p : List UInt8) (str : List UInt8) : Prop :=
  ∃ len, p = len ++ str ∧ IsVarint31 len str.length

/-- A count, and that many byte strings. -/
def IsVarstrList (p : List UInt8) (l : List (List UInt8)) : Prop :=
  ∃ count strs, p = count ++ strs ∧ IsVarint31 count l.length ∧ Many IsVarstr31 l.length strs l

/-- A byte string that starts with a string of `G`. What follows it there is the
suffix. -/
def IsExtensibleString {α : Type} (G : List UInt8 → α → Prop) (p : List UInt8)
    (x : α × List UInt8) : Prop :=
  ∃ body, IsVarstr31 p (body ++ x.2) ∧ G body x.1

theorem readFull_reads (n : Nat) : Reads (readFull n) (fun s a => s = a.1) := by
  intro b a r
  have hrun : (readFull n).run b = .ok (a, r) ↔ b.take n = a.1 ∧ b.drop n = r := by
    show (readFull n) b = .ok (a, r) ↔ _
    by_cases hlen : (b.take n).length = n
    · have hok : (readFull n) b = .ok (⟨b.take n, hlen⟩, b.drop n) := dif_pos hlen
      rw [hok]
      simp only [Except.ok.injEq, Prod.mk.injEq, Subtype.ext_iff]
    · have herr : (readFull n) b =
          if b.take n = [] then .error RootErr.eof.err else .error RootErr.unexpectedEOF.err :=
        dif_neg hlen
      rw [herr]
      constructor
      · intro h
        split at h <;> simp at h
      · rintro ⟨htake, -⟩
        -- Too few bytes are left, and the value has `n` of them.
        exact absurd (htake ▸ a.2) hlen
  rw [hrun]
  constructor
  · rintro ⟨htake, hdrop⟩
    exact ⟨a.1, by rw [← htake, ← hdrop, List.take_append_drop], rfl⟩
  · rintro ⟨s, rfl, rfl⟩
    exact ⟨List.take_left' a.2, List.drop_left' a.2⟩

theorem cut_reads (l : Nat) : Reads (cut l) (fun s a => s = a ∧ a.length = l) := by
  intro b a r
  show (cut l) b = .ok (a, r) ↔ _
  rw [cut]
  split
  · rename_i hlong
    constructor
    · intro h
      simp at h
    · rintro ⟨s, rfl, rfl, rfl⟩
      simp only [List.length_append] at hlong
      omega
  · rename_i hfits
    simp only [Except.ok.injEq, Prod.mk.injEq]
    constructor
    · rintro ⟨rfl, rfl⟩
      refine ⟨b.take l, (List.take_append_drop l b).symm, rfl, ?_⟩
      rw [List.length_take]
      omega
    · rintro ⟨s, rfl, rfl, hlen⟩
      exact ⟨List.take_left' hlen, List.drop_left' hlen⟩

theorem readVarstr31_reads : Reads readVarstr31 IsVarstr31 := by
  -- The case of length 0 is the general one: it cuts nothing off.
  have hbody : ∀ l, Reads (if l = 0 then pure [] else cut l) (fun s a => s = a ∧ a.length = l) := by
    intro l
    refine (reads_ite (reads_pure []) (cut_reads l)).congr fun s a => ?_
    by_cases hl : l = 0
    · rw [if_pos hl, hl, List.length_eq_zero_iff]
      constructor
      · rintro ⟨rfl, rfl⟩
        exact ⟨rfl, rfl⟩
      · rintro ⟨rfl, rfl⟩
        exact ⟨rfl, rfl⟩
    · rw [if_neg hl]
  refine (reads_bind readVarint31_reads hbody).congr fun s str => ?_
  constructor
  · rintro ⟨len, s₂, l, rfl, hlen, rfl, rfl⟩
    exact ⟨len, rfl, hlen⟩
  · rintro ⟨len, rfl, hlen⟩
    exact ⟨len, str, str.length, rfl, hlen, rfl, rfl⟩

/-- Without an error, the loop of `ReadVarstrList` is the counted loop over
`ReadVarstr31`. Induction on the number of strings left. -/
theorem readVarstrListLoop_eq_ok :
    ∀ (nelts : Nat) (result : List (List UInt8)) (b r : List UInt8) (l : List (List UInt8)),
      readVarstrListLoop nelts result b = (l, .ok r) ↔
        (many (fun _ => readVarstr31) nelts result).run b = .ok (l, r) := by
  intro nelts
  induction nelts with
  | zero =>
    intro result b r l
    show (result, Except.ok b) = (l, Except.ok r) ↔ Except.ok (result, b) = Except.ok (l, r)
    simp only [Prod.mk.injEq, Except.ok.injEq]
  | succ nelts ih =>
    intro result b r l
    rw [readVarstrListLoop, many, run_bind_eq_ok]
    cases h : readVarstr31.run b with
    | error err => simp
    | ok x =>
      obtain ⟨s, t⟩ := x
      simp only [Except.ok.injEq, Prod.mk.injEq, ih]
      constructor
      · intro hrest
        exact ⟨s, t, ⟨rfl, rfl⟩, hrest⟩
      · rintro ⟨_, _, ⟨rfl, rfl⟩, hrest⟩
        exact hrest

theorem readVarstrListM_eq_ok_iff (b r : List UInt8) (l : List (List UInt8)) :
    readVarstrListM.run b = .ok (l, r) ↔ readVarstrList b = (l, .ok r) := by
  show readVarstrListM b = .ok (l, r) ↔ _
  rw [readVarstrListM]
  rcases readVarstrList b with ⟨l', err | r'⟩
  · simp
  · simp

/-- `ReadVarstrList` without an error: the count, and then the counted loop. -/
theorem readVarstrListM_eq_ok (b r : List UInt8) (l : List (List UInt8)) :
    readVarstrListM.run b = .ok (l, r) ↔
      (do let nelts ← readVarint31
          many (fun _ => readVarstr31) nelts [] : ReaderM _).run b = .ok (l, r) := by
  rw [readVarstrListM_eq_ok_iff, readVarstrList, run_bind_eq_ok]
  cases h : readVarint31.run b with
  | error err => simp
  | ok x =>
    obtain ⟨nelts, t⟩ := x
    -- The early return for an empty list is what the loop does anyway.
    have hloop : (if nelts = 0 then ([], .ok t) else readVarstrListLoop nelts [] t) =
        readVarstrListLoop nelts [] t := by
      split
      · rename_i h0
        rw [h0, readVarstrListLoop]
      · rfl
    simp only [hloop, readVarstrListLoop_eq_ok, Except.ok.injEq, Prod.mk.injEq]
    constructor
    · intro hrest
      exact ⟨nelts, t, ⟨rfl, rfl⟩, hrest⟩
    · rintro ⟨_, _, ⟨rfl, rfl⟩, hrest⟩
      exact hrest

theorem readVarstrListM_reads : Reads readVarstrListM IsVarstrList := by
  intro b l r
  rw [readVarstrListM_eq_ok, reads_bind readVarint31_reads
    (fun nelts => reads_many (fun _ => readVarstr31_reads) nelts []) b l r]
  refine exists_congr fun s => and_congr_right fun _ => ?_
  constructor
  · rintro ⟨count, strs, nelts, rfl, hcount, new, rfl, hmany⟩
    -- The count is the number of strings that the loop read.
    obtain rfl := hmany.1
    exact ⟨count, strs, rfl, hcount, hmany⟩
  · rintro ⟨count, strs, rfl, hcount, hmany⟩
    exact ⟨count, strs, l.length, rfl, hcount, l, rfl, hmany⟩

theorem readExtensibleString_reads {α : Type} {f : ReaderM α} {G : List UInt8 → α → Prop}
    (hf : Reads f G) : Reads (readExtensibleString f) (IsExtensibleString G) := by
  refine (reads_bind readVarstr31_reads fun str => reads_within hf str).congr fun s x => ?_
  constructor
  · rintro ⟨s₁, s₂, str, rfl, hstr, rfl, body, rfl, hbody⟩
    rw [List.append_nil]
    exact ⟨body, hstr, hbody⟩
  · rintro ⟨body, hstr, hbody⟩
    exact ⟨s, [], body ++ x.2, (List.append_nil s).symm, hstr, rfl, body, rfl, hbody⟩

theorem wrapErr_reads {α : Type} {p : ReaderM α} {G : List UInt8 → α → Prop} (msg : String)
    (hp : Reads p G) : Reads (wrapErr msg p) G :=
  reads_mapError (fun e : Err => e.wrap msg) hp

end BtmStats.Proofs.Blockchain
