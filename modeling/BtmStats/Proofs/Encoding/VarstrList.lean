import BtmStats.Proofs.Encoding.Blockchain

/-!
# `BtmStats.Proofs.Encoding.VarstrList`: the reads of `ReadVarstrList`

Two facts about one loop. Its outcome is that of `readVarstrList`, whose grammar is known
(`outcome_readVarstrListState`): a failed read stops the loop with an error, and the test
after it only replaces that error by another one. And every read but the last takes a byte
from the reader at least, so there are at most as many reads as bytes and one more
(`Bounded`), whatever number was declared.
-/

set_option autoImplicit false

namespace BtmStats.Proofs.Blockchain

open Lib Spec Spec.Blockchain

/-! ### What a read takes -/

theorem length_pos_of_isVarint31 {p : List UInt8} {v : Nat} (h : IsVarint31 p v) :
    0 < p.length := by
  cases p with
  | nil => exact h.1.1.elim
  | cons c p => exact Nat.succ_pos _

variable {st : VarstrListState} {k : Nat} {r : List UInt8}

theorem readVarint31_shortens {b : List UInt8} {v : Nat} (h : readVarint31.run b = .ok (v, r)) :
    r.length < b.length := by
  obtain ⟨s, rfl, hs⟩ := readVarint31_reads.split h
  rw [List.length_append]
  exact Nat.lt_add_of_pos_left (length_pos_of_isVarint31 hs)

theorem readVarstr31_shortens {b str : List UInt8} (h : readVarstr31.run b = .ok (str, r)) :
    r.length < b.length := by
  obtain ⟨s, rfl, len, rfl, hlen⟩ := readVarstr31_reads.split h
  have hpos := length_pos_of_isVarint31 hlen
  simp only [List.length_append]
  omega

/-! ### The outcome -/

/-- The loop and the test after it, from a state without an error. Induction on the number
of strings left. -/
theorem outcome_loop : ∀ (nelts : Nat) (result : List (List UInt8)) (buf : List UInt8)
    (reads : Nat), (VarstrListState.loop ⟨nelts, none, result, buf, reads⟩).finish.outcome =
      readVarstrListLoop nelts result buf := by
  intro nelts
  induction nelts with
  | zero =>
    intro result buf reads
    rw [VarstrListState.loop, if_neg (by simp)]
    rfl
  | succ nelts ih =>
    intro result buf reads
    rw [VarstrListState.loop, if_pos ⟨Nat.succ_pos _, rfl⟩, VarstrListState.step,
      readVarstrListLoop]
    cases hread : readVarstr31.run buf with
    | ok p =>
      exact ih _ _ _
    | error err =>
      -- The loop ends here. The counter no longer counts the string that failed.
      rw [VarstrListState.loop, if_neg (by simp), VarstrListState.finish]
      show VarstrListState.outcome (if (result ++ [[]]).length < nelts then _ else _) = _
      by_cases hshort : (result ++ [[]]).length < nelts
      · simp only [if_pos hshort]
        rfl
      · simp only [if_neg hshort]
        rfl

theorem outcome_readVarstrListState (b : List UInt8) :
    (readVarstrListState b).outcome = readVarstrList b := by
  rw [readVarstrListState, readVarstrList]
  cases readVarint31.run b with
  | error err => rfl
  | ok p =>
    obtain ⟨nelts, r⟩ := p
    by_cases h0 : nelts = 0
    · simp only [if_pos h0]
      rfl
    · simp only [if_neg h0]
      exact outcome_loop nelts [] r 0

theorem outcome_eq_ok_iff {l : List (List UInt8)} :
    st.outcome = (l, .ok r) ↔ st.err = none ∧ st.result = l ∧ st.buf = r := by
  rw [VarstrListState.outcome]
  cases st.err with
  | none => simp
  | some err => simp

/-! ### The number of reads -/

/-- Every read has appended one string, and all but a failed one have taken a byte of the
`k` bytes. -/
structure Bounded (k : Nat) (st : VarstrListState) : Prop where
  length_result : st.result.length = st.reads
  reads_add_le : st.reads + st.buf.length ≤ if st.err.isNone then k else k + 1

/-- The step lemma of the bound. -/
theorem Bounded.step (h : Bounded k st) (herr : st.err.isNone) : Bounded k st.step := by
  have hle := h.reads_add_le
  rw [if_pos herr] at hle
  rw [VarstrListState.step]
  cases hread : readVarstr31.run st.buf with
  | ok p =>
    have hshort := readVarstr31_shortens hread
    refine ⟨by simp [h.length_result], ?_⟩
    show st.reads + 1 + p.2.length ≤ k
    omega
  | error err =>
    refine ⟨by simp [h.length_result], ?_⟩
    show st.reads + 1 + st.buf.length ≤ k + 1
    omega

/-- Induction along the loop. -/
theorem Bounded.loop (st : VarstrListState) (h : Bounded k st) : Bounded k st.loop := by
  induction st using VarstrListState.loop.induct with
  | case1 st hguard ih =>
    rw [VarstrListState.loop, if_pos hguard]
    exact ih (h.step hguard.2)
  | case2 st hguard =>
    rw [VarstrListState.loop, if_neg hguard]
    exact h

theorem Bounded.reads_le (h : Bounded k st) : st.reads ≤ k + 1 ∧ st.result.length ≤ k + 1 := by
  have hle := h.reads_add_le
  have hlen := h.length_result
  split at hle <;> omega

theorem reads_finish_le (h : Bounded k st) :
    st.finish.reads ≤ k + 1 ∧ st.finish.result.length ≤ k + 1 := by
  rw [VarstrListState.finish]
  split <;> exact h.reads_le

/-- Every read but the last takes a byte, so a count cannot lie. -/
theorem readVarstrListState_reads_le (b : List UInt8) :
    (readVarstrListState b).reads ≤ b.length + 1 ∧
      (readVarstrListState b).result.length ≤ b.length + 1 := by
  rw [readVarstrListState]
  cases hcount : readVarint31.run b with
  | error err => exact ⟨Nat.zero_le _, Nat.zero_le _⟩
  | ok p =>
    obtain ⟨nelts, r⟩ := p
    have hlt := readVarint31_shortens hcount
    by_cases h0 : nelts = 0
    · simp only [if_pos h0]
      exact ⟨Nat.zero_le _, Nat.zero_le _⟩
    · simp only [if_neg h0]
      have hstart : Bounded b.length ⟨nelts, none, [], r, 0⟩ :=
        ⟨rfl, by simp only [Option.isNone_none, if_true]; omega⟩
      exact reads_finish_le (hstart.loop _)

/-- `ReadVarstrList` on every input. It succeeds exactly on a count and as many strings, and
leaves what follows. A forged count costs at most one read more than there are bytes, and the
result is no longer than that. -/
theorem readVarstrList_exact (b : List UInt8) :
    (∀ l r, ((readVarstrListState b).err = none ∧ (readVarstrListState b).result = l ∧
        (readVarstrListState b).buf = r) ↔
      ∃ count strs, b = count ++ strs ++ r ∧ IsVarint31 count l.length ∧
        Many IsVarstr31 l.length strs l) ∧
    (readVarstrListState b).reads ≤ b.length + 1 ∧
    (readVarstrListState b).result.length ≤ b.length + 1 := by
  refine ⟨fun l r => ?_, readVarstrListState_reads_le b⟩
  rw [← outcome_eq_ok_iff, outcome_readVarstrListState, ← readVarstrListM_eq_ok_iff,
    readVarstrListM_reads b l r]
  constructor
  · rintro ⟨_, rfl, count, strs, rfl, hcount, hstrs⟩
    exact ⟨count, strs, rfl, hcount, hstrs⟩
  · rintro ⟨count, strs, rfl, hcount, hstrs⟩
    exact ⟨count ++ strs, rfl, count, strs, rfl, hcount, hstrs⟩

end BtmStats.Proofs.Blockchain
