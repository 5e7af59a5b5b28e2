import BtmStats.Proofs.Bc.Merkle

/-!
# `BtmStats.Proofs.Bc.MerkleShape`: the shape of the Merkle tree

`prevPowerOfTwo` returns a power of two `k` with `k < n ≤ 2 * k` (`prevPowerOfTwo_spec`), and on
`int` it is the same function as on natural numbers (`prevPowerOfTwo_ofNat`). So a call of
`merkleRoot` with two or more nodes makes two calls with fewer (`merkleRoot_splits`), and the
calls of a whole run are a tree of `Lib.CallTree` that is split at powers of two
(`merkleRoot_run`). The run needs one frame of the stack more than the depth of this tree. With
fewer frames it overflows, so the depth is the exact nesting of the calls.
-/

set_option autoImplicit false

namespace BtmStats.Proofs.Bc

open Lib Spec Spec.Bc

/-! ### The split position -/

/-- The largest power of two below `n`. In the first case of the code `n` is a power of two
itself, in the second it is none. -/
theorem prevPowerOfTwo_spec {n : Nat} (h : 2 ≤ n) :
    ∃ e, prevPowerOfTwo n = 2 ^ e ∧ 2 ^ e < n ∧ n ≤ 2 * 2 ^ e := by
  have hbounds := prevPowerOfTwo_bounds h
  rw [prevPowerOfTwo] at hbounds ⊢
  by_cases htrick : n &&& (n - 1) = 0
  · rw [if_pos htrick] at hbounds ⊢
    obtain ⟨e, rfl⟩ := (Nat.and_sub_one_eq_zero_iff_isPowerOfTwo (by omega)).mp htrick
    cases e with
    | zero => omega
    | succ e =>
      have hhalf : 2 ^ (e + 1) / 2 = 2 ^ e := by
        rw [Nat.pow_succ]
        omega
      rw [hhalf] at hbounds ⊢
      refine ⟨e, rfl, hbounds.2, ?_⟩
      rw [Nat.pow_succ]
      omega
  · rw [if_neg htrick, Nat.one_shiftLeft] at hbounds ⊢
    have hlog : n < 2 ^ (Nat.log2 n + 1) := Nat.lt_log2_self
    refine ⟨Nat.log2 n, rfl, hbounds.2, ?_⟩
    rw [Nat.pow_succ] at hlog
    omega

/-- The shifts that stay inside an `int`. -/
theorem shiftLeft_one (e : Fin 63) :
    MerkleCalls.shiftLeft 1 (UInt64.ofNat e) = Int64.ofNat (2 ^ e.val) := by
  revert e
  decide

/-- The bit trick in two's complement is the one on natural numbers. -/
theorem ofNat_and_sub_one {n : Nat} (hpos : 0 < n) (hlt : n < 2 ^ 48) :
    Int64.ofNat n &&& (Int64.ofNat n - 1) = 0 ↔ n &&& (n - 1) = 0 := by
  have hsub : Int64.ofNat n - 1 = Int64.ofNat (n - 1) := (Int64.ofNat_sub n 1 hpos).symm
  have hand : Int64.ofNat n &&& Int64.ofNat (n - 1) = Int64.ofNat (n &&& (n - 1)) := by
    apply Int64.toBitVec_inj.mp
    exact BitVec.ofNat_and.symm
  have hle : n &&& (n - 1) ≤ n := Nat.and_le_left
  rw [hsub, hand, ← Int64.toInt_inj, Int64.toInt_ofNat_of_lt (by omega)]
  exact Int.natCast_eq_zero

theorem ofNat_div_two {n : Nat} (hlt : n < 2 ^ 48) :
    Int64.ofNat n / 2 = Int64.ofNat (n / 2) := by
  apply Int64.toInt_inj.mp
  rw [Int64.toInt_div_of_ne_right _ _ (by decide), Int64.toInt_ofNat_of_lt (by omega),
    Int64.toInt_ofNat_of_lt (by omega)]
  rfl

section
variable {log2 : Int64 → UInt64}

/-- On an `int`, `prevPowerOfTwo` is the function on natural numbers. -/
theorem prevPowerOfTwo_ofNat (hlog : MerkleCalls.Log2Exact log2) {n : Nat} (hpos : 0 < n)
    (hlt : n < 2 ^ 48) :
    MerkleCalls.prevPowerOfTwo log2 (Int64.ofNat n) = Int64.ofNat (prevPowerOfTwo n) := by
  rw [MerkleCalls.prevPowerOfTwo, prevPowerOfTwo]
  by_cases htrick : n &&& (n - 1) = 0
  · rw [if_pos ((ofNat_and_sub_one hpos hlt).mpr htrick), if_pos htrick, ofNat_div_two hlt]
  · have hint : (Int64.ofNat n).toInt = n := Int64.toInt_ofNat_of_lt (by omega)
    have hsmall : Nat.log2 n < 48 := (Nat.log2_lt (by omega)).mpr hlt
    have hexponent : log2 (Int64.ofNat n) = UInt64.ofNat (Nat.log2 n) := by
      apply UInt64.toNat_inj.mp
      rw [hlog _ (by omega) (by omega), hint, Int.toNat_natCast,
        UInt64.toNat_ofNat_of_lt' (by show _ < 2 ^ 64; omega)]
    rw [if_neg (mt (ofNat_and_sub_one hpos hlt).mp htrick), if_neg htrick, Nat.one_shiftLeft,
      hexponent]
    exact shiftLeft_one ⟨Nat.log2 n, by omega⟩

/-! ### One call -/

theorem sliceTo_ofNat {α : Type} {nodes : List α} {k : Nat} (hk : k ≤ nodes.length)
    (hlt : k < 2 ^ 63) : MerkleCalls.sliceTo nodes (Int64.ofNat k) = .ok (nodes.take k) := by
  rw [MerkleCalls.sliceTo, Int64.toInt_ofNat_of_lt hlt, if_pos (by omega), Int.toNat_natCast]

theorem sliceFrom_ofNat {α : Type} {nodes : List α} {k : Nat} (hk : k ≤ nodes.length)
    (hlt : k < 2 ^ 63) : MerkleCalls.sliceFrom nodes (Int64.ofNat k) = .ok (nodes.drop k) := by
  rw [MerkleCalls.sliceFrom, Int64.toInt_ofNat_of_lt hlt, if_pos (by omega), Int.toNat_natCast]

variable {sha3 : List UInt8 → FixedBytes 32} {nodes : List MerkleNode} {frames : Nat}

/-- A call with two or more nodes slices them at the largest power of two below their number
and makes two calls. -/
theorem merkleRoot_splits (hlog : MerkleCalls.Log2Exact log2) (htwo : 2 ≤ nodes.length)
    (hlt : nodes.length < 2 ^ 48) :
    MerkleCalls.merkleRoot log2 sha3 (frames + 1) nodes =
      (MerkleCalls.merkleRoot log2 sha3 frames (nodes.take (prevPowerOfTwo nodes.length))).bind
        fun left =>
          (MerkleCalls.merkleRoot log2 sha3 frames
            (nodes.drop (prevPowerOfTwo nodes.length))).bind fun right =>
              .ok (newHash (sha3 (interiorPrefix ++ left.1.bytes ++ right.1.bytes)),
                .node nodes left.2 right.2) := by
  have hk := (prevPowerOfTwo_bounds htwo).2
  have hpower := prevPowerOfTwo_ofNat hlog (by omega : 0 < nodes.length) hlt
  have hto := sliceTo_ofNat (Nat.le_of_lt hk) (by omega)
  have hfrom := sliceFrom_ofNat (Nat.le_of_lt hk) (by omega)
  rw [MerkleCalls.merkleRoot]
  · simp only [hpower, hto, hfrom, bind, Except.bind]
  · intro hnil
    rw [hnil, List.length_nil] at htwo
    omega
  · intro node hone
    rw [hone, List.length_singleton] at htwo
    omega

/-! ### Whole runs -/

/-- `merkleRoot` makes these calls, and returns the root if and only if there is a frame for
each call that is open at one time. -/
def MakesCalls (log2 : Int64 → UInt64) (sha3 : List UInt8 → FixedBytes 32)
    (nodes : List MerkleNode) (calls : CallTree MerkleNode) : Prop :=
  ∀ frames, MerkleCalls.merkleRoot log2 sha3 frames nodes =
    if calls.depth < frames then .ok (merkleRoot sha3 nodes, calls) else .error .stackOverflow

theorem makesCalls_nil : MakesCalls log2 sha3 [] (.leaf []) := by
  intro frames
  cases frames with
  | zero => rfl
  | succ frames =>
    rw [merkleRoot]
    rfl

theorem makesCalls_singleton (node : MerkleNode) :
    MakesCalls log2 sha3 [node] (.leaf [node]) := by
  intro frames
  cases frames with
  | zero => rfl
  | succ frames =>
    rw [merkleRoot]
    rfl

/-- One frame more than the deeper of the two calls needs. -/
theorem makesCalls_split (hlog : MerkleCalls.Log2Exact log2) {a b : MerkleNode}
    {rest : List MerkleNode} {left right : CallTree MerkleNode} {k : Nat}
    (hlt : (a :: b :: rest).length < 2 ^ 48) (hk : prevPowerOfTwo (a :: b :: rest).length = k)
    (hl : MakesCalls log2 sha3 ((a :: b :: rest).take k) left)
    (hr : MakesCalls log2 sha3 ((a :: b :: rest).drop k) right) :
    MakesCalls log2 sha3 (a :: b :: rest) (.node (a :: b :: rest) left right) := by
  intro frames
  cases frames with
  | zero => rfl
  | succ frames =>
    rw [merkleRoot_splits hlog (by simp) hlt, hk, hl frames, hr frames, merkleRoot,
      CallTree.depth, hk]
    have hdepth : max left.depth right.depth + 1 < frames + 1 ↔
        left.depth < frames ∧ right.depth < frames := by omega
    by_cases hleft : left.depth < frames
    · by_cases hright : right.depth < frames
      · rw [if_pos hleft, if_pos hright, if_pos (hdepth.mpr ⟨hleft, hright⟩)]
        rfl
      · rw [if_pos hleft, if_neg hright, if_neg fun h => hright (hdepth.mp h).2]
        rfl
    · rw [if_neg hleft, if_neg fun h => hleft (hdepth.mp h).1]
      rfl

/-- Every list makes the calls of a tree that is split at powers of two. Induction along the
recursion of `merkleRoot` on natural numbers, which has the same parts. -/
theorem merkleRoot_run (hlog : MerkleCalls.Log2Exact log2)
    (sha3 : List UInt8 → FixedBytes 32) (nodes : List MerkleNode) :
    nodes.length < 2 ^ 48 → ∃ calls : CallTree MerkleNode,
      calls.PowerSplit ∧ calls.arg = nodes ∧ MakesCalls log2 sha3 nodes calls := by
  induction nodes using merkleRoot.induct sha3 with
  | case1 =>
    intro _
    exact ⟨.leaf [], .leaf (Nat.zero_le 1), rfl, makesCalls_nil⟩
  | case2 node =>
    intro _
    exact ⟨.leaf [node], .leaf (Nat.le_refl 1), rfl, makesCalls_singleton node⟩
  | case3 a b rest nodes k ihl ihr =>
    intro hlt
    obtain ⟨e, hpower, hbelow, habove⟩ :=
      prevPowerOfTwo_spec (by simp [nodes] : 2 ≤ nodes.length)
    have hk : k = 2 ^ e := hpower
    have hto : (nodes.take k).length = 2 ^ e := by
      rw [List.length_take, hk]
      omega
    have hfrom : (nodes.drop k).length = nodes.length - 2 ^ e := by
      rw [List.length_drop, hk]
    have hnodes : nodes.length < 2 ^ 48 := hlt
    obtain ⟨left, hl, hlarg, hlcalls⟩ := ihl (by omega)
    obtain ⟨right, hr, hrarg, hrcalls⟩ := ihr (by omega)
    refine ⟨.node nodes left right, ?_, rfl, makesCalls_split hlog hlt rfl hlcalls hrcalls⟩
    rw [← hlarg] at hto
    rw [← hrarg] at hfrom
    refine .node e hto (by omega) (by omega) ?_ hl hr
    rw [hlarg, hrarg, List.take_append_drop]

/-! ### The shape -/

/-- On `int`, the split position is a power of two below `n` that is not below its half. -/
theorem toInt_prevPowerOfTwo (hlog : MerkleCalls.Log2Exact log2) {n : Int64}
    (htwo : 2 ≤ n.toInt) (hlt : n.toInt < 2 ^ 48) :
    ∃ e : Nat, (MerkleCalls.prevPowerOfTwo log2 n).toInt = 2 ^ e ∧ 2 ^ e < n.toInt ∧
      n.toInt ≤ 2 * 2 ^ e := by
  obtain ⟨m, hm⟩ := Int.eq_ofNat_of_zero_le (by omega : 0 ≤ n.toInt)
  have hn : n = Int64.ofNat m := by
    apply Int64.toInt_inj.mp
    rw [Int64.toInt_ofNat_of_lt (by omega), hm]
  obtain ⟨e, hpower, hbelow, habove⟩ := prevPowerOfTwo_spec (by omega : 2 ≤ m)
  have hcast : ((2 ^ e : Nat) : Int) = 2 ^ e := Int.natCast_pow 2 e
  rw [hn, prevPowerOfTwo_ofNat hlog (by omega) (by omega), hpower,
    Int64.toInt_ofNat_of_lt (by omega), Int64.toInt_ofNat_of_lt (by omega)]
  exact ⟨e, hcast, by omega, by omega⟩

/-- The split position is the power of two `k` with `k < n ≤ 2 * k`. So `merkleRoot` returns on
every list, and there is no more and no less nesting than the logarithm of the number of
nodes, rounded up. In every call that splits, both parts are non-empty and the left one
makes a perfect tree. -/
theorem merkleRoot_shape (hlog : MerkleCalls.Log2Exact log2) :
    (∀ n : Int64, 2 ≤ n.toInt → n.toInt < 2 ^ 48 →
      ∃ e : Nat, (MerkleCalls.prevPowerOfTwo log2 n).toInt = 2 ^ e ∧ 2 ^ e < n.toInt ∧
        n.toInt ≤ 2 * 2 ^ e) ∧
    ∀ (sha3 : List UInt8 → FixedBytes 32) (nodes : List MerkleNode), nodes.length < 2 ^ 48 →
      ∃ calls : CallTree MerkleNode, calls.arg = nodes ∧
        (∀ frames, MerkleCalls.merkleRoot log2 sha3 frames nodes =
          if calls.depth < frames then .ok (merkleRoot sha3 nodes, calls)
          else .error .stackOverflow) ∧
        calls.depth = Nat.clog 2 nodes.length ∧
        calls.Everywhere fun left right =>
          left.arg ≠ [] ∧ right.arg ≠ [] ∧ ∃ d, left.Perfect d := by
  refine ⟨fun n htwo hlt => toInt_prevPowerOfTwo hlog htwo hlt, ?_⟩
  intro sha3 nodes hlt
  obtain ⟨calls, hsplit, harg, hcalls⟩ := merkleRoot_run hlog sha3 nodes hlt
  refine ⟨calls, harg, hcalls, ?_, hsplit.everywhere⟩
  rw [hsplit.depth_eq, harg]

/-- The integer part of the logarithm. -/
def exactLog2 (n : Int64) : UInt64 := UInt64.ofNat (Nat.log2 n.toInt.toNat)

theorem exactLog2_exact : MerkleCalls.Log2Exact exactLog2 := by
  intro n hpos hlt
  have hsmall : Nat.log2 n.toInt.toNat < 48 := (Nat.log2_lt (by omega)).mpr (by omega)
  exact UInt64.toNat_ofNat_of_lt' (by show _ < 2 ^ 64; omega)

end

/-- Seven nodes. -/
def sevenNodes : List MerkleNode := (List.range 7).map fun i => ⟨[UInt8.ofNat i]⟩

/-- A stack of four frames is enough for seven nodes, and a stack of three is not. -/
theorem merkleRoot_shape_seven :
    (∃ e : Nat, (MerkleCalls.prevPowerOfTwo exactLog2 7).toInt = 2 ^ e ∧
      2 ^ e < (7 : Int64).toInt ∧ (7 : Int64).toInt ≤ 2 * 2 ^ e) ∧
    (∃ calls, MerkleCalls.merkleRoot exactLog2 lengthAndLast 4 sevenNodes =
      .ok (merkleRoot lengthAndLast sevenNodes, calls) ∧ calls.depth = 3) ∧
    MerkleCalls.merkleRoot exactLog2 lengthAndLast 3 sevenNodes = .error .stackOverflow := by
  obtain ⟨hpower, hshape⟩ := merkleRoot_shape exactLog2_exact
  obtain ⟨calls, -, hrun, hdepth, -⟩ := hshape lengthAndLast sevenNodes (by decide)
  have hthree : calls.depth = 3 :=
    hdepth.trans (@CallTree.clog_add 2 3 (by decide) (by decide))
  refine ⟨hpower 7 (by decide) (by decide), ⟨calls, ?_, hthree⟩, ?_⟩
  · rw [hrun, hthree]
    rfl
  · rw [hrun, hthree]
    rfl

end BtmStats.Proofs.Bc
