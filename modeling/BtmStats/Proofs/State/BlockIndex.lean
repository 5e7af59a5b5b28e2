import BtmStats.Lib.Runs
import BtmStats.Spec.State.BlockIndex
import Mathlib.Data.Option.Basic

/-!
# `BtmStats.Proofs.State.BlockIndex`: the main chain follows the last node set

`setMainChain_spec` is the step: on an index whose visible slots are closed under
parents, one `SetMainChain` call succeeds, makes the slice `Height + 1` long and
puts the ancestor of the node at height `i` into slot `i`. The result is closed
again, so `setMainChains_spec` runs the step over any sequence of calls from the
empty index.

The walk stops at the first slot that already holds the right node. That is sound
because of `Closed`: below a slot that holds `m`, the slots hold the ancestors of
`m`. `resize_spec` keeps `Closed` across a reallocation and across a re-slice,
because the cells that a longer slice shows again are cleared first.
-/

set_option autoImplicit false

namespace BtmStats.Proofs.State

open Spec Spec.State Spec.State.BlockIndex
open Lib (Slice foldlM_succeeds)

variable {ν : Type}

/-! ### Ancestors -/

/-- A node below the root has the ancestors of its parent, up to the parent's
height. -/
theorem ancestorAt_of_parent (t : BlockTree ν) {n p : ν} (h : t.parent n = some p) {i : Nat}
    (hi : i ≤ (t.height p).toNat) : t.ancestorAt n i = t.ancestorAt p i := by
  have hh : (t.height n).toNat = (t.height p).toNat + 1 := t.height_of_child n p h
  have hk : (t.height n).toNat - i = ((t.height p).toNat - i) + 1 := by omega
  unfold BlockTree.ancestorAt
  rw [hk, BlockTree.up, h, Option.bind_some]

/-- A node is its own ancestor at its own height. -/
theorem ancestorAt_self (t : BlockTree ν) (n : ν) :
    t.ancestorAt n (t.height n).toNat = some n := by
  unfold BlockTree.ancestorAt
  rw [Nat.sub_self, BlockTree.up]

/-- The root of a tree has height 0. -/
theorem height_eq_zero_of_root (t : BlockTree ν) {n : ν} (h : t.parent n = none) :
    (t.height n).toNat = 0 := by
  have h0 : t.height n = 0 := t.height_of_root n h
  rw [h0]
  rfl

/-- Every height up to the node's own has an ancestor, and that ancestor has this
height. -/
theorem ancestorAt_exists (t : BlockTree ν) :
    ∀ (k : Nat) (n : ν) (i : Nat), (t.height n).toNat = i + k →
      ∃ a, t.ancestorAt n i = some a ∧ (t.height a).toNat = i := by
  intro k
  induction k with
  | zero =>
    intro n i h
    have hi : i = (t.height n).toNat := by omega
    subst hi
    exact ⟨n, ancestorAt_self t n, rfl⟩
  | succ k ih =>
    intro n i h
    cases hp : t.parent n with
    | none =>
      have h0 := height_eq_zero_of_root t hp
      omega
    | some p =>
      have hh : (t.height n).toNat = (t.height p).toNat + 1 := t.height_of_child n p hp
      obtain ⟨a, ha, hai⟩ := ih p i (by omega)
      exact ⟨a, by rw [ancestorAt_of_parent t hp (by omega), ha], hai⟩

/-- The last step of `k + 1` steps up is a step to a parent. -/
theorem up_succ (t : BlockTree ν) :
    ∀ (k : Nat) (n : ν), t.up (k + 1) n = (t.up k n).bind t.parent := by
  intro k
  induction k with
  | zero =>
    intro n
    cases hp : t.parent n <;> simp [BlockTree.up, hp]
  | succ k ih =>
    intro n
    cases hp : t.parent n with
    | none => simp [BlockTree.up, hp]
    | some p =>
      have h := ih p
      rw [BlockTree.up, hp, Option.bind_some, h, BlockTree.up, hp, Option.bind_some]

/-- The parent of an ancestor is the ancestor one height below. -/
theorem ancestorAt_pred (t : BlockTree ν) {n a p : ν} {i : Nat} (hi : i < (t.height n).toNat)
    (ha : t.ancestorAt n (i + 1) = some a) (hp : t.parent a = some p) :
    t.ancestorAt n i = some p := by
  have hk : (t.height n).toNat - i = ((t.height n).toNat - (i + 1)) + 1 := by omega
  unfold BlockTree.ancestorAt at ha ⊢
  rw [hk, up_succ, ha, Option.bind_some, hp]

/-! ### Growing and shrinking the slice -/

/-- The visible slots of `s` up to index `h` are closed under parents: a slot that
holds a node has the node's height as its index, and the slot below holds the
node's parent. -/
def ClosedUpTo (t : BlockTree ν) (s : Slice (Option ν)) (h : Nat) : Prop :=
  ∀ i m, i ≤ h → s.get? i = some (some m) →
    (t.height m).toNat = i ∧ ∀ p, t.parent m = some p → s.get? (i - 1) = some (some p)

/-- All visible slots of `s` are closed under parents. -/
def Closed (t : BlockTree ν) (s : Slice (Option ν)) : Prop := ∀ h, ClosedUpTo t s h

/-- Clearing `k` slots from `i` on succeeds when they are visible, and leaves every
other slot. -/
theorem clearFrom_spec :
    ∀ (k : Nat) (s : Slice (Option ν)) (i : Nat), i + k ≤ s.len →
      ∃ s', clearFrom s i k = .ok s' ∧ s'.len = s.len ∧
        ∀ j, s'.get? j = if i ≤ j ∧ j < i + k then some none else s.get? j := by
  intro k
  induction k with
  | zero =>
    intro s i _
    refine ⟨s, rfl, rfl, fun j => ?_⟩
    rw [if_neg (by omega)]
  | succ k ih =>
    intro s i h
    obtain ⟨s₁, hset, hlen, -, hget⟩ := s.set?_spec (none : Option ν) (show i < s.len by omega)
    obtain ⟨s₂, hclear, hlen₂, hget₂⟩ := ih s₁ (i + 1) (by omega)
    refine ⟨s₂, ?_, by omega, fun j => ?_⟩
    · rw [clearFrom, hset]
      exact hclear
    · rw [hget₂ j, hget j]
      by_cases hj : j = i
      · subst hj
        rw [if_neg (by omega), if_pos rfl, if_pos (by omega)]
      · rw [if_neg hj]
        by_cases hin : i + 1 ≤ j ∧ j < i + 1 + k
        · rw [if_pos hin, if_pos (by omega)]
        · rw [if_neg hin, if_neg (by omega)]

/-- The spare capacity of a reallocation does not wrap. -/
theorem le_add_approxNodesPerDay (needed : UInt64) (h : needed.toNat ≤ 2 ^ 63) :
    needed.toNat ≤ (needed + approxNodesPerDay).toNat := by
  have h576 : approxNodesPerDay.toNat = 576 := rfl
  rw [UInt64.toNat_add, h576]
  omega

/-- The resized slice is `needed` long. The old slots that are still visible keep
their nodes, and every new slot is nil. -/
theorem resize_spec (s : Slice (Option ν)) (needed : UInt64) (h : needed.toNat ≤ 2 ^ 63) :
    ∃ s', resize s needed = .ok s' ∧ s'.len = needed.toNat ∧
      ∀ i, i < needed.toNat → s'.get? i = if i < s.len then s.get? i else some none := by
  unfold resize
  by_cases hcap : s.cap < needed.toNat
  · rw [if_pos hcap]
    -- A new array: all slots are nil before the copy.
    obtain ⟨nodes, hmake, hlen, -, hget⟩ :=
      Slice.make?_spec (none : Option ν) (le_add_approxNodesPerDay needed h)
    refine ⟨nodes.copy s, ?_, hlen, fun i hi => ?_⟩
    · rw [hmake]
      rfl
    · rw [Slice.get?_copy nodes s (by omega), hget i hi]
  · rw [if_neg hcap]
    obtain ⟨s₁, hre, hlen, -, hget⟩ := s.reslice?_spec (show needed.toNat ≤ s.cap by omega)
    simp only [hre, orPanic_some]
    -- The re-sliced window is shorter or longer than the old one. Only a longer
    -- one has cells to clear.
    by_cases hgrow : s.len ≤ needed.toNat
    · obtain ⟨s₂, hclear, hlen₂, hget₂⟩ :=
        clearFrom_spec (needed.toNat - s.len) s₁ s.len (by omega)
      refine ⟨s₂, hclear, by omega, fun i hi => ?_⟩
      rw [hget₂ i]
      by_cases hold : i < s.len
      · rw [if_neg (by omega), if_pos hold, hget i hi hold]
      · rw [if_pos (by omega), if_neg hold]
    · have hzero : needed.toNat - s.len = 0 := by omega
      refine ⟨s₁, ?_, hlen, fun i hi => ?_⟩
      · rw [hzero]
        rfl
      · rw [if_pos (by omega), hget i hi (by omega)]

/-- Resizing keeps `Closed`: no slot changes its node, and a slot that stays
visible has the slots below it visible too. -/
theorem closed_resize (t : BlockTree ν) {s s' : Slice (Option ν)} {needed : Nat}
    (hlen : s'.len = needed)
    (hget : ∀ i, i < needed → s'.get? i = if i < s.len then s.get? i else some none)
    (hc : Closed t s) : Closed t s' := by
  intro h i m hih hi
  -- A slot that holds a node is visible.
  have hlt : i < needed := by
    by_contra hge
    rw [s'.get?_eq_none (by omega)] at hi
    exact absurd hi (by simp)
  rw [hget i hlt] at hi
  split at hi
  · obtain ⟨hm, hp⟩ := hc h i m hih hi
    refine ⟨hm, fun p hpar => ?_⟩
    rw [hget (i - 1) (by omega), if_pos (by omega)]
    exact hp p hpar
  · exact absurd hi (by simp)

/-! ### What the index is for -/

/-- Below a slot that holds `n`, closed slots hold the ancestors of `n`. -/
theorem ancestors_of_closed (t : BlockTree ν) (s : Slice (Option ν)) :
    ∀ (k : Nat) (n : ν) (i : Nat), (t.height n).toNat = i + k →
      ClosedUpTo t s (t.height n).toNat → s.get? (t.height n).toNat = some (some n) →
      s.get? i = some (t.ancestorAt n i) := by
  intro k
  induction k with
  | zero =>
    intro n i h _ hn
    have hi : i = (t.height n).toNat := by omega
    subst hi
    rw [hn, ancestorAt_self]
  | succ k ih =>
    intro n i h hc hn
    cases hp : t.parent n with
    | none =>
      have h0 := height_eq_zero_of_root t hp
      omega
    | some p =>
      have hh : (t.height n).toNat = (t.height p).toNat + 1 := t.height_of_child n p hp
      have hslot := (hc _ n (Nat.le_refl _) hn).2 p hp
      rw [show (t.height n).toNat - 1 = (t.height p).toNat by omega] at hslot
      rw [ancestorAt_of_parent t hp (by omega)]
      exact ih p i (by omega) (fun j m hj => hc j m (by omega)) hslot

/-- What the index is for: `bi` tracks `n` when its slice has one slot for each
height up to the node's own and slot `i` holds the ancestor of `n` at height `i`. -/
def Tracks (t : BlockTree ν) (bi : BlockIndex ν) (n : ν) : Prop :=
  bi.mainChain.len = (t.height n).toNat + 1 ∧
  ∀ i, i ≤ (t.height n).toNat → bi.mainChain.get? i = some (t.ancestorAt n i)

/-- An index that tracks a node is closed under parents. -/
theorem closed_of_tracks (t : BlockTree ν) {bi : BlockIndex ν} {n : ν}
    (h : Tracks t bi n) : Closed t bi.mainChain := by
  obtain ⟨hlen, hget⟩ := h
  intro _ i m _ him
  have hi : i ≤ (t.height n).toNat := by
    by_contra hlt
    rw [bi.mainChain.get?_eq_none (by omega)] at him
    exact absurd him (by simp)
  rw [hget i hi] at him
  obtain ⟨a, ha, hai⟩ := ancestorAt_exists t ((t.height n).toNat - i) n i (by omega)
  rw [ha] at him
  simp only [Option.some.injEq] at him
  subst him
  refine ⟨hai, fun p hp => ?_⟩
  have hh : (t.height a).toNat = (t.height p).toNat + 1 := t.height_of_child a p hp
  -- A node with a parent is not at height 0, so there is a slot below.
  obtain ⟨j, rfl⟩ : ∃ j, i = j + 1 := ⟨i - 1, by omega⟩
  rw [Nat.add_sub_cancel, hget j (by omega), ancestorAt_pred t (by omega) ha hp]

/-- The empty index is closed: it has no visible slot. -/
theorem closed_empty (t : BlockTree ν) : Closed t (BlockIndex.empty : BlockIndex ν).mainChain := by
  intro _ i m _ h
  rw [Slice.get?_eq_none _ (Nat.zero_le i)] at h
  exact absurd h (by simp)

/-! ### The walk -/

variable [DecidableEq ν]

/-- A slot that already holds the node ends the walk. -/
theorem walk_hit (t : BlockTree ν) {s : Slice (Option ν)} {n : ν}
    (h : s.get? (t.height n).toNat = some (some n)) : walk t s n = .ok s := by
  rw [walk, h]
  simp only [orPanic_some, bind, Except.bind, if_true]
  rfl

/-- A slot that does not hold the node is overwritten, and the walk goes on at the
parent if there is one. -/
theorem walk_miss (t : BlockTree ν) {s s' : Slice (Option ν)} {n : ν} {slot : Option ν}
    (h : s.get? (t.height n).toNat = some slot) (hne : slot ≠ some n)
    (hset : s.set? (t.height n).toNat (some n) = some s') :
    walk t s n = match t.parent n with
      | none => .ok s'
      | some p => walk t s' p := by
  rw [walk, h]
  simp only [orPanic_some, bind, Except.bind, hne, if_false, hset]
  split <;> rename_i hp <;> simp [hp, pure, Except.pure]

/-- The walk from `n` succeeds, keeps the length, fills the slots up to the height
of `n` with the ancestors of `n`, and leaves the slots above. Induction on the
height. -/
theorem walk_spec (t : BlockTree ν) :
    ∀ (h : Nat) (s : Slice (Option ν)) (n : ν), (t.height n).toNat = h → h < s.len →
      ClosedUpTo t s h →
      ∃ s', walk t s n = .ok s' ∧ s'.len = s.len ∧
        (∀ i, i ≤ h → s'.get? i = some (t.ancestorAt n i)) ∧
        ∀ i, h < i → s'.get? i = s.get? i := by
  intro h
  induction h using Nat.strongRecOn with
  | ind h ih =>
    intro s n hn hlen hc
    obtain ⟨slot, hslot⟩ := Option.isSome_iff_exists.mp ((s.get?_isSome h).mpr hlen)
    by_cases heq : slot = some n
    · -- The slot is right, and `Closed` makes everything below it right.
      subst heq
      rw [← hn] at hslot hc
      refine ⟨s, walk_hit t hslot, rfl, fun i hi => ?_, fun _ _ => rfl⟩
      exact ancestors_of_closed t s (h - i) n i (by omega) hc hslot
    · obtain ⟨s₁, hset, hlen₁, -, hget₁⟩ := s.set?_spec (some n) hlen
      have hself : t.ancestorAt n h = some n := by
        rw [← hn]
        exact ancestorAt_self t n
      rw [walk_miss t (by rw [hn]; exact hslot) heq (by rw [hn]; exact hset)]
      cases hp : t.parent n with
      | none =>
        -- The walk ends at the root, which has height 0: slot 0 was the last one to
        -- fill.
        have h0 := height_eq_zero_of_root t hp
        refine ⟨s₁, rfl, hlen₁, fun i hi => ?_, fun i hi => ?_⟩
        · have hih : i = h := by omega
          rw [hget₁ i, if_pos hih, hih, hself]
        · rw [hget₁ i, if_neg (by omega)]
      | some p =>
        have hh : (t.height n).toNat = (t.height p).toNat + 1 := t.height_of_child n p hp
        -- The write is above the parent's height, so the slots that the rest of
        -- the walk relies on are the old ones.
        have hbelow : ∀ i, i < h → s₁.get? i = s.get? i := fun i hi => by
          rw [hget₁ i, if_neg (by omega)]
        have hc₁ : ClosedUpTo t s₁ (t.height p).toNat := by
          intro i m hi him
          rw [hbelow i (by omega)] at him
          obtain ⟨hm, hpar⟩ := hc i m (by omega) him
          refine ⟨hm, fun q hq => ?_⟩
          rw [hbelow (i - 1) (by omega)]
          exact hpar q hq
        obtain ⟨s₂, hwalk, hlen₂, hlow, hhigh⟩ :=
          ih (t.height p).toNat (by omega) s₁ p rfl (by omega) hc₁
        refine ⟨s₂, hwalk, by omega, fun i hi => ?_, fun i hi => ?_⟩
        · by_cases hih : i = h
          · rw [hhigh i (by omega), hget₁ i, if_pos hih, hih, hself]
          · rw [hlow i (by omega), ancestorAt_of_parent t hp (by omega)]
        · rw [hhigh i (by omega), hget₁ i, if_neg (by omega)]

/-! ### One call, and every sequence of calls -/

/-- One `SetMainChain` call on a closed index succeeds and tracks the node. -/
theorem setMainChain_spec (t : BlockTree ν) (bi : BlockIndex ν) (n : ν)
    (hc : Closed t bi.mainChain) :
    ∃ bi', setMainChain t bi n = .ok bi' ∧ Tracks t bi' n := by
  have hlt := t.height_lt n
  -- `Height + 1` does not wrap.
  have hneeded : (t.height n + 1).toNat = (t.height n).toNat + 1 := by
    have h1 : (1 : UInt64).toNat = 1 := rfl
    rw [UInt64.toNat_add, h1]
    simp only [BlockTree.height]
    omega
  have hbound : (t.height n + 1).toNat ≤ 2 ^ 63 := by
    rw [hneeded]
    simp only [BlockTree.height]
    omega
  obtain ⟨s₁, hres, hlen₁, hget₁⟩ := resize_spec bi.mainChain (t.height n + 1) hbound
  have hc₁ := closed_resize t hlen₁ hget₁ hc
  obtain ⟨s₂, hwalk, hlen₂, hlow, -⟩ :=
    walk_spec t (t.height n).toNat s₁ n rfl (by omega) (hc₁ _)
  refine ⟨⟨s₂⟩, ?_, by simp only; omega, hlow⟩
  unfold setMainChain
  rw [hres]
  simp only [bind, Except.bind, hwalk]
  rfl

/-- Any sequence of calls from a closed index succeeds and leaves it closed: each call
re-establishes `Closed`. -/
theorem setMainChains_closed (t : BlockTree ν) (ns : List ν) {bi : BlockIndex ν}
    (hc : Closed t bi.mainChain) :
    ∃ bi', setMainChains t bi ns = .ok bi' ∧ Closed t bi'.mainChain := by
  refine foldlM_succeeds (fun bi m _ hc => ?_) hc
  obtain ⟨bi', hset, htr⟩ := setMainChain_spec t bi m hc
  exact ⟨bi', hset, closed_of_tracks t htr⟩

/-- After any sequence of calls, a last call makes the index track its node. -/
theorem setMainChains_spec (t : BlockTree ν) (n : ν) (ns : List ν) (bi : BlockIndex ν)
    (hc : Closed t bi.mainChain) :
    ∃ bi', setMainChains t bi (ns ++ [n]) = .ok bi' ∧ Tracks t bi' n := by
  obtain ⟨bi₁, hrun, hc₁⟩ := setMainChains_closed t ns hc
  obtain ⟨bi', hset, htr⟩ := setMainChain_spec t bi₁ n hc₁
  refine ⟨bi', ?_, htr⟩
  unfold setMainChains at hrun ⊢
  rw [List.foldlM_append, hrun]
  show ([n].foldlM (setMainChain t) bi₁) = _
  rw [List.foldlM_cons, hset]
  rfl

/-- After every call of every sequence of `SetMainChain` calls from the empty
index, the slice is `Height + 1` long and slot `i` holds the ancestor of the node
at height `i`, which exists and has height `i`. No index is out of range: the
sequence never panics. -/
theorem mainChain_tracks_last_node (t : BlockTree ν) (ns : List ν) (n : ν) :
    ∃ bi, setMainChains t BlockIndex.empty (ns ++ [n]) = .ok bi ∧
      bi.mainChain.len = (t.height n).toNat + 1 ∧
      ∀ i, i ≤ (t.height n).toNat →
        ∃ a, t.ancestorAt n i = some a ∧ (t.height a).toNat = i ∧
          bi.mainChain.get? i = some (some a) := by
  obtain ⟨bi, hrun, hlen, hget⟩ := setMainChains_spec t n ns BlockIndex.empty (closed_empty t)
  refine ⟨bi, hrun, hlen, fun i hi => ?_⟩
  obtain ⟨a, ha, hai⟩ := ancestorAt_exists t ((t.height n).toNat - i) n i (by omega)
  exact ⟨a, ha, hai, by rw [hget i hi, ha]⟩

end BtmStats.Proofs.State
