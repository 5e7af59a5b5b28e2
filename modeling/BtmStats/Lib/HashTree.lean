import Mathlib.Data.Set.Function

/-!
# `BtmStats.Lib.HashTree`: hash trees over a list

A hash tree puts a list into one digest: the empty list has a digest of its own, a
single element is a leaf, and a longer list is split in two and hashed as a node
over the digests of the halves. The split position is a parameter (`SplitRule`),
and so are the three input encodings (`HashTree`).

`root_injective` is the binding property. When the inputs of the hash can be told
apart, a leaf from a node from the empty list, and the hash has no collision among
the inputs that two computations really hash, equal digests mean equal lists. The
lists can have different lengths, and then their trees have different shapes. The
hypothesis reads only the inputs in `preimages`: no hash into a finite set is
injective on every input.
-/

set_option autoImplicit false

namespace BtmStats.Lib

/-- Where to split a list of two or more elements: both halves are non-empty. -/
structure SplitRule where
  split : Nat → Nat
  split_pos : ∀ n, 2 ≤ n → 0 < split n
  split_lt : ∀ n, 2 ≤ n → split n < n

/-- A hash and the encodings of its three kinds of inputs. The encodings are
injective and never meet. -/
structure HashTree (α β δ : Type) where
  hash : β → δ
  empty : β
  leaf : α → β
  node : δ → δ → β
  leaf_inj : ∀ a b, leaf a = leaf b → a = b
  node_inj : ∀ l r l' r', node l r = node l' r' → l = l' ∧ r = r'
  leaf_ne_empty : ∀ a, leaf a ≠ empty
  node_ne_empty : ∀ l r, node l r ≠ empty
  leaf_ne_node : ∀ a l r, leaf a ≠ node l r

namespace HashTree

variable {α β δ : Type} (T : HashTree α β δ) (R : SplitRule)

/-- The digest of a list. -/
def root : List α → δ
  | [] => T.hash T.empty
  | [a] => T.hash (T.leaf a)
  | a :: b :: rest =>
    let xs := a :: b :: rest
    T.hash (T.node (root (xs.take (R.split xs.length))) (root (xs.drop (R.split xs.length))))
termination_by xs => xs.length
decreasing_by
  all_goals
    have hp := R.split_pos (rest.length + 1 + 1) (by omega)
    have hl := R.split_lt (rest.length + 1 + 1) (by omega)
    simp only [List.length_take, List.length_drop, List.length_cons]
    omega

/-- The inputs that the computation of `root` hashes. -/
def preimages : List α → List β
  | [] => [T.empty]
  | [a] => [T.leaf a]
  | a :: b :: rest =>
    let xs := a :: b :: rest
    T.node (root T R (xs.take (R.split xs.length))) (root T R (xs.drop (R.split xs.length)))
      :: (preimages (xs.take (R.split xs.length)) ++ preimages (xs.drop (R.split xs.length)))
termination_by xs => xs.length
decreasing_by
  all_goals
    have hp := R.split_pos (rest.length + 1 + 1) (by omega)
    have hl := R.split_lt (rest.length + 1 + 1) (by omega)
    simp only [List.length_take, List.length_drop, List.length_cons]
    omega

/-- The input whose hash is the digest of the list. -/
def top : List α → β
  | [] => T.empty
  | [a] => T.leaf a
  | a :: b :: rest =>
    let xs := a :: b :: rest
    T.node (root T R (xs.take (R.split xs.length))) (root T R (xs.drop (R.split xs.length)))

theorem root_eq_hash_top (xs : List α) : root T R xs = T.hash (top T R xs) := by
  match xs with
  | [] => rw [root, top]
  | [a] => rw [root, top]
  | a :: b :: rest => rw [root, top]

theorem top_mem_preimages (xs : List α) : top T R xs ∈ preimages T R xs := by
  match xs with
  | [] => simp [top, preimages]
  | [a] => simp [top, preimages]
  | a :: b :: rest => simp [top, preimages]

/-- The preimages of the halves are preimages of the whole. -/
theorem preimages_halves (a b : α) (rest : List α) (p : β) :
    p ∈ preimages T R ((a :: b :: rest).take (R.split (rest.length + 2))) ∨
      p ∈ preimages T R ((a :: b :: rest).drop (R.split (rest.length + 2))) →
    p ∈ preimages T R (a :: b :: rest) := by
  intro h
  rw [preimages]
  exact List.mem_cons_of_mem _ (List.mem_append.mpr h)

/-- Equal digests have equal top inputs. -/
theorem top_eq_of_root_eq {xs ys : List α}
    (hinj : Set.InjOn T.hash {p | p ∈ preimages T R xs ∨ p ∈ preimages T R ys})
    (h : root T R xs = root T R ys) : top T R xs = top T R ys := by
  refine hinj (Or.inl (top_mem_preimages T R xs)) (Or.inr (top_mem_preimages T R ys)) ?_
  rw [← root_eq_hash_top, ← root_eq_hash_top, h]

/-- The digest binds the list. Induction along the recursion on the first list. Equal
digests have equal top inputs, so both lists are empty, both are one leaf, or both
split; in the last case the digests of the halves agree. -/
theorem root_injective (xs : List α) :
    ∀ ys : List α, Set.InjOn T.hash {p | p ∈ preimages T R xs ∨ p ∈ preimages T R ys} →
      root T R xs = root T R ys → xs = ys := by
  -- The three kinds of inputs never meet, so both lists have the same shape.
  induction xs using root.induct R with
  | case1 =>
    intro ys hinj h
    have htop := top_eq_of_root_eq T R hinj h
    rcases ys with _ | ⟨c, _ | ⟨d, ys⟩⟩
    · rfl
    · exact absurd htop.symm (T.leaf_ne_empty c)
    · exact absurd htop.symm (T.node_ne_empty _ _)
  | case2 a =>
    intro ys hinj h
    have htop := top_eq_of_root_eq T R hinj h
    rcases ys with _ | ⟨c, _ | ⟨d, ys⟩⟩
    · exact absurd htop (T.leaf_ne_empty a)
    · rw [T.leaf_inj a c htop]
    · exact absurd htop (T.leaf_ne_node a _ _)
  | case3 a b rest xs ihl ihr =>
    intro ys hinj h
    have htop := top_eq_of_root_eq T R hinj h
    rcases ys with _ | ⟨c, _ | ⟨d, ys⟩⟩
    · exact absurd htop (T.node_ne_empty _ _)
    · exact absurd htop.symm (T.leaf_ne_node c _ _)
    · obtain ⟨hl, hr⟩ := T.node_inj _ _ _ _ htop
      -- The lists may split at different places. The halves are equal, and so are the
      -- lists that they make up.
      have hleft := ihl _ (hinj.mono fun p hp => hp.imp
        (fun h => preimages_halves T R a b rest p (Or.inl h))
        (fun h => preimages_halves T R c d ys p (Or.inl h))) hl
      have hright := ihr _ (hinj.mono fun p hp => hp.imp
        (fun h => preimages_halves T R a b rest p (Or.inr h))
        (fun h => preimages_halves T R c d ys p (Or.inr h))) hr
      calc a :: b :: rest = xs.take (R.split xs.length) ++ xs.drop (R.split xs.length) :=
            (List.take_append_drop _ _).symm
        _ = c :: d :: ys := by rw [hleft, hright, List.take_append_drop]

end HashTree

end BtmStats.Lib
