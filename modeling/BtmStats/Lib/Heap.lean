import Mathlib.Order.WithBot
import Mathlib.Data.List.Perm.Basic

/-!
# `BtmStats.Lib.Heap`: a binary heap in a list

The heap of package `container/heap`, with the greatest key on top. The children of place `i`
are the places `2 * i + 1` and `2 * i + 2`. `push` appends an element and moves it up,
`pop` exchanges the first element with the last one, takes it off and moves the other down.

Both keep the elements and the order (`push_perm`, `push_isHeap`, `pop_spec`), and `pop`
gives an element with a greatest key.

A place past the end has key `⊥`, so the order of a heap is a statement about all places.
-/

set_option autoImplicit false

namespace BtmStats.Lib.Heap

/-! ### Operations -/

section
variable {α ρ : Type} [LinearOrder ρ] (key : α → ρ)

/-- The element at `i` goes before the element at `j`. -/
def less (l : List α) (i j : Nat) : Bool :=
  match l[i]?, l[j]? with
  | some x, some y => decide (key y < key x)
  | _, _ => false

def swap (l : List α) (i j : Nat) : List α :=
  match l[i]?, l[j]? with
  | some x, some y => (l.set i y).set j x
  | _, _ => l

/-- `up`, with at most `fuel` exchanges. -/
def up : Nat → List α → Nat → List α
  | 0, l, _ => l
  | fuel + 1, l, j =>
    let i := (j - 1) / 2
    if i = j ∨ less key l j i = false then l else up fuel (swap l i j) i

/-- The child that `down` compares with. -/
def child (l : List α) (i : Nat) : Nat :=
  let j1 := 2 * i + 1
  let j2 := j1 + 1
  if j2 < l.length ∧ less key l j2 j1 = true then j2 else j1

/-- `down`, with at most `fuel` exchanges. -/
def down : Nat → List α → Nat → List α
  | 0, l, _ => l
  | fuel + 1, l, i =>
    if l.length ≤ 2 * i + 1 then l
    else
      let j := child key l i
      if less key l j i = false then l else down fuel (swap l i j) j

def push (l : List α) (x : α) : List α := up key l.length (l ++ [x]) l.length

/-- The last place is taken off before `down`, which does not look at it. -/
def pop (l : List α) : Option (α × List α) :=
  let n := l.length - 1
  let l := swap l 0 n
  l[n]?.map fun x => (x, down key n (l.take n) 0)

/-! ### Keys -/

/-- The key at a place. -/
def keyAt (l : List α) (i : Nat) : WithBot ρ :=
  match l[i]? with
  | some x => key x
  | none => ⊥

/-- Every element is at most its parent. -/
def IsHeap (l : List α) : Prop := ∀ j, 0 < j → keyAt key l j ≤ keyAt key l ((j - 1) / 2)

end

section
variable {κ : Type}

/-- The keys after an exchange of two places. -/
def exchange (k : Nat → κ) (i j : Nat) (m : Nat) : κ :=
  if m = j then k i else if m = i then k j else k m

variable {i j m : Nat}

theorem exchange_left (k : Nat → κ) (hne : i ≠ j) : exchange k i j i = k j := by
  rw [exchange, if_neg hne, if_pos rfl]

theorem exchange_right (k : Nat → κ) (i j : Nat) : exchange k i j j = k i := if_pos rfl

theorem exchange_other (k : Nat → κ) (hi : m ≠ i) (hj : m ≠ j) : exchange k i j m = k m := by
  rw [exchange, if_neg hj, if_neg hi]

variable [LinearOrder κ]

/-- The order of a heap, but that the key at `j` may be above its parent. -/
structure HeapAbove (k : Nat → κ) (j : Nat) : Prop where
  le : ∀ m, 0 < m → m ≠ j → k m ≤ k ((m - 1) / 2)
  skip : ∀ m, 0 < m → 0 < j → (m - 1) / 2 = j → k m ≤ k ((j - 1) / 2)

/-- The order of a heap, but that the key at `i` may be below its children. -/
structure HeapBelow (k : Nat → κ) (i : Nat) : Prop where
  le : ∀ m, 0 < m → (m - 1) / 2 ≠ i → k m ≤ k ((m - 1) / 2)
  skip : ∀ m, 0 < m → 0 < i → (m - 1) / 2 = i → k m ≤ k ((i - 1) / 2)

variable {k : Nat → κ}

/-- The key moves up by one place. -/
theorem HeapAbove.move (h : HeapAbove k j) (hj : 0 < j) (hi : (j - 1) / 2 = i)
    (hlt : k i < k j) : HeapAbove (exchange k i j) i := by
  have hij : i ≠ j := by omega
  constructor
  · intro m hm hmi
    by_cases hmj : m = j
    · rw [hmj, hi, exchange_right, exchange_left k hij]
      exact hlt.le
    rw [exchange_other k hmi hmj]
    by_cases hpj : (m - 1) / 2 = j
    · rw [hpj, exchange_right, ← hi]
      exact h.skip m hm hj hpj
    have hle := h.le m hm hmj
    by_cases hpi : (m - 1) / 2 = i
    · rw [hpi] at hle ⊢
      rw [exchange_left k hij]
      exact hle.trans hlt.le
    · rw [exchange_other k hpi hpj]
      exact hle
  · intro m hm hpos hmi
    have hle := h.le i hpos hij
    rw [exchange_other k (by omega : (i - 1) / 2 ≠ i) (by omega : (i - 1) / 2 ≠ j)]
    by_cases hmj : m = j
    · rw [hmj, exchange_right]
      exact hle
    · rw [exchange_other k (by omega : m ≠ i) hmj]
      have hchild := h.le m hm hmj
      rw [hmi] at hchild
      exact hchild.trans hle

/-- The key moves down by one place, to its greater child. -/
theorem HeapBelow.move (h : HeapBelow k i) (hj : 0 < j) (hi : (j - 1) / 2 = i)
    (hlt : k i < k j) (hmax : ∀ m, 0 < m → (m - 1) / 2 = i → k m ≤ k j) :
    HeapBelow (exchange k i j) j := by
  have hij : i ≠ j := by omega
  constructor
  · intro m hm hpj
    by_cases hmj : m = j
    · rw [hmj, hi, exchange_right, exchange_left k hij]
      exact hlt.le
    by_cases hmi : m = i
    · rw [hmi, exchange_left k hij,
        exchange_other k (by omega : (i - 1) / 2 ≠ i) (by omega : (i - 1) / 2 ≠ j)]
      exact h.skip j hj (by omega) hi
    rw [exchange_other k hmi hmj]
    by_cases hpi : (m - 1) / 2 = i
    · rw [hpi, exchange_left k hij]
      exact hmax m hm hpi
    · rw [exchange_other k hpi hpj]
      exact h.le m hm hpi
  · intro m hm hpos hmj
    have hle := h.le m hm (by omega)
    rw [hmj] at hle
    rw [hi, exchange_left k hij, exchange_other k (by omega : m ≠ i) (by omega : m ≠ j)]
    exact hle

end

/-! ### The exchange of two elements -/

section
variable {α ρ : Type} {key : α → ρ} {l : List α} {i j : Nat}

theorem keyAt_of_some {x : α} (h : l[i]? = some x) : keyAt key l i = key x := by
  rw [keyAt, h]

theorem keyAt_of_le (h : l.length ≤ i) : keyAt key l i = ⊥ := by
  rw [keyAt, List.getElem?_eq_none h]

theorem keyAt_append_of_lt (l' : List α) (h : i < l.length) :
    keyAt key (l ++ l') i = keyAt key l i := by
  rw [keyAt, keyAt, List.getElem?_append_left h]

theorem keyAt_take_of_lt {n : Nat} (h : i < n) : keyAt key (l.take n) i = keyAt key l i := by
  rw [keyAt, keyAt, List.getElem?_take_of_lt h]

theorem swap_eq (hi : i < l.length) (hj : j < l.length) :
    swap l i j = (l.set i l[j]).set j l[i] := by
  rw [swap, List.getElem?_eq_getElem hi, List.getElem?_eq_getElem hj]

theorem swap_perm (l : List α) (i j : Nat) : (swap l i j).Perm l := by
  unfold swap
  split
  · next x y hx hy =>
    obtain ⟨hi, rfl⟩ := List.getElem?_eq_some_iff.mp hx
    obtain ⟨hj, rfl⟩ := List.getElem?_eq_some_iff.mp hy
    exact List.set_set_perm hi hj
  · exact .refl l

theorem keyAt_swap (key : α → ρ) (hi : i < l.length) (hj : j < l.length) :
    keyAt key (swap l i j) = exchange (keyAt key l) i j := by
  funext m
  rw [swap_eq hi hj, keyAt, exchange]
  by_cases hmj : m = j
  · subst hmj
    rw [List.getElem?_set_self (by simpa using hj), if_pos rfl,
      keyAt_of_some (List.getElem?_eq_getElem hi)]
  rw [List.getElem?_set_ne (Ne.symm hmj), if_neg hmj]
  by_cases hmi : m = i
  · subst hmi
    rw [List.getElem?_set_self hi, if_pos rfl, keyAt_of_some (List.getElem?_eq_getElem hj)]
  · rw [List.getElem?_set_ne (Ne.symm hmi), if_neg hmi, keyAt]

variable [LinearOrder ρ]

theorem less_eq_true_iff (hi : i < l.length) (hj : j < l.length) :
    less key l i j = true ↔ keyAt key l j < keyAt key l i := by
  rw [less, keyAt, keyAt, List.getElem?_eq_getElem hi, List.getElem?_eq_getElem hj]
  simp

theorem less_eq_false_iff (hi : i < l.length) (hj : j < l.length) :
    less key l i j = false ↔ keyAt key l i ≤ keyAt key l j := by
  rw [← not_lt, ← less_eq_true_iff hi hj, Bool.not_eq_true]

/-! ### Moving up and down -/

theorem up_perm (fuel : Nat) (l : List α) (j : Nat) : (up key fuel l j).Perm l := by
  induction fuel generalizing l j with
  | zero => exact .refl l
  | succ fuel ih =>
    rw [up]
    split
    · exact .refl l
    · exact (ih _ _).trans (swap_perm l _ _)

theorem down_perm (fuel : Nat) (l : List α) (i : Nat) : (down key fuel l i).Perm l := by
  induction fuel generalizing l i with
  | zero => exact .refl l
  | succ fuel ih =>
    rw [down]
    split
    · exact .refl l
    dsimp only
    split
    · exact .refl l
    · exact (ih _ _).trans (swap_perm l _ _)

/-- Sifting up repairs a heap that is broken at its end. -/
theorem up_isHeap {fuel : Nat} (hj : j < l.length) (hfuel : j ≤ fuel)
    (h : HeapAbove (keyAt key l) j) : IsHeap key (up key fuel l j) := by
  induction fuel generalizing l j with
  | zero =>
    obtain rfl : j = 0 := by omega
    exact fun m hm => h.le m hm (by omega)
  | succ fuel ih =>
    have hi : (j - 1) / 2 < l.length := by omega
    rw [up]
    split
    · next hstop =>
      intro m hm
      by_cases hmj : m = j
      · subst hmj
        exact (less_eq_false_iff hj hi).mp (hstop.resolve_left (by omega))
      · exact h.le m hm hmj
    · next hgo =>
      rw [not_or, Bool.not_eq_false, less_eq_true_iff hj hi] at hgo
      obtain ⟨hne, hlt⟩ := hgo
      have hmove := h.move (by omega) rfl hlt
      rw [← keyAt_swap key hi hj] at hmove
      exact ih (by rw [(swap_perm l _ _).length_eq]; exact hi) (by omega) hmove

/-- The child that is compared is a greatest child. -/
theorem child_spec (key : α → ρ) (hi : 2 * i + 1 < l.length) :
    0 < child key l i ∧ (child key l i - 1) / 2 = i ∧ child key l i < l.length ∧
      ∀ m, 0 < m → (m - 1) / 2 = i → keyAt key l m ≤ keyAt key l (child key l i) := by
  have hcases : ∀ m, 0 < m → (m - 1) / 2 = i → m = 2 * i + 1 ∨ m = 2 * i + 2 := by omega
  unfold child
  dsimp only
  split
  · next hright =>
    refine ⟨by omega, by omega, hright.1, fun m hm hpar => ?_⟩
    have hlt := (less_eq_true_iff hright.1 hi).mp hright.2
    rcases hcases m hm hpar with rfl | rfl
    · exact hlt.le
    · exact le_rfl
  · next hleft =>
    refine ⟨by omega, by omega, hi, fun m hm hpar => ?_⟩
    rcases hcases m hm hpar with rfl | rfl
    · exact le_rfl
    · by_cases hlen : 2 * i + 2 < l.length
      · rw [not_and, Bool.not_eq_true] at hleft
        exact (less_eq_false_iff hlen hi).mp (hleft hlen)
      · rw [keyAt_of_le (by omega)]
        exact bot_le

/-- At a place without children the heap is in order. -/
theorem HeapBelow.isHeap_of_leaf (h : HeapBelow (keyAt key l) i) (hlen : l.length ≤ 2 * i + 1) :
    IsHeap key l := by
  intro m hm
  by_cases hpar : (m - 1) / 2 = i
  · rw [keyAt_of_le (by omega)]
    exact bot_le
  · exact h.le m hm hpar

/-- Sifting down repairs a heap that is broken at one place. -/
theorem down_isHeap {fuel : Nat} (hfuel : l.length ≤ fuel + i + 1)
    (h : HeapBelow (keyAt key l) i) : IsHeap key (down key fuel l i) := by
  induction fuel generalizing l i with
  | zero => exact h.isHeap_of_leaf (by omega)
  | succ fuel ih =>
    rw [down]
    split
    · next hlen => exact h.isHeap_of_leaf hlen
    next hlen =>
    obtain ⟨hpos, hpar, hlt, hmax⟩ := child_spec key (by omega : 2 * i + 1 < l.length)
    have hi : i < l.length := by omega
    dsimp only
    split
    · next hstop =>
      intro m hm
      by_cases hpm : (m - 1) / 2 = i
      · rw [hpm]
        exact (hmax m hm hpm).trans ((less_eq_false_iff hlt hi).mp hstop)
      · exact h.le m hm hpm
    · next hgo =>
      rw [Bool.not_eq_false, less_eq_true_iff hlt hi] at hgo
      have hmove := h.move hpos hpar hgo hmax
      rw [← keyAt_swap key hi hlt] at hmove
      exact ih (by rw [(swap_perm l _ _).length_eq]; omega) hmove

/-! ### Push and pop -/

/-- `Push` keeps the elements. -/
theorem push_perm (key : α → ρ) (l : List α) (x : α) : (push key l x).Perm (x :: l) :=
  (up_perm _ _ _).trans (List.perm_append_singleton x l)

/-- `Push` keeps the order. -/
theorem push_isHeap (h : IsHeap key l) (x : α) : IsHeap key (push key l x) := by
  refine up_isHeap (by simp) le_rfl ⟨fun m hm hne => ?_, fun m hm hpos hpar => ?_⟩
  · by_cases hlt : m < l.length
    · rw [keyAt_append_of_lt _ hlt, keyAt_append_of_lt _ (by omega)]
      exact h m hm
    · rw [keyAt_of_le (by simp; omega)]
      exact bot_le
  · rw [keyAt_of_le (by simp; omega)]
    exact bot_le

/-- The element on top has a greatest key. -/
theorem IsHeap.le_top (h : IsHeap key l) (m : Nat) : keyAt key l m ≤ keyAt key l 0 := by
  induction m using Nat.strongRecOn with
  | ind m ih =>
    rcases Nat.eq_zero_or_pos m with rfl | hm
    · exact le_rfl
    · exact (h m hm).trans (ih _ (by omega))

/-- `Pop` takes out an element that no other precedes. -/
theorem pop_spec (h : IsHeap key l) (hne : l ≠ []) :
    ∃ x l', pop key l = some (x, l') ∧ l.Perm (x :: l') ∧ IsHeap key l' ∧
      ∀ y ∈ l, key y ≤ key x := by
  have hpos : 0 < l.length := List.length_pos_iff.mpr hne
  obtain ⟨n, hn⟩ : ∃ n, l.length = n + 1 := ⟨l.length - 1, by omega⟩
  have hlen : (swap l 0 n).length = n + 1 := (swap_perm l _ _).length_eq.trans hn
  have hkeys := keyAt_swap key hpos (by omega : n < l.length)
  have hx : (swap l 0 n)[n]? = some (swap l 0 n)[n] := List.getElem?_eq_getElem (by omega)
  refine ⟨(swap l 0 n)[n], down key n ((swap l 0 n).take n) 0, ?_, ?_, ?_, fun y hy => ?_⟩
  · rw [pop, hn]
    simp only [Nat.add_sub_cancel, hx, Option.map_some]
  · have hsplit : swap l 0 n = (swap l 0 n).take n ++ [(swap l 0 n)[n]] := by
      rw [List.take_append_getElem, List.take_of_length_le (by omega)]
    have hfront := List.perm_append_singleton (swap l 0 n)[n] ((swap l 0 n).take n)
    rw [← hsplit] at hfront
    exact ((swap_perm l _ _).symm.trans hfront).trans ((down_perm _ _ _).symm.cons _)
  · refine down_isHeap (by simp) ⟨fun m hm hpar => ?_, fun m hm hzero => absurd hzero (by omega)⟩
    by_cases hlt : m < n
    · rw [keyAt_take_of_lt hlt, keyAt_take_of_lt (by omega), hkeys,
        exchange_other _ (by omega) (by omega), exchange_other _ (by omega) (by omega)]
      exact h m hm
    · rw [keyAt_of_le (by simp; omega)]
      exact bot_le
  · obtain ⟨m, hm⟩ := List.getElem?_of_mem hy
    have htop := h.le_top m
    rw [← exchange_right (keyAt key l) 0 n, ← hkeys, keyAt_of_some hm, keyAt_of_some hx] at htop
    exact WithBot.coe_le_coe.mp htop

end

end BtmStats.Lib.Heap
