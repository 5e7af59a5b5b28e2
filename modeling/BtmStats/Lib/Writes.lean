import Mathlib.Data.List.Basic

/-!
# `BtmStats.Lib.Writes`: writes at places of a list

`writeAll l ws` performs the writes `ws` in order, each a place and a value. The
last write to a place wins. Where all writes to a place agree, their order does not
matter (`getElem?_writeAll_of_agree`).

A recursion that counts the places of a list as it goes is `List.mapIdx`
(`eq_mapIdx_of_cons`).
-/

set_option autoImplicit false

namespace BtmStats.Lib

variable {α : Type}

/-- Perform the writes in order. A write outside the list does nothing. -/
def writeAll : List α → List (Nat × α) → List α
  | l, [] => l
  | l, (p, a) :: ws => writeAll (l.set p a) ws

@[simp] theorem length_writeAll : ∀ (ws : List (Nat × α)) (l : List α),
    (writeAll l ws).length = l.length := by
  intro ws
  induction ws with
  | nil => exact fun _ => rfl
  | cons w ws ih =>
    intro l
    rw [writeAll, ih, List.length_set]

/-- Writes one after the other. -/
theorem writeAll_append : ∀ (ws vs : List (Nat × α)) (l : List α),
    writeAll l (ws ++ vs) = writeAll (writeAll l ws) vs := by
  intro ws vs
  induction ws with
  | nil => exact fun _ => rfl
  | cons w ws ih =>
    intro l
    exact ih (l.set w.1 w.2)

/-- A place that nothing writes to keeps its value. -/
theorem getElem?_writeAll_of_ne : ∀ (ws : List (Nat × α)) (l : List α) (q : Nat),
    (∀ w ∈ ws, w.1 ≠ q) → (writeAll l ws)[q]? = l[q]? := by
  intro ws
  induction ws with
  | nil => exact fun _ _ _ => rfl
  | cons w ws ih =>
    intro l q hne
    obtain ⟨hw, hws⟩ := List.forall_mem_cons.mp hne
    rw [writeAll, ih _ q hws, List.getElem?_set_ne hw]

/-- The last write to a place wins. -/
theorem getElem?_writeAll_concat (ws : List (Nat × α)) (l : List α) {q : Nat}
    (hq : q < l.length) (a : α) : (writeAll l (ws ++ [(q, a)]))[q]? = some a := by
  rw [writeAll_append]
  exact List.getElem?_set_self (by rw [length_writeAll]; exact hq)

/-- Where all writes to a place agree, it has their value. Induction on the writes:
either a later one writes to the place, or the first one is the last. -/
theorem getElem?_writeAll_of_agree {q : Nat} {a : α} :
    ∀ (ws : List (Nat × α)) (l : List α), q < l.length → (∃ b, (q, b) ∈ ws) →
      (∀ b, (q, b) ∈ ws → b = a) → (writeAll l ws)[q]? = some a := by
  intro ws
  induction ws with
  | nil =>
    rintro l - ⟨b, hb⟩
    simp at hb
  | cons w ws ih =>
    rintro l hq ⟨b, hb⟩ hagree
    have hlen : q < (l.set w.1 w.2).length := by rw [List.length_set]; exact hq
    have hrest : ∀ c, (q, c) ∈ ws → c = a := fun c hc => hagree c (List.mem_cons_of_mem w hc)
    by_cases hlater : ∃ c, (q, c) ∈ ws
    · exact ih _ hlen hlater hrest
    · -- No later write: the first one stays.
      obtain rfl : w = (q, b) := by
        rcases List.mem_cons.mp hb with hw | hw
        · exact hw.symm
        · exact absurd ⟨b, hw⟩ hlater
      rw [writeAll, getElem?_writeAll_of_ne ws _ q, List.getElem?_set_self hq,
        hagree b List.mem_cons_self]
      rintro ⟨p, c⟩ hc rfl
      exact hlater ⟨c, hc⟩

/-- A recursion that maps each element with its place, counted from `i` on. -/
theorem eq_mapIdx_of_cons {β : Type} {f : Nat → List α → List β} {g : Nat → α → β}
    (hnil : ∀ i, f i [] = []) (hcons : ∀ i a l, f i (a :: l) = g i a :: f (i + 1) l) :
    ∀ (l : List α) (i : Nat), f i l = l.mapIdx fun k => g (i + k) := by
  intro l
  induction l with
  | nil => exact hnil
  | cons a l ih =>
    intro i
    rw [hcons, ih, List.mapIdx_cons, Nat.add_zero]
    simp only [Nat.add_assoc, Nat.add_comm 1]
    rfl

end BtmStats.Lib
