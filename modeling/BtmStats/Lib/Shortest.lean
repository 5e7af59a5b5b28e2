import BtmStats.Lib.PrefixParser

/-!
# `BtmStats.Lib.Shortest`: the shortest string of each value of a grammar

A grammar may have many strings for one value. `Shrinks G f` says that `f` picks the shortest
of them, and that every other string of the value can be made shorter by one symbol. So the
lengths of a value's strings have no gaps, `f a` is the only string of its length, and a
string is `f a` as soon as no shorter one exists.

The rules follow the shape of a grammar: one string for each value (`shrinks_of_eq`), a part
of the value (`Shrinks.part`), a condition on the value (`Shrinks.guard`), one string after
the other (`Shrinks.cat`), a known string in front (`Shrinks.after`) and a list of strings
(`Shrinks.many`). `Spread G k` bounds how far the lengths of one value's strings are apart,
with rules of the same kind.

`Alone G a s` says that `s` is the only string of its length. Where each of two parts has
strings of several lengths, a symbol can be taken from one part and given to the other. So
only the shortest string and the longest one are alone (`alone_cat_iff`).
-/

set_option autoImplicit false

namespace BtmStats.Lib

variable {τ α β : Type} {G H : List τ → α → Prop} {f g : α → List τ}

/-- Every string of a value is `f` of it, or can be made shorter by one symbol. -/
def Shrinks (G : List τ → α → Prop) (f : α → List τ) : Prop :=
  ∀ s a, G s a → s = f a ∨ ∃ t, G t a ∧ t.length + 1 = s.length

/-- One string after the other, for one value. -/
def Cat (G H : List τ → α → Prop) : List τ → α → Prop :=
  fun s a => ∃ s₁ s₂, s = s₁ ++ s₂ ∧ G s₁ a ∧ H s₂ a

variable {a : α} {s t s₁ s₂ : List τ}

/-- Shrinking ends at `f a`, which is therefore in the grammar. Every other string is longer.
Induction on the length. -/
theorem Shrinks.mem_and_eq_or_lt (h : Shrinks G f) (hs : G s a) :
    G (f a) a ∧ (s = f a ∨ (f a).length < s.length) := by
  induction hn : s.length generalizing s with
  | zero =>
    rcases h s a hs with rfl | ⟨t, -, hlen⟩
    · exact ⟨hs, .inl rfl⟩
    · omega
  | succ n ih =>
    rcases h s a hs with rfl | ⟨t, ht, hlen⟩
    · exact ⟨hs, .inl rfl⟩
    · obtain ⟨hmem, rfl | hlt⟩ := ih ht (by omega)
      · exact ⟨hmem, .inr (by omega)⟩
      · exact ⟨hmem, .inr (by omega)⟩

/-- The shortest string is one of those that stand for the value. -/
theorem Shrinks.mem (h : Shrinks G f) (hs : G s a) : G (f a) a :=
  (h.mem_and_eq_or_lt hs).1

theorem Shrinks.eq_or_lt (h : Shrinks G f) (hs : G s a) :
    s = f a ∨ (f a).length < s.length := (h.mem_and_eq_or_lt hs).2

/-- No string for the value is shorter. -/
theorem Shrinks.length_le (h : Shrinks G f) (hs : G s a) : (f a).length ≤ s.length := by
  rcases h.eq_or_lt hs with rfl | hlt
  · exact Nat.le_refl _
  · exact Nat.le_of_lt hlt

/-- The lengths have no gaps: below the length of a string, down to that of `f a`, every
length is that of a string. Induction on what there is to shrink. -/
theorem Shrinks.exists_length (h : Shrinks G f) (hs : G s a) {n : Nat} (hmin : (f a).length ≤ n)
    (hn : n ≤ s.length) : ∃ t, G t a ∧ t.length = n := by
  induction hk : s.length - n generalizing s with
  | zero => exact ⟨s, hs, by omega⟩
  | succ k ih =>
    rcases h s a hs with rfl | ⟨t, ht, hlen⟩
    · omega
    · exact ih ht (by omega) (by omega)

/-! ### The rules -/

/-- A value of another grammar that has the same strings. -/
theorem Shrinks.of_iff {K : List τ → β → Prop} (h : Shrinks G f) {b : β} (hab : ∀ s, G s a ↔ K s b)
    (hs : K s b) : s = f a ∨ ∃ t, K t b ∧ t.length + 1 = s.length := by
  rcases h s a ((hab s).mpr hs) with heq | ⟨t, ht, hlen⟩
  · exact .inl heq
  · exact .inr ⟨t, (hab t).mp ht, hlen⟩

theorem Shrinks.congr (h : Shrinks G f) (hGH : ∀ s a, G s a ↔ H s a) : Shrinks H f :=
  fun _ a hs => h.of_iff (fun s => hGH s a) hs

theorem shrinks_of_eq (h : ∀ s a, G s a → s = f a) : Shrinks G f :=
  fun s a hs => .inl (h s a hs)

/-- The grammar may depend on the value as well. -/
theorem Shrinks.comap {K : β → List τ → α → Prop} {f : β → α → List τ}
    (h : ∀ b, Shrinks (K b) (f b)) (part : β → α) :
    Shrinks (fun s b => K b s (part b)) (fun b => f b (part b)) :=
  fun _ b hs => (h b).of_iff (fun _ => Iff.rfl) hs

/-- A part of the value. -/
theorem Shrinks.part (h : Shrinks G f) (part : β → α) :
    Shrinks (fun s b => G s (part b)) (fun b => f (part b)) := .comap (fun _ => h) part

theorem Shrinks.guard (h : Shrinks G f) (P : α → Prop) :
    Shrinks (fun s a => P a ∧ G s a) f := by
  rintro s a ⟨hP, hs⟩
  rcases h s a hs with heq | ⟨t, ht, hlen⟩
  · exact .inl heq
  · exact .inr ⟨t, ⟨hP, ht⟩, hlen⟩

/-- Parts shrink one by one. -/
theorem Shrinks.cat (hG : Shrinks G f) (hH : Shrinks H g) :
    Shrinks (Cat G H) (fun a => f a ++ g a) := by
  rintro _ a ⟨s₁, s₂, rfl, h₁, h₂⟩
  rcases hG s₁ a h₁ with rfl | ⟨t, ht, hlen⟩
  · rcases hH s₂ a h₂ with rfl | ⟨t, ht, hlen⟩
    · exact .inl rfl
    · refine .inr ⟨_, ⟨f a, t, rfl, h₁, ht⟩, ?_⟩
      rw [List.length_append, List.length_append, ← hlen, Nat.add_assoc]
  · refine .inr ⟨_, ⟨t, s₂, rfl, ht, h₂⟩, ?_⟩
    rw [List.length_append, List.length_append, ← hlen, Nat.add_right_comm]

/-- A known string in front. -/
theorem Shrinks.after (h : Shrinks G f) (k : α → List τ) :
    Shrinks (fun s a => ∃ t, s = k a ++ t ∧ G t a) (fun a => k a ++ f a) := by
  have hfixed : Shrinks (fun s a => s = k a) k := shrinks_of_eq fun _ _ hs => hs
  refine (hfixed.cat h).congr fun s a => ?_
  constructor
  · rintro ⟨_, t, rfl, rfl, ht⟩
    exact ⟨t, rfl, ht⟩
  · rintro ⟨t, rfl, ht⟩
    exact ⟨k a, t, rfl, rfl, ht⟩

/-- A list of strings, as many as there are values. Induction on the values. -/
theorem Shrinks.many (h : Shrinks G f) :
    Shrinks (fun s as => Many G as.length s as) (fun as => as.flatMap f) := by
  rintro _ as ⟨-, parts, rfl, hparts⟩
  induction hparts with
  | nil => exact .inl rfl
  | @cons s a parts as hs hrest ih =>
    rcases h s a hs with rfl | ⟨t, ht, hlen⟩
    · rcases ih with heq | ⟨_, ⟨-, parts', rfl, hparts'⟩, hlen⟩
      · exact .inl (congrArg (f a ++ ·) heq)
      · refine .inr ⟨_, ⟨rfl, f a :: parts', rfl, .cons hs hparts'⟩, ?_⟩
        rw [List.flatten_cons, List.flatten_cons, List.length_append, List.length_append,
          ← hlen, Nat.add_assoc]
    · refine .inr ⟨_, ⟨rfl, t :: parts, rfl, .cons ht hrest⟩, ?_⟩
      rw [List.flatten_cons, List.flatten_cons, List.length_append, List.length_append,
        ← hlen, Nat.add_right_comm]

/-! ### How far lengths are apart -/

/-- The strings of one value differ in length by at most `k`. -/
def Spread (G : List τ → α → Prop) (k : Nat) : Prop :=
  ∀ s t a, G s a → G t a → s.length ≤ t.length + k

theorem spread_of_between {lo hi : Nat} (h : ∀ s a, G s a → lo ≤ s.length ∧ s.length ≤ hi) :
    Spread G (hi - lo) := by
  intro s t a hs ht
  have hs := h s a hs
  have ht := h t a ht
  omega

/-- The spreads of the parts add up. -/
theorem Spread.cat {k l : Nat} (hG : Spread G k) (hH : Spread H l) :
    Spread (Cat G H) (k + l) := by
  rintro _ _ a ⟨s₁, s₂, rfl, hs₁, hs₂⟩ ⟨t₁, t₂, rfl, ht₁, ht₂⟩
  have h₁ := hG s₁ t₁ a hs₁ ht₁
  have h₂ := hH s₂ t₂ a hs₂ ht₂
  rw [List.length_append, List.length_append]
  omega

/-- A list of strings: the bound grows with the number of values. Induction on the values. -/
theorem Spread.many {k : Nat} (hG : Spread G k) {as : List α} (hs : Many G as.length s as)
    (ht : Many G as.length t as) : s.length ≤ t.length + as.length * k := by
  obtain ⟨-, parts, rfl, hparts⟩ := hs
  obtain ⟨-, parts', rfl, hparts'⟩ := ht
  induction hparts generalizing parts' with
  | nil => exact Nat.zero_le _
  | @cons s a parts as hs _ ih =>
    cases hparts' with
    | @cons t _ parts' _ ht hrest =>
      have hfirst := hG s t a hs ht
      have hthen := ih parts' hrest
      rw [List.flatten_cons, List.flatten_cons, List.length_append, List.length_append,
        List.length_cons, Nat.succ_mul]
      omega

/-! ### Strings that are alone -/

/-- `s` is the only string of its length. -/
def Alone (G : List τ → α → Prop) (a : α) (s : List τ) : Prop :=
  ∀ t, G t a → t.length = s.length → t = s

/-- `s` is longer than every other string. -/
def Longest (G : List τ → α → Prop) (a : α) (s : List τ) : Prop :=
  ∀ t, G t a → t = s ∨ t.length < s.length

/-- The shortest string of a value is not the only one. -/
def Stretches (G : List τ → α → Prop) (f : α → List τ) : Prop :=
  ∀ a, G (f a) a → ∃ t, G t a ∧ (f a).length < t.length

theorem Longest.alone (h : Longest G a s) : Alone G a s := by
  intro t ht hlen
  rcases h t ht with heq | hlt
  · exact heq
  · omega

/-- The shortest string is the only one of its length. -/
theorem Shrinks.alone (h : Shrinks G f) (a : α) : Alone G a (f a) := by
  intro t ht hlen
  rcases h.eq_or_lt ht with heq | hlt
  · exact heq
  · omega

/-- The strings of one value show where they end. -/
def PrefixFree (G : List τ → α → Prop) : Prop :=
  ∀ a s t r r', G s a → G t a → s ++ r = t ++ r' → s = t

theorem PrefixFree.after (h : PrefixFree G) (k : α → List τ) :
    PrefixFree (fun s a => ∃ t, s = k a ++ t ∧ G t a) := by
  rintro a _ _ r r' ⟨s, rfl, hs⟩ ⟨t, rfl, ht⟩ heq
  rw [List.append_assoc, List.append_assoc] at heq
  rw [h a s t r r' hs ht (List.append_cancel_left heq)]

theorem Stretches.part (h : Stretches G f) (part : β → α) :
    Stretches (fun s b => G s (part b)) (fun b => f (part b)) := fun b => h (part b)

theorem Stretches.after (h : Stretches G f) (k : α → List τ) :
    Stretches (fun s a => ∃ t, s = k a ++ t ∧ G t a) (fun a => k a ++ f a) := by
  rintro a ⟨s, hs, hmem⟩
  obtain rfl := List.append_cancel_left hs
  obtain ⟨t, ht, hlt⟩ := h a hmem
  refine ⟨k a ++ t, ⟨t, rfl, ht⟩, ?_⟩
  rw [List.length_append, List.length_append]
  exact Nat.add_lt_add_left hlt _

/-- One part that can be stretched is enough. -/
theorem Stretches.cat (h : Stretches G f) (hG : Shrinks G f) (hH : Shrinks H g) :
    Stretches (Cat G H) (fun a => f a ++ g a) := by
  rintro a ⟨s₁, s₂, -, h₁, h₂⟩
  obtain ⟨t, ht, hlt⟩ := h a (hG.mem h₁)
  refine ⟨t ++ g a, ⟨t, g a, rfl, ht, hH.mem h₂⟩, ?_⟩
  rw [List.length_append, List.length_append]
  exact Nat.add_lt_add_right hlt _

/-- The front of a longest string is longest. -/
theorem Longest.left (h : Longest (Cat G H) a (s₁ ++ s₂)) (h₂ : H s₂ a) : Longest G a s₁ := by
  intro t ht
  rcases h (t ++ s₂) ⟨t, s₂, rfl, ht, h₂⟩ with heq | hlt
  · exact .inl (List.append_cancel_right heq)
  · rw [List.length_append, List.length_append] at hlt
    exact .inr (Nat.lt_of_add_lt_add_right hlt)

theorem Longest.right (h : Longest (Cat G H) a (s₁ ++ s₂)) (h₁ : G s₁ a) : Longest H a s₂ := by
  intro t ht
  rcases h (s₁ ++ t) ⟨s₁, t, rfl, h₁, ht⟩ with heq | hlt
  · exact .inl (List.append_cancel_left heq)
  · rw [List.length_append, List.length_append] at hlt
    exact .inr (Nat.lt_of_add_lt_add_left hlt)

theorem Longest.length_le (h : Longest G a s) (ht : G t a) : t.length ≤ s.length := by
  rcases h t ht with rfl | hlt
  · exact Nat.le_refl _
  · exact Nat.le_of_lt hlt

/-- A symbol is taken from the second part and given to the first. The result is another
string, because the first part shows where it ends. -/
theorem not_alone_of_longer_left (hfree : PrefixFree G) (hG : Shrinks G f) (hH : Shrinks H g)
    (h₁ : G s₁ a) (h₂ : H s₂ a) (ht : G t a) (hlt : s₁.length < t.length) (hne : s₂ ≠ g a) :
    ¬ Alone (Cat G H) a (s₁ ++ s₂) := by
  intro halone
  obtain ⟨t₁, ht₁, hlen₁⟩ := hG.exists_length ht (n := s₁.length + 1)
    (Nat.le_succ_of_le (hG.length_le h₁)) hlt
  obtain ⟨t₂, ht₂, hlen₂⟩ := (hH s₂ a h₂).resolve_left hne
  have hsame := halone (t₁ ++ t₂) ⟨t₁, t₂, rfl, ht₁, ht₂⟩
    (by rw [List.length_append, List.length_append]; omega)
  have heq := hfree a t₁ s₁ t₂ s₂ ht₁ h₁ hsame
  rw [heq] at hlen₁
  omega

/-- A symbol is taken from the first part and given to the second. -/
theorem not_alone_of_longer_right (hfree : PrefixFree G) (hG : Shrinks G f) (hH : Shrinks H g)
    (h₁ : G s₁ a) (h₂ : H s₂ a) (ht : H t a) (hlt : s₂.length < t.length) (hne : s₁ ≠ f a) :
    ¬ Alone (Cat G H) a (s₁ ++ s₂) := by
  intro halone
  obtain ⟨t₂, ht₂, hlen₂⟩ := hH.exists_length ht (n := s₂.length + 1)
    (Nat.le_succ_of_le (hH.length_le h₂)) hlt
  obtain ⟨t₁, ht₁, hlen₁⟩ := (hG s₁ a h₁).resolve_left hne
  have hsame := halone (t₁ ++ t₂) ⟨t₁, t₂, rfl, ht₁, ht₂⟩
    (by rw [List.length_append, List.length_append]; omega)
  have heq := hfree a t₁ s₁ t₂ s₂ ht₁ h₁ hsame
  rw [heq] at hlen₁
  omega

/-- Only the shortest string and the longest one are alone, where both parts can be stretched.
A string in between has a symbol that one part can give to the other. -/
theorem alone_cat_iff (hfree : PrefixFree G) (hG : Shrinks G f) (hH : Shrinks H g)
    (hGs : Stretches G f) (hHs : Stretches H g) (hs : Cat G H s a) :
    Alone (Cat G H) a s ↔ s = f a ++ g a ∨ Longest (Cat G H) a s := by
  constructor
  · intro halone
    obtain ⟨s₁, s₂, rfl, h₁, h₂⟩ := hs
    have hleft : ∀ t, G t a → s₁.length < t.length → s₂ = g a := fun t ht hlt =>
      not_not.mp fun hne => not_alone_of_longer_left hfree hG hH h₁ h₂ ht hlt hne halone
    have hright : ∀ t, H t a → s₂.length < t.length → s₁ = f a := fun t ht hlt =>
      not_not.mp fun hne => not_alone_of_longer_right hfree hG hH h₁ h₂ ht hlt hne halone
    by_cases hshort : s₁ = f a
    · obtain ⟨t, ht, hlt⟩ := hGs a (hG.mem h₁)
      rw [hshort, hleft t ht (by rwa [hshort])]
      exact .inl rfl
    · by_cases hshort₂ : s₂ = g a
      · obtain ⟨t, ht, hlt⟩ := hHs a (hH.mem h₂)
        exact absurd (hright t ht (by rwa [hshort₂])) hshort
      · -- Neither part can be stretched, so no string is longer, and one of the same length
        -- is the string itself.
        refine .inr ?_
        rintro _ ⟨t₁, t₂, rfl, ht₁, ht₂⟩
        have hle₁ : t₁.length ≤ s₁.length := Nat.not_lt.mp fun hlt => hshort₂ (hleft t₁ ht₁ hlt)
        have hle₂ : t₂.length ≤ s₂.length := Nat.not_lt.mp fun hlt => hshort (hright t₂ ht₂ hlt)
        rcases Nat.lt_or_ge (t₁ ++ t₂).length (s₁ ++ s₂).length with hlt | hge
        · exact .inr hlt
        · refine .inl (halone _ ⟨t₁, t₂, rfl, ht₁, ht₂⟩ (Nat.le_antisymm ?_ hge))
          rw [List.length_append, List.length_append]
          exact Nat.add_le_add hle₁ hle₂
  · rintro (rfl | hlongest)
    · exact (hG.cat hH).alone a
    · exact hlongest.alone

end BtmStats.Lib
