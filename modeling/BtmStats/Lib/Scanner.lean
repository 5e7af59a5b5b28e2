import Mathlib.Data.List.Basic

/-!
# `BtmStats.Lib.Scanner`: readers with a sticky error

A scanner moves a cursor over its input: the tokens that are left, the number of tokens taken,
and the first error. It never stops. After an error it goes on and returns some value, and the
error stays, so a caller looks at it once at the end.

`Scans p G` says which inputs leave no error: from a cursor without an error the scanner ends
without one if and only if it has taken a string of the grammar `G`. The grammar may depend on the
number of tokens taken before, because a scanner may have a limit on it.

The rules below follow the scanners' own structure: `scans_pure`, `scans_bind`, `scans_map`,
`scans_fail`, `scans_failFirst`, `scans_ite`, `scans_unlessErr` for a scanner that looks at the
error in between, and `scans_limited` for a limit on the tokens taken. What a scanner takes is
determined by its input (`Scans.unique`).
-/

set_option autoImplicit false

namespace BtmStats.Lib

/-- A position in an input: what is left, the number of tokens taken, and the first error. -/
structure Cursor (τ ε : Type) where
  input : List τ
  n : Nat
  err : Option ε

abbrev Scanner (τ ε α : Type) := StateM (Cursor τ ε) α

section
variable {τ ε α β : Type}

namespace Scanner

/-- Set the error, also over an earlier one. -/
def fail (e : ε) (a : α) : Scanner τ ε α := fun c => (a, { c with err := some e })

/-- Set the error if there is none. -/
def failFirst (e : ε) (a : α) : Scanner τ ε α := fun c => (a, { c with err := some (c.err.getD e) })

/-- Return early after an error. Otherwise go on with the number of tokens taken. -/
def unlessErr (a : α) (q : Nat → Scanner τ ε α) : Scanner τ ε α := fun c =>
  match c.err with
  | some _ => (a, c)
  | none => (q c.n).run c

/-- Set the error if there is none and more than `lmt` tokens were taken. A limit of 0 is none. -/
def limited (lmt : Nat) (e : ε) (p : Scanner τ ε α) : Scanner τ ε α := fun c =>
  let (a, c) := p.run c
  (a, if lmt ≠ 0 ∧ lmt < c.n ∧ c.err.isNone then { c with err := some e } else c)

end Scanner

open Scanner

/-- `p` leaves no error exactly on the strings of the grammar `G`, and an earlier error stays. -/
structure Scans (p : Scanner τ ε α) (G : Nat → List τ → α → Prop) : Prop where
  sticky : ∀ c, (p.run c).2.err = none → c.err = none
  reads : ∀ b n a r m, p.run ⟨b, n, none⟩ = (a, ⟨r, m, none⟩) ↔
    ∃ s, b = s ++ r ∧ m = n + s.length ∧ G n s a

variable {p : Scanner τ ε α} {G H : Nat → List τ → α → Prop}

theorem Scans.congr (h : Scans p G) (hGH : ∀ n s a, G n s a ↔ H n s a) : Scans p H := by
  refine ⟨h.sticky, fun b n a r m => ?_⟩
  rw [h.reads]
  exact exists_congr fun s => and_congr_right fun _ => and_congr_right fun _ => hGH n s a

/-- A string of the grammar is taken whatever follows it. -/
theorem Scans.append (h : Scans p G) {n : Nat} {s : List τ} {a : α} (hs : G n s a) (r : List τ) :
    p.run ⟨s ++ r, n, none⟩ = (a, ⟨r, n + s.length, none⟩) :=
  (h.reads _ _ _ _ _).mpr ⟨s, rfl, rfl, hs⟩

/-- The end without an error, for any cursor at the start. -/
theorem Scans.ends_iff (h : Scans p G) (b : List τ) (n : Nat) :
    (p.run ⟨b, n, none⟩).2.err = none ↔ ∃ s r a, b = s ++ r ∧ G n s a := by
  constructor
  · intro herr
    obtain ⟨⟨a, r, m, err⟩, hrun⟩ : ∃ x : α × Cursor τ ε, p.run ⟨b, n, none⟩ = x := ⟨_, rfl⟩
    rw [hrun] at herr
    obtain rfl : err = none := herr
    obtain ⟨s, hb, -, hG⟩ := (h.reads b n a r m).mp hrun
    exact ⟨s, r, a, hb, hG⟩
  · rintro ⟨s, r, a, rfl, hG⟩
    rw [h.append hG r]

/-- The input determines what is taken of it, and the value. -/
theorem Scans.unique (h : Scans p G) {n : Nat} {s s' r r' : List τ} {a a' : α} (hs : G n s a)
    (hs' : G n s' a') (heq : s ++ r = s' ++ r') : s = s' ∧ r = r' ∧ a = a' := by
  have hrun := h.append hs r
  rw [heq, h.append hs' r'] at hrun
  obtain ⟨rfl, hcursor⟩ := Prod.mk.inj hrun
  obtain ⟨rfl, -, -⟩ := Cursor.mk.inj hcursor
  exact ⟨List.append_cancel_right heq, rfl, rfl⟩

theorem scans_pure (a : α) :
    Scans (pure a : Scanner τ ε α) (fun _ s x => s = [] ∧ x = a) := by
  refine ⟨fun c h => h, fun b n x r m => ?_⟩
  show (a, (⟨b, n, none⟩ : Cursor τ ε)) = (x, ⟨r, m, none⟩) ↔ _
  simp only [Prod.mk.injEq, Cursor.mk.injEq, and_true]
  constructor
  · rintro ⟨rfl, rfl, rfl⟩
    exact ⟨[], rfl, rfl, rfl, rfl⟩
  · rintro ⟨_, rfl, rfl, rfl, rfl⟩
    exact ⟨rfl, rfl, rfl⟩

/-- One scanner after the other. The first need not stop on an error: the error stays. -/
theorem scans_bind {q : α → Scanner τ ε β} {K : α → Nat → List τ → β → Prop} (hp : Scans p G)
    (hq : ∀ a, Scans (q a) (K a)) :
    Scans (p >>= q) (fun n s x =>
      ∃ s₁ s₂ a, s = s₁ ++ s₂ ∧ G n s₁ a ∧ K a (n + s₁.length) s₂ x) := by
  have hrun : ∀ c, (p >>= q).run c = (q (p.run c).1).run (p.run c).2 := fun _ => rfl
  refine ⟨fun c h => hp.sticky c ((hq _).sticky _ h), fun b n x r m => ?_⟩
  rw [hrun]
  constructor
  · intro h
    have herr : (p.run ⟨b, n, none⟩).2.err = none := (hq _).sticky _ (by rw [h])
    obtain ⟨s₁, t, a, rfl, hG⟩ := (hp.ends_iff b n).mp herr
    rw [hp.append hG t] at h
    obtain ⟨s₂, rfl, rfl, hK⟩ := ((hq a).reads _ _ _ _ _).mp h
    refine ⟨s₁ ++ s₂, (List.append_assoc ..).symm, ?_, s₁, s₂, a, rfl, hG, hK⟩
    rw [List.length_append, Nat.add_assoc]
  · rintro ⟨_, rfl, rfl, s₁, s₂, a, rfl, hG, hK⟩
    rw [List.append_assoc, hp.append hG, (hq a).append hK, List.length_append, Nat.add_assoc]

/-- A scanner that returns a function of what another one has read. -/
theorem scans_map (hp : Scans p G) (f : α → β) :
    Scans (p >>= fun a => pure (f a)) (fun n s x => ∃ a, G n s a ∧ x = f a) := by
  refine (scans_bind hp fun a => scans_pure (f a)).congr fun n s x => ?_
  constructor
  · rintro ⟨s₁, s₂, a, rfl, hG, rfl, rfl⟩
    rw [List.append_nil]
    exact ⟨a, hG, rfl⟩
  · rintro ⟨a, hG, rfl⟩
    exact ⟨s, [], a, (List.append_nil s).symm, hG, rfl, rfl⟩

/-- A scanner that always ends with an error. -/
theorem scans_of_fails (h : ∀ c, (p.run c).2.err ≠ none) : Scans p (fun _ _ _ => False) := by
  refine ⟨fun c hc => absurd hc (h c), fun b n a r m => ?_⟩
  constructor
  · intro hrun
    refine absurd ?_ (h ⟨b, n, none⟩)
    rw [hrun]
  · rintro ⟨_, -, -, hfalse⟩
    exact hfalse.elim

theorem scans_fail (e : ε) (a : α) :
    Scans (fail e a : Scanner τ ε α) (fun _ _ _ => False) :=
  scans_of_fails fun _ => Option.some_ne_none e

theorem scans_failFirst (e : ε) (a : α) :
    Scans (failFirst e a : Scanner τ ε α) (fun _ _ _ => False) :=
  scans_of_fails fun _ => Option.some_ne_none _

/-- A scan that a test decides. -/
theorem scans_ite {c : Prop} [Decidable c] {q : Scanner τ ε α} (hp : Scans p G)
    (hq : Scans q H) :
    Scans (if c then p else q) (fun n s a => (c ∧ G n s a) ∨ (¬ c ∧ H n s a)) := by
  by_cases hc : c
  · rw [if_pos hc]
    exact hp.congr fun n s a => by simp [hc]
  · rw [if_neg hc]
    exact hq.congr fun n s a => by simp [hc]

/-- A scanner that returns early after an error keeps the error, whatever it does otherwise. -/
theorem err_of_unlessErr {a : α} {q : Nat → Scanner τ ε α} (c : Cursor τ ε)
    (h : ((unlessErr a q).run c).2.err = none) : c.err = none := by
  obtain ⟨input, n, err⟩ := c
  cases err with
  | none => rfl
  | some e => exact absurd h (Option.some_ne_none e)

theorem scans_unlessErr (a : α) {q : Nat → Scanner τ ε α} {K : Nat → Nat → List τ → α → Prop}
    (hq : ∀ n, Scans (q n) (K n)) : Scans (unlessErr a q) (fun n => K n n) :=
  ⟨err_of_unlessErr, fun b n x r m => (hq n).reads b n x r m⟩

/-- A limit on the tokens taken, from a cursor that has taken none. -/
theorem scans_limited (hp : Scans p G) {lmt : Nat} (hlmt : lmt ≠ 0) (e : ε) :
    Scans (limited lmt e p) (fun n s a => G n s a ∧ n + s.length ≤ lmt) := by
  have hrun : ∀ c, (limited lmt e p).run c = ((p.run c).1,
      if lmt ≠ 0 ∧ lmt < (p.run c).2.n ∧ (p.run c).2.err.isNone then
        { (p.run c).2 with err := some e } else (p.run c).2) := fun _ => rfl
  refine ⟨fun c h => hp.sticky c ?_, fun b n a r m => ?_⟩
  · rw [hrun] at h
    dsimp only at h
    split at h
    · cases h
    · exact h
  · rw [hrun]
    constructor
    · intro h
      split at h
      · cases h
      · next hnot =>
        obtain ⟨s, rfl, rfl, hG⟩ := (hp.reads b n a r m).mp h
        refine ⟨s, rfl, rfl, hG, Nat.le_of_not_lt fun hlt => hnot ?_⟩
        rw [hp.append hG r]
        exact ⟨hlmt, hlt, rfl⟩
    · rintro ⟨s, rfl, rfl, hG, hle⟩
      rw [hp.append hG r]
      exact congrArg _ (if_neg fun h => Nat.not_lt.mpr hle h.2.1)

end

end BtmStats.Lib
