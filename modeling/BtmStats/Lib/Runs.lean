import Mathlib.Data.List.Basic

/-!
# `BtmStats.Lib.Runs`: runs of a machine that can fail

The step of a machine takes a state and an input to a state or an error. A run is the
fold of the steps, which ends at the first error.

What each step keeps is kept by a run that succeeds (`foldlM_preserves`). Where each step
from a good state succeeds and gives a good state, a run does too (`foldlM_succeeds`).

`Always` is a property of every state of a run, `Along` a condition on every step of it,
in the state before the step. Where the condition is what a step needs to keep the
property, the two are the same (`always_iff_along`).
-/

set_option autoImplicit false

namespace BtmStats.Lib

variable {ε σ ι α β : Type}

/-- A bind succeeds when both parts do. -/
theorem bind_eq_ok_iff {x : Except ε α} {f : α → Except ε β} {b : β} :
    (x >>= f) = .ok b ↔ ∃ a, x = .ok a ∧ f a = .ok b := by
  cases x with
  | error e =>
    constructor
    · intro h
      cases h
    · rintro ⟨_, h, _⟩
      cases h
  | ok a =>
    constructor
    · intro h
      exact ⟨a, rfl, h⟩
    · rintro ⟨_, ha, h⟩
      cases ha
      exact h

variable {step : σ → ι → Except ε σ} {P : σ → Prop} {inputs : List ι} {s s' : σ}

/-- What every step preserves holds after a run. -/
theorem foldlM_preserves (hstep : ∀ s s', ∀ i ∈ inputs, P s → step s i = .ok s' → P s') (hs : P s)
    (hrun : inputs.foldlM step s = .ok s') : P s' := by
  induction inputs generalizing s with
  | nil =>
    cases hrun
    exact hs
  | cons i inputs ih =>
    rw [List.foldlM_cons, bind_eq_ok_iff] at hrun
    obtain ⟨s₁, hfirst, hrest⟩ := hrun
    have hs₁ : P s₁ := hstep s s₁ i List.mem_cons_self hs hfirst
    exact ih (fun s s' j hj => hstep s s' j (List.mem_cons_of_mem i hj)) hs₁ hrest

/-- If every step succeeds from the invariant, a run does. -/
theorem foldlM_succeeds (hstep : ∀ s, ∀ i ∈ inputs, P s → ∃ s', step s i = .ok s' ∧ P s') (hs : P s)
    : ∃ s', inputs.foldlM step s = .ok s' ∧ P s' := by
  induction inputs generalizing s with
  | nil => exact ⟨s, rfl, hs⟩
  | cons i inputs ih =>
    obtain ⟨s₁, hfirst, hs₁⟩ := hstep s i List.mem_cons_self hs
    obtain ⟨s', hrest, hs'⟩ := ih (fun s j hj => hstep s j (List.mem_cons_of_mem i hj)) hs₁
    refine ⟨s', ?_, hs'⟩
    rw [List.foldlM_cons, hfirst]
    exact hrest

/-! ### Every state and every step of a run -/

section
variable (step)

/-- The property holds in every state of the run, the first one included. -/
def Always (P : σ → Prop) : σ → List ι → Prop
  | s, [] => P s
  | s, i :: inputs => P s ∧ ∀ s', step s i = .ok s' → Always P s' inputs

/-- Every step that the run takes meets the condition, in the state before it. -/
def Along (C : σ → ι → Prop) : σ → List ι → Prop
  | _, [] => True
  | s, i :: inputs => ∀ s', step s i = .ok s' → C s i ∧ Along C s' inputs

instance Always.decidable (P : σ → Prop) [DecidablePred P] :
    ∀ (s : σ) (inputs : List ι), Decidable (Always step P s inputs)
  | s, [] => inferInstanceAs (Decidable (P s))
  | s, i :: inputs =>
    match h : step s i with
    | .error _ => decidable_of_iff (P s) ⟨fun hs => ⟨hs, fun _ h' => by simp [h] at h'⟩, And.left⟩
    | .ok s' =>
      have := Always.decidable P s' inputs
      decidable_of_iff (P s ∧ Always step P s' inputs) (and_congr_right fun _ =>
        ⟨fun hs _ h' => Except.ok.inj (h.symm.trans h') ▸ hs, fun hs => hs s' h⟩)

instance Along.decidable (C : σ → ι → Prop) [∀ s i, Decidable (C s i)] :
    ∀ (s : σ) (inputs : List ι), Decidable (Along step C s inputs)
  | _, [] => .isTrue trivial
  | s, i :: inputs =>
    match h : step s i with
    | .error _ => .isTrue fun _ h' => by simp [h] at h'
    | .ok s' =>
      have := Along.decidable C s' inputs
      decidable_of_iff (C s i ∧ Along step C s' inputs)
        ⟨fun hs _ h' => Except.ok.inj (h.symm.trans h') ▸ hs, fun hs => hs s' h⟩

end

variable {C : σ → ι → Prop} {Q : σ → Prop}

theorem along_cons_iff {i : ι} (hstep : step s i = .ok s') :
    Along step C s (i :: inputs) ↔ C s i ∧ Along step C s' inputs :=
  ⟨fun h => h s' hstep, fun h _ hs => Except.ok.inj (hstep.symm.trans hs) ▸ h⟩

theorem Always.head (h : Always step P s inputs) : P s := by
  cases inputs with
  | nil => exact h
  | cons i inputs => exact h.1

/-- The last state of a run is one of its states. -/
theorem Always.last (h : Always step P s inputs) (hrun : inputs.foldlM step s = .ok s') : P s' := by
  induction inputs generalizing s with
  | nil =>
    cases hrun
    exact h
  | cons i inputs ih =>
    rw [List.foldlM_cons, bind_eq_ok_iff] at hrun
    obtain ⟨s₁, hfirst, hrest⟩ := hrun
    exact ih (h.2 s₁ hfirst) hrest

/-- A weaker property holds along the same run. -/
theorem Always.mono (hPQ : ∀ s, P s → Q s) (h : Always step P s inputs) :
    Always step Q s inputs := by
  induction inputs generalizing s with
  | nil => exact hPQ s h
  | cons i inputs ih => exact ⟨hPQ s h.1, fun s' hs' => ih (h.2 s' hs')⟩

/-- A property that every step keeps holds in every state. -/
theorem always_of_step (hstep : ∀ s s', ∀ i ∈ inputs, P s → step s i = .ok s' → P s') (hs : P s) :
    Always step P s inputs := by
  induction inputs generalizing s with
  | nil => exact hs
  | cons i inputs ih =>
    refine ⟨hs, fun s' hs' => ih (fun s s' j hj => hstep s s' j (List.mem_cons_of_mem i hj)) ?_⟩
    exact hstep s s' i List.mem_cons_self hs hs'

/-- Steps that meet the condition keep the property. -/
theorem always_of_along (hstep : ∀ s i s', P s → C s i → step s i = .ok s' → P s') (hs : P s)
    (h : Along step C s inputs) : Always step P s inputs := by
  induction inputs generalizing s with
  | nil => exact hs
  | cons i inputs ih =>
    refine ⟨hs, fun s' hs' => ?_⟩
    obtain ⟨hC, hrest⟩ := h s' hs'
    exact ih (hstep s i s' hs hC hs') hrest

/-- Where every step from a good state succeeds, and keeps it good under the condition, a run whose
steps all meet the condition succeeds. -/
theorem along_succeeds (hstep : ∀ s i, P s → ∃ s', step s i = .ok s' ∧ (C s i → P s')) (hs : P s)
    (h : Along step C s inputs) : ∃ s', inputs.foldlM step s = .ok s' ∧ P s' := by
  induction inputs generalizing s with
  | nil => exact ⟨s, rfl, hs⟩
  | cons i inputs ih =>
    obtain ⟨s₁, hfirst, hgood⟩ := hstep s i hs
    obtain ⟨hC, hrest⟩ := h s₁ hfirst
    obtain ⟨s', hrun, hs'⟩ := ih (hgood hC) hrest
    refine ⟨s', ?_, hs'⟩
    rw [List.foldlM_cons, hfirst]
    exact hrun

/-- Under an invariant, the condition on a step is exactly what keeps the property. -/
theorem always_iff_along (hinv : ∀ s s', ∀ i ∈ inputs, Q s → step s i = .ok s' → Q s')
    (hstep : ∀ s s', ∀ i ∈ inputs, Q s → P s → step s i = .ok s' → (P s' ↔ C s i)) (hQ : Q s)
    (hP : P s) : Always step P s inputs ↔ Along step C s inputs := by
  induction inputs generalizing s with
  | nil => exact ⟨fun _ => trivial, fun _ => hP⟩
  | cons i inputs ih =>
    have hi : i ∈ i :: inputs := List.mem_cons_self
    have ih' : ∀ {s'}, Q s' → P s' →
        (Always step P s' inputs ↔ Along step C s' inputs) :=
      ih (fun s s' j hj => hinv s s' j (List.mem_cons_of_mem i hj))
        (fun s s' j hj => hstep s s' j (List.mem_cons_of_mem i hj))
    constructor
    · rintro ⟨-, hrest⟩ s' hs'
      have hP' := (hrest s' hs').head
      exact ⟨(hstep s s' i hi hQ hP hs').mp hP',
        (ih' (hinv s s' i hi hQ hs') hP').mp (hrest s' hs')⟩
    · intro halong
      refine ⟨hP, fun s' hs' => ?_⟩
      obtain ⟨hC, hrest⟩ := halong s' hs'
      exact (ih' (hinv s s' i hi hQ hs') ((hstep s s' i hi hQ hP hs').mpr hC)).mpr hrest

/-- Where a step that does not meet the condition leads to states that stay bad, the last
state of a run shows whether all its steps have met it. -/
theorem last_iff_along {B : σ → Prop} (hinv : ∀ s s' i, Q s → step s i = .ok s' → Q s')
    (hgood : ∀ s s' i, Q s → P s → step s i = .ok s' → C s i → P s')
    (hbad : ∀ s s' i, Q s → P s → step s i = .ok s' → ¬ C s i → B s')
    (hstays : ∀ s s' i, Q s → B s → step s i = .ok s' → B s') (hnot : ∀ s, B s → ¬ P s) (hQ : Q s)
    (hP : P s) (hrun : inputs.foldlM step s = .ok s') : P s' ↔ Along step C s inputs := by
  induction inputs generalizing s with
  | nil =>
    cases hrun
    exact ⟨fun _ => trivial, fun _ => hP⟩
  | cons i inputs ih =>
    rw [List.foldlM_cons, bind_eq_ok_iff] at hrun
    obtain ⟨s₁, hfirst, hrest⟩ := hrun
    have hQ₁ := hinv s s₁ i hQ hfirst
    rw [along_cons_iff hfirst]
    by_cases hC : C s i
    · rw [ih hQ₁ (hgood s s₁ i hQ hP hfirst hC) hrest, and_iff_right hC]
    · -- The run goes on through bad states.
      have hlast : Q s' ∧ B s' := foldlM_preserves (P := fun s => Q s ∧ B s)
        (fun t t' j _ ht hstep => ⟨hinv t t' j ht.1 hstep, hstays t t' j ht.1 ht.2 hstep⟩)
        ⟨hQ₁, hbad s s₁ i hQ hP hfirst hC⟩ hrest
      exact iff_of_false (hnot s' hlast.2) fun h => hC h.1

end BtmStats.Lib
