import Mathlib.Data.List.Basic

/-!
# `BtmStats.Lib.CountedWriter`: writers that count what they took

A writer is a function on its state. It is given tokens and returns its state, the number
of tokens that it took and an error. A lawful writer takes a prefix, counts it, and takes
everything if it reports no error (`CountedWriter.Lawful`).

A procedure that writes in several calls adds up their counts and stops at the first error
(`WriteProc.andThen`). `Emits under taken proc out` says that such a procedure behaves like
a single call with the tokens `out`: whatever the error, its count is the number of tokens
that the writer took, and these are the front of `out`. The rules follow the shape of the
procedures: one call (`emits_write`), nothing (`emits_done`), one procedure after the other
(`Emits.andThen`), one for each element of a list (`emits_each`).
-/

set_option autoImplicit false

namespace BtmStats.Lib

/-- A writer: its state after the call, the number of tokens taken and the error. -/
abbrev CountedWriter (τ ε σ : Type) := σ → List τ → σ × Nat × Option ε

/-- A procedure that writes. It may panic. -/
abbrev WriteProc (π ε σ : Type) := σ → Except π (σ × Nat × Option ε)

namespace WriteProc
variable {π ε σ α : Type}

/-- Write nothing. -/
def done : WriteProc π ε σ := fun w => .ok (w, 0, none)

/-- The second procedure runs if the first reports no error. The counts are added. -/
def andThen (first second : WriteProc π ε σ) : WriteProc π ε σ := fun w => do
  let (w, n, err) ← first w
  match err with
  | some err => .ok (w, n, some err)
  | none =>
    let (w, n2, err) ← second w
    .ok (w, n + n2, err)

/-- One procedure for each element. It is also given the number of elements that follow. -/
def each (proc : Nat → α → WriteProc π ε σ) : List α → WriteProc π ε σ
  | [] => done
  | a :: as => (proc as.length a).andThen (each proc as)

end WriteProc

section
variable {τ π ε σ α : Type}

/-- The contract of a writer. `taken` are the tokens that it has taken so far. -/
structure CountedWriter.Lawful (under : CountedWriter τ ε σ) (taken : σ → List τ) : Prop where
  count_le : ∀ w p, (under w p).2.1 ≤ p.length
  taken_eq : ∀ w p, taken (under w p).1 = taken w ++ p.take (under w p).2.1
  count_of_ok : ∀ w p, (under w p).2.2 = none → (under w p).2.1 = p.length

/-- The writer never reports an error. -/
def CountedWriter.Faultless (under : CountedWriter τ ε σ) : Prop :=
  ∀ w p, (under w p).2.2 = none

/-- The procedure does to the writer what a call with `out` does to a lawful writer. -/
def Emits (under : CountedWriter τ ε σ) (taken : σ → List τ) (proc : WriteProc π ε σ)
    (out : List τ) : Prop :=
  ∀ w, ∃ w' n err, proc w = .ok (w', n, err) ∧ n ≤ out.length ∧
    taken w' = taken w ++ out.take n ∧ (err = none → n = out.length) ∧
    (under.Faultless → err = none)

variable {under : CountedWriter τ ε σ} {taken : σ → List τ}

theorem emits_write (law : under.Lawful taken) (out : List τ) :
    Emits under taken (fun w => (.ok (under w out) : Except π _)) out := by
  intro w
  exact ⟨_, _, _, rfl, law.count_le w out, law.taken_eq w out, law.count_of_ok w out,
    fun hfault => hfault w out⟩

theorem emits_done : Emits under taken (WriteProc.done : WriteProc π ε σ) [] := by
  intro w
  exact ⟨w, 0, none, rfl, Nat.le_refl 0, (List.append_nil _).symm, fun _ => rfl, fun _ => rfl⟩

/-- What two procedures emit one after the other. -/
theorem Emits.andThen {first second : WriteProc π ε σ} {a b : List τ}
    (hfirst : Emits under taken first a) (hsecond : Emits under taken second b) :
    Emits under taken (first.andThen second) (a ++ b) := by
  intro w
  obtain ⟨w₁, n, err, hrun, hle, htaken, hcount, hfault⟩ := hfirst w
  cases err with
  | some err =>
    -- The count stops inside the first part.
    refine ⟨w₁, n, some err, by simp [WriteProc.andThen, hrun, bind, Except.bind], ?_, ?_, ?_, ?_⟩
    · rw [List.length_append]
      omega
    · rw [htaken, List.take_append_of_le_length hle]
    · intro h
      cases h
    · intro h
      cases hfault h
  | none =>
    obtain ⟨w₂, n2, err, hrun₂, hle₂, htaken₂, hcount₂, hfault₂⟩ := hsecond w₁
    have hn : n = a.length := hcount rfl
    refine ⟨w₂, n + n2, err, by simp [WriteProc.andThen, hrun, hrun₂, bind, Except.bind],
      ?_, ?_, ?_, hfault₂⟩
    · rw [List.length_append]
      omega
    · rw [htaken₂, htaken, hn, List.take_length, List.take_length_add_append,
        List.append_assoc]
    · intro h
      rw [List.length_append, hcount₂ h, hn]

/-- Induction on the list. -/
theorem emits_each {proc : Nat → α → WriteProc π ε σ} {enc : α → List τ} {as : List α}
    (h : ∀ a ∈ as, ∀ k, Emits under taken (proc k a) (enc a)) :
    Emits under taken (WriteProc.each proc as) (as.flatMap enc) := by
  induction as with
  | nil => exact emits_done
  | cons a as ih =>
    obtain ⟨ha, has⟩ := List.forall_mem_cons.mp h
    rw [List.flatMap_cons]
    exact (ha as.length).andThen (ih has)

end

end BtmStats.Lib
