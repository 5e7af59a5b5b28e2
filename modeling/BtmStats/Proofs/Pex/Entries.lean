import BtmStats.Proofs.Pex.Methods

/-!
# `BtmStats.Proofs.Pex.Entries`: which strings enter the book

A call on the address book brings in one string at most, the one of the address that it is
given. A string that the book does not have comes in with an `AddAddress` that takes it, and
with no other call (`step_entries`). It is what the calls do to `Contents`.
-/

set_option autoImplicit false

namespace BtmStats.Proofs.Pex

open Spec Spec.Pex

/-- `addAddress` takes an address in: it is none of this node, and routable if the book
is strict. -/
def Accepts (env : Env) (a : AddrBook) (addr : NetAddress) : Prop :=
  env.str addr ∉ a.ourAddrs ∧ ¬ (a.routabilityStrict = true ∧ env.routable addr = false)

instance (env : Env) (a : AddrBook) (addr : NetAddress) : Decidable (Accepts env a addr) :=
  inferInstanceAs (Decidable (_ ∧ _))

/-- The call is an `AddAddress` that takes in an address of string `s`. -/
def TakesIn (env : Env) (a : AddrBook) (s : Str) : AddrBook.Op → Prop
  | .addAddress _ (some addr) (some _) => env.str addr = s ∧ Accepts env a addr
  | _ => False

instance (env : Env) (a : AddrBook) (s : Str) (op : AddrBook.Op) :
    Decidable (TakesIn env a s op) := by
  unfold TakesIn
  split <;> infer_instance

section
variable {env : Env} {a a' : AddrBook}

theorem RepInv.lookup_eq_none_iff (h : RepInv env a) (s : Str) :
    a.addrLookup.lookup s = none ↔ (contents a).known s = none := by
  rw [AList.lookup_eq_none, ← h.known_isSome_iff, Bool.not_eq_true, Option.isSome_eq_false_iff,
    Option.isNone_iff_eq_none]
  rfl

/-- After `RemoveAddress` the book does not have the string. -/
theorem removeAddress_removes {addr : NetAddress} (hinv : RepInv env a)
    (h : a.removeAddress env addr = .ok a') : a'.addrLookup.lookup (env.str addr) = none := by
  have hstep : a.step env (.removeAddress addr) = .ok a' := h
  obtain ⟨hinv', hcont⟩ := contents_of_step hinv hstep
  rw [hinv'.lookup_eq_none_iff, hcont]
  exact Contents.known_set_self ..

/-- The addresses of this node stay. A string that the book does not have stays out, unless
`AddAddress` takes it in. -/
theorem step_entries (hinv : RepInv env a) {op : AddrBook.Op} (h : a.step env op = .ok a')
    (s : Str) : (s ∈ a.ourAddrs → s ∈ a'.ourAddrs) ∧ (a.addrLookup.lookup s = none →
      (a'.addrLookup.lookup s = none ↔ ¬ TakesIn env a s op)) := by
  obtain ⟨hinv', hcont⟩ := contents_of_step hinv h
  have hours : a'.ourAddrs = (contentsAfter env a op).ourAddrs := congrArg Contents.ourAddrs hcont
  rw [hours, hinv.lookup_eq_none_iff, hinv'.lookup_eq_none_iff, hcont]
  cases op with
  | addAddress chance addr src =>
    refine ⟨fun hour => ?_, fun hs => ?_⟩
    · rw [contentsAfter, (Contents.addAddress_header ..).2]
      exact hour
    · cases addr with
      | none => exact iff_of_true hs not_false
      | some addr =>
        cases src with
        | none => exact iff_of_true hs not_false
        | some src =>
          refine Contents.addAddress_known_none_iff env _ hs (fun ka hka => ?_) src
          obtain ⟨p, -, hrow⟩ := hinv.row_of_known hka
          exact hrow.str
  | markGood now addr =>
    refine ⟨id, fun hs => iff_of_true (Contents.known_set_none hs fun hnone => ?_) not_false⟩
    rw [hnone, Option.bind_none]
  | markAttempt now addr =>
    refine ⟨id, fun hs => iff_of_true (Contents.known_set_none hs fun hnone => ?_) not_false⟩
    rw [hnone, Option.map_none]
  | removeAddress addr =>
    exact ⟨id, fun hs => iff_of_true (Contents.known_set_none hs fun _ => rfl) not_false⟩
  | addOurAddress addr =>
    exact ⟨fun hour => (AList.mem_insert _).mpr (.inr hour), fun hs => iff_of_true hs not_false⟩

end

end BtmStats.Proofs.Pex
