import BtmStats.Proofs.P2p.Switch
import BtmStats.Proofs.Pex.Entries

/-!
# `BtmStats.Proofs.P2p.DelSelf`: the address of this node stays out of the book

`addrBookDelSelf` removes the address of this node from the book, and then adds it to the
addresses that `AddAddress` refuses. An `AddAddress` of that address between the two is not
refused, and the address stays in the book (`readded_own_address`). Without such a call the
address is out of the book when `addrBookDelSelf` has returned, and stays out
(`own_address_stays_out`).
-/

set_option autoImplicit false

namespace BtmStats.Proofs.P2p

open Lib Spec Spec.P2p
open Spec.Pex (AddrBook NetAddress)
open Proofs.Pex (RepInv TakesIn Accepts)

variable {env : SwitchEnv} {st st' : DelSelf.State}

/-- Without other calls the two steps are the call. -/
theorem addrBookDelSelf_eq (sw : Switch) :
    sw.addrBookDelSelf env =
      (DelSelf.State.run env ⟨sw, .called⟩ [.next, .next]).map DelSelf.State.sw := by
  rw [Switch.addrBookDelSelf, DelSelf.State.run, List.foldlM_cons, DelSelf.State.step,
    DelSelf.State.next]
  cases env.newNetAddress sw.nodeInfo.listenAddr with
  | none => rfl
  | some own =>
    dsimp only
    cases sw.addrBook.removeAddress env.book own with
    | error e => rfl
    | ok book => rfl

/-! ### A string that the book does not have -/

/-- The string is neither in `addrLookup` nor in a bucket. -/
def NotInBook (book : AddrBook) (s : Str) : Prop :=
  s ∉ book.addrLookup ∧ ∀ t, ∀ bucket ∈ book.buckets t, s ∉ bucket

theorem notInBook_iff {book : AddrBook} (h : RepInv env.book book) (s : Str) :
    NotInBook book s ↔ book.addrLookup.lookup s = none := by
  rw [AList.lookup_eq_none]
  refine ⟨And.left, fun hs => ⟨hs, fun t bucket hb => ?_⟩⟩
  obtain ⟨i, hi⟩ := List.getElem?_of_mem hb
  have hget := (h.rows s).of_none (AList.lookup_eq_none.mpr hs) t i
  rw [Pex.bucketGet, hi] at hget
  exact AList.lookup_eq_none.mp hget

/-! ### Runs -/

/-- Once the call has returned, the address is one of this node, and not in the book. -/
def OwnAddressOut (env : SwitchEnv) (st : DelSelf.State) : Prop :=
  ∀ own, st.phase = .returned own →
    env.book.str own ∈ st.sw.addrBook.ourAddrs ∧ NotInBook st.sw.addrBook (env.book.str own)

/-- The address is also out of the book from its removal on. -/
def OutFromRemoval (env : SwitchEnv) (st : DelSelf.State) : Prop :=
  OwnAddressOut env st ∧
    ∀ own, st.phase = .removed own → NotInBook st.sw.addrBook (env.book.str own)

/-- Between the two parts of the call, no `AddAddress` takes in the address of this node. -/
def NotReadded (env : SwitchEnv) (st : DelSelf.State) (e : DelSelf.Event) : Prop :=
  match st.phase, e with
  | .removed own, .book op => ¬ TakesIn env.book st.sw.addrBook (env.book.str own) op
  | _, _ => True

instance (env : SwitchEnv) (st : DelSelf.State) (e : DelSelf.Event) :
    Decidable (NotReadded env st e) := by
  unfold NotReadded
  split <;> infer_instance

/-- No step panics, and the book stays in order. -/
theorem delSelf_step_ok (h : RepInv env.book st.sw.addrBook) (e : DelSelf.Event) :
    ∃ st', st.step env e = .ok st' ∧ RepInv env.book st'.sw.addrBook := by
  cases e with
  | next =>
    show ∃ st', st.next env = _ ∧ _
    unfold DelSelf.State.next
    cases st.phase with
    | called =>
      cases env.newNetAddress st.sw.nodeInfo.listenAddr with
      | none => exact ⟨_, rfl, h⟩
      | some own =>
        obtain ⟨book, hrun, hbook, -⟩ := Pex.step_spec h (.removeAddress own)
        refine ⟨⟨{ st.sw with addrBook := book }, .removed own⟩, ?_, hbook⟩
        show (st.sw.addrBook.removeAddress env.book own >>= _) = _
        rw [show st.sw.addrBook.removeAddress env.book own = .ok book from hrun]
        rfl
    | removed own =>
      obtain ⟨book, hrun, hbook, -⟩ := Pex.step_spec h (.addOurAddress own)
      cases hrun
      exact ⟨_, rfl, hbook⟩
    | returned own => exact ⟨_, rfl, h⟩
    | failed => exact ⟨_, rfl, h⟩
  | book op =>
    obtain ⟨book, hrun, hbook, -⟩ := Pex.step_spec h op
    refine ⟨{ st with sw := { st.sw with addrBook := book } }, ?_, hbook⟩
    show (st.sw.addrBook.step env.book op >>= _) = _
    rw [hrun]
    rfl

theorem delSelf_step_inv {e : DelSelf.Event} (h : RepInv env.book st.sw.addrBook)
    (hstep : st.step env e = .ok st') : RepInv env.book st'.sw.addrBook := by
  obtain ⟨st₁, hrun, h'⟩ := delSelf_step_ok h e
  cases hrun.symm.trans hstep
  exact h'

/-- An address of this node is not taken in. -/
theorem not_takesIn_of_our {book : AddrBook} {s : Str} (hs : s ∈ book.ourAddrs)
    (op : AddrBook.Op) : ¬ TakesIn env.book book s op := by
  unfold TakesIn
  split
  · rintro ⟨rfl, haccept⟩
    exact haccept.1 hs
  · exact not_false

/-- The call's own steps keep the address out. -/
theorem outFromRemoval_next (h : RepInv env.book st.sw.addrBook)
    (h' : RepInv env.book st'.sw.addrBook) (hout : OutFromRemoval env st)
    (hstep : st.next env = .ok st') : OutFromRemoval env st' := by
  obtain ⟨sw, phase⟩ := st
  unfold DelSelf.State.next at hstep
  cases phase with
  | called =>
    dsimp only at hstep
    split at hstep
    · cases hstep
      exact ⟨nofun, nofun⟩
    · next own _ =>
      obtain ⟨book, hrun, hstep⟩ := bind_eq_ok_iff.mp hstep
      cases hstep
      refine ⟨nofun, fun own' hown => ?_⟩
      cases hown
      exact (notInBook_iff h' _).mpr (Pex.removeAddress_removes h hrun)
  | removed own =>
    cases hstep
    refine ⟨fun own' hown => ?_, nofun⟩
    cases hown
    exact ⟨(AList.mem_insert _).mpr (.inl rfl), hout.2 own rfl⟩
  | returned own =>
    cases hstep
    exact hout
  | failed =>
    cases hstep
    exact hout

/-- From the removal on, the address stays out in exactly the steps that do not add it
again. -/
theorem notReadded_exact {e : DelSelf.Event} (h : RepInv env.book st.sw.addrBook)
    (hout : OutFromRemoval env st) (hstep : st.step env e = .ok st') :
    OutFromRemoval env st' ↔ NotReadded env st e := by
  have h' := delSelf_step_inv h hstep
  obtain ⟨sw, phase⟩ := st
  cases e with
  | next =>
    have htrue : NotReadded env ⟨sw, phase⟩ .next := by cases phase <;> trivial
    exact iff_of_true (outFromRemoval_next h h' hout hstep) htrue
  | book op =>
    obtain ⟨book, hrun, hstep⟩ := bind_eq_ok_iff.mp hstep
    cases hstep
    have hentries := Pex.step_entries h hrun
    cases phase with
    | called => exact iff_of_true ⟨nofun, nofun⟩ trivial
    | failed => exact iff_of_true ⟨nofun, nofun⟩ trivial
    | removed own =>
      have hs := (notInBook_iff h _).mp (hout.2 own rfl)
      constructor
      · intro hout'
        exact ((hentries _).2 hs).mp ((notInBook_iff h' _).mp (hout'.2 own rfl))
      · intro hadd
        refine ⟨nofun, fun own' hown => ?_⟩
        cases hown
        exact (notInBook_iff h' _).mpr (((hentries _).2 hs).mpr hadd)
    | returned own =>
      obtain ⟨hour, hnot⟩ := hout.1 own rfl
      have hs := (notInBook_iff h _).mp hnot
      refine iff_of_true ⟨fun own' hown => ?_, nofun⟩ trivial
      cases hown
      exact ⟨(hentries _).1 hour, (notInBook_iff h' _).mpr
        (((hentries _).2 hs).mpr (not_takesIn_of_our hour op))⟩

/-- The address of this node is out of the book once the call has returned, and after any
further calls, if no call takes it in between the two parts of the call. The condition is
what keeps the address out from its removal on. -/
theorem own_address_stays_out (env : SwitchEnv) (sw : Switch) (events : List DelSelf.Event)
    (h : RepInv env.book sw.addrBook) :
    (∃ st, DelSelf.State.run env ⟨sw, .called⟩ events = .ok st) ∧
    (Along (DelSelf.State.step env) (NotReadded env) ⟨sw, .called⟩ events →
      Always (DelSelf.State.step env) (OwnAddressOut env) ⟨sw, .called⟩ events) ∧
    (Always (DelSelf.State.step env) (OutFromRemoval env) ⟨sw, .called⟩ events ↔
      Along (DelSelf.State.step env) (NotReadded env) ⟨sw, .called⟩ events) := by
  have hexact : Always (DelSelf.State.step env) (OutFromRemoval env) ⟨sw, .called⟩ events ↔
      Along (DelSelf.State.step env) (NotReadded env) ⟨sw, .called⟩ events :=
    always_iff_along (Q := fun st : DelSelf.State => RepInv env.book st.sw.addrBook)
      (fun _ _ _ _ hQ hstep => delSelf_step_inv hQ hstep)
      (fun _ _ _ _ hQ hP hstep => notReadded_exact hQ hP hstep) h ⟨nofun, nofun⟩
  refine ⟨?_, fun halong => (hexact.mpr halong).mono fun _ hout => hout.1, hexact⟩
  obtain ⟨st, hrun, -⟩ := foldlM_succeeds
    (P := fun st : DelSelf.State => RepInv env.book st.sw.addrBook)
    (s := ⟨sw, .called⟩) (fun _ e _ hst => delSelf_step_ok hst e) h
  exact ⟨st, hrun⟩

/-! ### A call between the two parts -/

def ownAddress : NetAddress := ⟨some [127, 0, 0, 1], 46656⟩

def otherAddress : NetAddress := ⟨some [10, 0, 0, 2], 46656⟩

/-- The listen address is `ownAddress`. -/
def listenEnv : SwitchEnv where
  json := noBanJson
  splitHost s := s
  newNetAddress _ := some ownAddress
  book := ⟨NetAddress.bytes, fun _ => true, fun _ _ => [], fun _ => flatKey 0⟩

/-- Node 1 with a new book, when `addrBookDelSelf` is called. -/
def listeningNode : DelSelf.State := ⟨node.sw, .called⟩

/-- The peer exchange adds an address that `otherAddress` has sent. -/
def adds (addr : NetAddress) : DelSelf.Event :=
  .book (.addAddress ⟨0, fun _ _ => 0, ⟨id, .refl⟩, ⟨id, .refl⟩, 0⟩ (some addr)
    (some otherAddress))

def readdedEvents : List DelSelf.Event := [adds ownAddress, .next, adds ownAddress, .next]

/-- `AddAddress` comes between the two parts. Then the address is one of this node, and in
the book too. -/
theorem readded_own_address :
    (∃ st, listeningNode.run listenEnv readdedEvents = .ok st ∧ st.phase = .returned ownAddress ∧
      ownAddress.bytes ∈ st.sw.addrBook.ourAddrs ∧ ownAddress.bytes ∈ st.sw.addrBook.addrLookup ∧
      ∃ bucket ∈ st.sw.addrBook.buckets .new, ownAddress.bytes ∈ bucket) ∧
    ¬ Always (DelSelf.State.step listenEnv) (OwnAddressOut listenEnv) listeningNode
      readdedEvents := by
  have hrun : ∃ st, listeningNode.run listenEnv readdedEvents = .ok st ∧
      st.phase = .returned ownAddress ∧
      ownAddress.bytes ∈ st.sw.addrBook.ourAddrs ∧ ownAddress.bytes ∈ st.sw.addrBook.addrLookup ∧
      ∃ bucket ∈ st.sw.addrBook.buckets .new, ownAddress.bytes ∈ bucket :=
    ⟨_, rfl, rfl, by decide, by decide, by decide⟩
  refine ⟨hrun, fun halways => ?_⟩
  obtain ⟨st, hst, hphase, -, hin, -⟩ := hrun
  exact (halways.last hst ownAddress hphase).2.1 hin

def laterEvents : List DelSelf.Event :=
  [adds ownAddress, .next, adds otherAddress, .next, adds ownAddress,
    .book (.markGood 0 otherAddress), .book (.markGood 0 ownAddress)]

/-- `AddAddress` comes before and after the two parts. -/
theorem own_address_out_later :
    (∃ st, listeningNode.run listenEnv laterEvents = .ok st ∧ st.phase = .returned ownAddress ∧
      otherAddress.bytes ∈ st.sw.addrBook.addrLookup) ∧
    Always (DelSelf.State.step listenEnv) (OwnAddressOut listenEnv) listeningNode laterEvents :=
  ⟨⟨_, rfl, rfl, by decide⟩,
    (own_address_stays_out listenEnv node.sw laterEvents (Pex.repInv_new _ _ _)).2.1
      (by decide)⟩

end BtmStats.Proofs.P2p
