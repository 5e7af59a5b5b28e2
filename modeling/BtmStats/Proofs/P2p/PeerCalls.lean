import BtmStats.Proofs.P2p.Switch
import BtmStats.Spec.P2p.PeerCalls

/-!
# `BtmStats.Proofs.P2p.PeerCalls`: what stopping a peer does to the table of peers

`stopAndRemovePeer` removes by key. A peer that was started and then not registered, or that
is stopped a second time, can share its key with a registered peer, and its stop then removes
the other one. `registered_until_stopped_iff` says exactly when this does not happen.

A peer runs before it is registered, so its connection can fail and `stopAndRemovePeer` can
get past `peers.Remove` before `AddPeer` gets to `peers.Add`. The peer is then registered
and dead. `stopped_not_registered` says that this order of the two is the only way.

`step_effect` lists what a step can do to the table and to the records of the calls. Both
results use no more of a step than this.
-/

set_option autoImplicit false

namespace BtmStats.Proofs.P2p

open Lib Spec Spec.P2p Spec.P2p.PeerCalls
open Proofs.Pex (RepInv)

section
variable {verify : Verify} {env : SwitchEnv} {st st' : PeerCalls.State}

/-! ### The effect of a step -/

/-- `AddPeer` registers a peer, or fails because its key is taken. -/
structure Adds (st : PeerCalls.State) (i : Nat) (peer : Peer) (st' : PeerCalls.State) : Prop where
  call : st.adding[i]? = some ⟨peer, .ready⟩
  peers : st'.sw.peers = (st.sw.peers.add peer).1
  returned : st'.returned = st.returned ++ [(peer, (st.sw.peers.add peer).2)]
  stopCalled : st'.stopCalled = st.stopCalled
  stopping : st'.stopping = st.stopping
  removed : st'.removed = st.removed
  stopped : st'.stopped = st.stopped

/-- `stopAndRemovePeer` gets past `peers.Remove`. -/
structure Removes (st : PeerCalls.State) (j : Nat) (peer : Peer) (st' : PeerCalls.State) :
    Prop where
  call : st.stopping[j]? = some ⟨peer, .called⟩
  peers : st.sw.peers.remove peer = .ok st'.sw.peers
  returned : st'.returned = st.returned
  stopCalled : st'.stopCalled = st.stopCalled
  stopping : st'.stopping = st.stopping.set j ⟨peer, .removed⟩
  removed : st'.removed = st.removed ++ [peer]
  stopped : st'.stopped = st.stopped

/-- The table stays as it is. Calls of `stopAndRemovePeer` are made, and calls that got past
`peers.Remove` stop their peer. -/
structure Quiet (st st' : PeerCalls.State) : Prop where
  peers : st'.sw.peers = st.sw.peers
  returned : ∀ p, (p, none) ∈ st'.returned ↔ (p, none) ∈ st.returned
  stopCalled : st.stopCalled ⊆ st'.stopCalled
  stopping : ∀ c ∈ st'.stopping, c ∈ st.stopping ∨ c.phase = .called ∧ c.peer ∈ st'.stopCalled
  removed : st'.removed = st.removed
  stopped : ∀ p ∈ st'.stopped, p ∈ st.stopped ∨ ⟨p, .removed⟩ ∈ st.stopping

theorem Quiet.refl (st : PeerCalls.State) : Quiet st st :=
  ⟨rfl, fun _ => .rfl, fun _ h => h, fun _ h => .inl h, rfl, fun _ h => .inl h⟩

theorem quiet_callStop (st : PeerCalls.State) (peer : Peer) : Quiet st (st.callStop peer) where
  peers := rfl
  returned _ := .rfl
  stopCalled _ h := List.mem_append_left _ h
  stopping c hc := by
    rcases List.mem_append.mp hc with hc | hc
    · exact .inl hc
    · rw [List.mem_singleton.mp hc]
      exact .inr ⟨rfl, List.mem_append_right _ List.mem_cons_self⟩
  removed := rfl
  stopped _ h := .inl h

/-- What an event does: it is the `peers.Add` of a call, the `peers.Remove` of a call, or
leaves the table as it is. -/
def Effect (st : PeerCalls.State) (e : PeerCalls.Event) (st' : PeerCalls.State) : Prop :=
  (∃ i peer, e = .add i ∧ Adds st i peer st') ∨ (∃ j peer, e = .remove j ∧ Removes st j peer st') ∨
    (Quiet st st' ∧ (∀ i peer, e = .add i → st.adding[i]? ≠ some ⟨peer, .ready⟩) ∧
      ∀ j peer, e = .remove j → st.stopping[j]? ≠ some ⟨peer, .called⟩)

variable {e : PeerCalls.Event} {i : Nat} {peer : Peer}

theorem Effect.of_quiet (hadd : ∀ i, e ≠ .add i) (hremove : ∀ j, e ≠ .remove j)
    (hquiet : Quiet st st') : Effect st e st' :=
  .inr (.inr ⟨hquiet, fun i _ he => absurd he (hadd i), fun j _ he => absurd he (hremove j)⟩)

/-- A connection gets as far as the checks of `AddPeer`, which do not touch the table. -/
theorem quiet_connect {outbound : Bool} {remoteAddr : Str} {challenge : FixedBytes 32}
    {authSigMsg : AuthSigMsg} {handshake : Handshake} {now : Int}
    (hstep : st.step verify env (.connect outbound remoteAddr challenge authSigMsg handshake now) =
      .ok st') : Quiet st st' := by
  unfold State.step at hstep
  dsimp only at hstep
  split at hstep
  · cases hstep
    exact .refl st
  · rw [bind_eq_ok_iff] at hstep
    obtain ⟨⟨sw, res⟩, hcheck, hst⟩ := hstep
    cases hst
    exact { Quiet.refl st with peers := (addPeerCheck_made hcheck).1 }

theorem quiet_start (hstep : st.step verify env (.start i) = .ok st') : Quiet st st' := by
  unfold State.step at hstep
  dsimp only at hstep
  split at hstep
  · split at hstep <;> (cases hstep; exact { Quiet.refl st with })
  · cases hstep
    exact .refl st

/-- A call of `AddPeer` that a reactor fails returns an error. -/
theorem quiet_reactors {err : Option Err} (hstep : st.step verify env (.reactors i err) = .ok st') :
    Quiet st st' := by
  unfold State.step at hstep
  dsimp only at hstep
  split at hstep
  · cases hstep
    refine { Quiet.refl st with returned := fun p => ?_ }
    simp [State.returnAdd]
  · cases hstep
    exact { Quiet.refl st with }
  · cases hstep
    exact .refl st

theorem quiet_connError (hstep : st.step verify env (.connError peer) = .ok st') :
    Quiet st st' := by
  unfold State.step at hstep
  dsimp only at hstep
  split at hstep
  · cases hstep
    exact { quiet_callStop st peer with }
  · cases hstep
    exact .refl st

theorem quiet_stopPeer (hstep : st.step verify env (.stopPeer peer) = .ok st') : Quiet st st' := by
  unfold State.step at hstep
  dsimp only at hstep
  split at hstep
  · cases hstep
    exact quiet_callStop st peer
  · cases hstep
    exact .refl st

/-- A call of `stopAndRemovePeer` that got past `peers.Remove` returns. -/
theorem quiet_stop {j : Nat} (hstep : st.step verify env (.stop j) = .ok st') : Quiet st st' := by
  unfold State.step at hstep
  dsimp only at hstep
  split at hstep
  · next peer hcall =>
    cases hstep
    refine { Quiet.refl st with stopping := fun c hc => ?_, stopped := fun p hp => ?_ }
    · exact .inl (List.mem_of_mem_eraseIdx hc)
    · rcases List.mem_append.mp hp with hp | hp
      · exact .inl hp
      · rw [List.mem_singleton.mp hp]
        exact .inr (List.mem_of_getElem? hcall)
  · cases hstep
    exact .refl st

/-- `peers.Add` of a call that is ready, or nothing. -/
theorem effect_add (hstep : st.step verify env (.add i) = .ok st') : Effect st (.add i) st' := by
  unfold State.step at hstep
  dsimp only at hstep
  split at hstep
  · next peer hcall =>
    cases hstep
    exact .inl ⟨i, peer, rfl, hcall, rfl, rfl, rfl, rfl, rfl, rfl⟩
  · next hnone =>
    cases hstep
    refine .inr (.inr ⟨.refl st, fun k peer hk hcall => ?_, nofun⟩)
    cases hk
    exact hnone peer hcall

/-- `peers.Remove` of a call that was just made, or nothing. -/
theorem effect_remove {j : Nat} (hstep : st.step verify env (.remove j) = .ok st') :
    Effect st (.remove j) st' := by
  unfold State.step at hstep
  dsimp only at hstep
  split at hstep
  · next peer hcall =>
    rw [bind_eq_ok_iff] at hstep
    obtain ⟨peers, hremove, hst⟩ := hstep
    cases hst
    exact .inr (.inl ⟨j, peer, rfl, hcall, hremove, rfl, rfl, rfl, rfl, rfl⟩)
  · next hnone =>
    cases hstep
    refine .inr (.inr ⟨.refl st, nofun, fun k peer hk hcall => ?_⟩)
    cases hk
    exact hnone peer hcall

theorem step_effect (hstep : st.step verify env e = .ok st') : Effect st e st' := by
  cases e with
  | connect => exact .of_quiet nofun nofun (quiet_connect hstep)
  | start i => exact .of_quiet nofun nofun (quiet_start hstep)
  | reactors i err => exact .of_quiet nofun nofun (quiet_reactors hstep)
  | add i => exact effect_add hstep
  | connError peer => exact .of_quiet nofun nofun (quiet_connError hstep)
  | stopPeer peer => exact .of_quiet nofun nofun (quiet_stopPeer hstep)
  | remove j => exact effect_remove hstep
  | stop j => exact .of_quiet nofun nofun (quiet_stop hstep)

/-! ### Every run returns -/

/-- The two halves of the table agree, and a registered peer is one whose `AddPeer` call
returned nil. -/
structure CallsInv (st : PeerCalls.State) : Prop where
  indexed : Indexed st.sw.peers
  registered : ∀ p ∈ st.sw.peers.list, (p, none) ∈ st.returned
  stopCalled : ∀ c ∈ st.stopping, c.peer ∈ st.stopCalled

theorem callsInv_fresh (nodeInfo : NodeInfo) (running : Bool) (addrBook : Pex.AddrBook) :
    CallsInv (.fresh nodeInfo running addrBook) :=
  ⟨indexed_new, (fun _ h => nomatch h), (fun _ h => nomatch h)⟩

/-- What is left in the list after `peers.Remove` was there before, under another key. -/
theorem mem_list_of_remove {ps ps' : PeerSet} (h : Indexed ps) {p : Peer}
    (hremove : ps.remove peer = .ok ps') : p ∈ ps'.list ↔ p ∈ ps.list ∧ p.key ≠ peer.key := by
  obtain ⟨ps₁, hrun, hindexed, hget⟩ := remove_spec h peer
  obtain rfl : ps₁ = ps' := Except.ok.inj (hrun.symm.trans hremove)
  have hmem : p ∈ ps₁.list ↔ ps₁.get p.key = some p := by
    rw [hindexed.get_eq_some_iff]
    exact (and_iff_left rfl).symm
  have hmem' : p ∈ ps.list ↔ ps.get p.key = some p := by
    rw [h.get_eq_some_iff]
    exact (and_iff_left rfl).symm
  rw [hmem, hmem', hget]
  split
  · next hkey => simp [hkey]
  · next hkey => simp [hkey]

/-- `peers.Add` does nothing when the key is taken, and otherwise puts the peer into the
list. `AddPeer` returns nil in the second case only. -/
theorem Adds.spec (h : Indexed st.sw.peers) (hadd : Adds st i peer st') :
    Indexed st'.sw.peers ∧
      ((∃ q ∈ st.sw.peers.list, q.key = peer.key) ∧ st'.sw.peers.list = st.sw.peers.list ∧
          (∀ p, (p, none) ∈ st'.returned ↔ (p, none) ∈ st.returned) ∨
        (∀ q ∈ st.sw.peers.list, q.key ≠ peer.key) ∧
          st'.sw.peers.list = st.sw.peers.list ++ [peer] ∧
          ∀ p, (p, none) ∈ st'.returned ↔ (p, none) ∈ st.returned ∨ p = peer) := by
  rw [hadd.peers, hadd.returned]
  rcases add_spec h peer with ⟨htaken, hdup⟩ | ⟨hfree, hnone, hlist, hindexed⟩
  · rw [hdup]
    refine ⟨h, .inl ⟨htaken, rfl, fun p => ?_⟩⟩
    simp
  · rw [hnone]
    refine ⟨hindexed, .inr ⟨hfree, hlist, fun p => ?_⟩⟩
    simp

/-- The table stays in order, whatever the step is. -/
theorem calls_step_inv (h : CallsInv st) (hstep : st.step verify env e = .ok st') :
    CallsInv st' := by
  rcases step_effect hstep with ⟨i, peer, -, hadd⟩ | ⟨j, peer, -, hremove⟩ | ⟨hquiet, -, -⟩
  · obtain ⟨hindexed, hcases⟩ := hadd.spec h.indexed
    refine ⟨hindexed, fun p hp => ?_, ?_⟩
    · rcases hcases with ⟨-, hlist, hreturned⟩ | ⟨-, hlist, hreturned⟩
      · rw [hlist] at hp
        exact (hreturned p).mpr (h.registered p hp)
      · rw [hlist] at hp
        rcases List.mem_append.mp hp with hp | hp
        · exact (hreturned p).mpr (.inl (h.registered p hp))
        · exact (hreturned p).mpr (.inr (List.mem_singleton.mp hp))
    · rw [hadd.stopping, hadd.stopCalled]
      exact h.stopCalled
  · obtain ⟨ps', hrun, hindexed, -⟩ := remove_spec h.indexed peer
    obtain rfl : ps' = st'.sw.peers := Except.ok.inj (hrun.symm.trans hremove.peers)
    refine ⟨hindexed, fun p hp => ?_, fun c hc => ?_⟩
    · rw [hremove.returned]
      exact h.registered p ((mem_list_of_remove h.indexed hremove.peers).mp hp).1
    · rw [hremove.stopping] at hc
      rw [hremove.stopCalled]
      rcases List.mem_or_eq_of_mem_set hc with hc | rfl
      · exact h.stopCalled c hc
      · exact h.stopCalled ⟨peer, .called⟩ (List.mem_of_getElem? hremove.call)
  · refine ⟨hquiet.peers ▸ h.indexed, fun p hp => ?_, fun c hc => ?_⟩
    · rw [hquiet.peers] at hp
      exact (hquiet.returned p).mpr (h.registered p hp)
    · rcases hquiet.stopping c hc with hc | ⟨-, hc⟩
      · exact hquiet.stopCalled (h.stopCalled c hc)
      · exact hc

/-- No step panics, and the book keeps its invariant. -/
theorem calls_step_ok (h : CallsInv st) (hbook : RepInv env.book st.sw.addrBook)
    (e : PeerCalls.Event) :
    ∃ st', st.step verify env e = .ok st' ∧ RepInv env.book st'.sw.addrBook := by
  cases e with
  | connect outbound remoteAddr challenge authSigMsg handshake now =>
    simp only [State.step]
    cases hpc : newPeerConn verify outbound true remoteAddr challenge authSigMsg with
    | error e => exact ⟨st, rfl, hbook⟩
    | ok pc =>
      obtain ⟨auth, hauth, -⟩ := authenticated_of_newPeerConn hpc
      obtain ⟨sw', res, hrun, hbook'⟩ := addPeerCheck_ok hbook hauth now st.next handshake
      simp only [hrun, bind, Except.bind]
      exact ⟨_, rfl, hbook'⟩
  | remove j =>
    simp only [State.step]
    split
    · next peer _ =>
      -- The two halves of the table agree, so `peers.Remove` does not panic.
      obtain ⟨peers, hremove, -⟩ := remove_spec h.indexed peer
      simp only [hremove, bind, Except.bind]
      exact ⟨_, rfl, hbook⟩
    · exact ⟨st, rfl, hbook⟩
  | start i =>
    simp only [State.step]
    repeat' split
    all_goals exact ⟨_, rfl, hbook⟩
  | reactors i err =>
    simp only [State.step]
    split <;> exact ⟨_, rfl, hbook⟩
  | add i =>
    simp only [State.step]
    split <;> exact ⟨_, rfl, hbook⟩
  | connError peer =>
    simp only [State.step]
    split <;> exact ⟨_, rfl, hbook⟩
  | stopPeer peer =>
    simp only [State.step]
    split <;> exact ⟨_, rfl, hbook⟩
  | stop j =>
    simp only [State.step]
    split <;> exact ⟨_, rfl, hbook⟩

theorem calls_run_ok (h : CallsInv st) (hbook : RepInv env.book st.sw.addrBook)
    (events : List PeerCalls.Event) : ∃ st', st.run verify env events = .ok st' := by
  have hsucceeds : ∃ st', st.run verify env events = .ok st' ∧
      CallsInv st' ∧ RepInv env.book st'.sw.addrBook := by
    refine foldlM_succeeds (fun st e _ hst => ?_) ⟨h, hbook⟩
    obtain ⟨st', hstep, hbook'⟩ := calls_step_ok hst.1 hst.2 e
    exact ⟨st', hstep, calls_step_inv hst.1 hstep, hbook'⟩
  obtain ⟨st', hrun, -⟩ := hsucceeds
  exact ⟨st', hrun⟩

/-! ### Registered until stopped -/

/-- A peer whose `AddPeer` call returned nil, and on which `stopAndRemovePeer` was not
called, is registered. -/
def StaysRegistered (st : PeerCalls.State) : Prop :=
  ∀ p, (p, none) ∈ st.returned → p ∉ st.stopCalled →
    st.sw.peers.has p.key = true ∧ st.sw.peers.get p.key = some p ∧ p ∈ st.sw.peers.list

/-- A `stopAndRemovePeer` call that gets to `peers.Remove` finds under the key of its peer no
peer other than those that are being stopped. -/
def RemovesStopped (st : PeerCalls.State) : PeerCalls.Event → Prop
  | .remove j => ∀ call ∈ st.stopping[j]?, call.phase = .called →
      ∀ p ∈ st.sw.peers.get call.peer.key, p ∈ st.stopCalled
  | _ => True

instance (st : PeerCalls.State) (e : PeerCalls.Event) : Decidable (RemovesStopped st e) := by
  cases e <;> (unfold RemovesStopped; infer_instance)

theorem staysRegistered_iff (h : Indexed st.sw.peers) : StaysRegistered st ↔
    ∀ p, (p, none) ∈ st.returned → p ∉ st.stopCalled → p ∈ st.sw.peers.list := by
  refine forall_congr' fun p => imp_congr_right fun _ => imp_congr_right fun _ => ?_
  constructor
  · exact fun hp => hp.2.2
  · intro hp
    exact ⟨(has_iff h _).mpr ⟨p, hp, rfl⟩, h.get_eq_some_iff.mpr ⟨hp, rfl⟩, hp⟩

/-- A step keeps every peer registered exactly if it removes no live one. -/
theorem removesStopped_exact (h : CallsInv st) (hstays : StaysRegistered st)
    (hstep : st.step verify env e = .ok st') : StaysRegistered st' ↔ RemovesStopped st e := by
  have h' := calls_step_inv h hstep
  rw [staysRegistered_iff h'.indexed]
  rw [staysRegistered_iff h.indexed] at hstays
  rcases step_effect hstep with ⟨i, peer, rfl, hadd⟩ | ⟨j, peer, rfl, hremove⟩ | ⟨hquiet, -, hno⟩
  · refine iff_of_true (fun p hp hnot => ?_) trivial
    rw [hadd.stopCalled] at hnot
    rcases (hadd.spec h.indexed).2 with ⟨-, hlist, hreturned⟩ | ⟨-, hlist, hreturned⟩
    · rw [hlist]
      exact hstays p ((hreturned p).mp hp) hnot
    · rw [hlist]
      rcases (hreturned p).mp hp with hp | rfl
      · exact List.mem_append_left _ (hstays p hp hnot)
      · exact List.mem_append_right _ List.mem_cons_self
  · rw [hremove.returned, hremove.stopCalled]
    constructor
    · -- A registered peer with this key is gone now, so its stop was called.
      intro hkept call hcall _ p hget
      obtain rfl : ⟨peer, .called⟩ = call := Option.some.inj (hremove.call.symm.trans hcall)
      obtain ⟨hp, hkey⟩ := h.indexed.get_eq_some_iff.mp hget
      by_contra hnot
      have hp' := hkept p (h.registered p hp) hnot
      exact ((mem_list_of_remove h.indexed hremove.peers).mp hp').2 hkey
    · intro hstopped p hp hnot
      have hmem := hstays p hp hnot
      refine (mem_list_of_remove h.indexed hremove.peers).mpr ⟨hmem, fun hkey => hnot ?_⟩
      exact hstopped _ hremove.call rfl p (h.indexed.get_eq_some_iff.mpr ⟨hmem, hkey⟩)
  · refine iff_of_true (fun p hp hnot => ?_) ?_
    · rw [hquiet.peers]
      exact hstays p ((hquiet.returned p).mp hp) fun hcalled => hnot (hquiet.stopCalled hcalled)
    · cases e with
      | remove j => exact fun call hcall hphase => absurd (hphase ▸ hcall) (hno j call.peer rfl)
      | _ => trivial

/-- In every run, every peer stays registered from the return of its `AddPeer` call until
`stopAndRemovePeer` is called on it, exactly when every `peers.Remove` of the run finds no
other live peer under its key. -/
theorem registered_until_stopped_iff (verify : Verify) (env : SwitchEnv) (nodeInfo : NodeInfo)
    (running : Bool) (addrBook : Pex.AddrBook) (events : List PeerCalls.Event) :
    let st := PeerCalls.State.fresh nodeInfo running addrBook
    (RepInv env.book addrBook → ∃ st', st.run verify env events = .ok st') ∧
      (Always (PeerCalls.State.step verify env) StaysRegistered st events ↔
        Along (PeerCalls.State.step verify env) RemovesStopped st events) := by
  have hinv := callsInv_fresh nodeInfo running addrBook
  refine ⟨fun hbook => calls_run_ok hinv hbook events, ?_⟩
  exact always_iff_along (fun _ _ _ _ h hstep => calls_step_inv h hstep)
    (fun _ _ _ _ h hstays hstep => removesStopped_exact h hstays hstep) hinv
    (fun _ hp => nomatch hp)

/-! ### Stopped and not registered -/

/-- When `AddPeer` has returned for a peer and no `stopAndRemovePeer` call on it is under
way, a peer that was stopped is not registered. -/
def StoppedUnregistered (st : PeerCalls.State) : Prop :=
  ∀ p, p ∈ st.returned.map Prod.fst → (∀ call ∈ st.stopping, call.peer ≠ p) → p ∈ st.stopped →
    p ∉ st.sw.peers.list

/-- An `AddPeer` call that gets to `peers.Add` with a free key adds a peer for which no
`stopAndRemovePeer` call has got past `peers.Remove`. -/
def AddsLive (st : PeerCalls.State) : PeerCalls.Event → Prop
  | .add i => ∀ call ∈ st.adding[i]?, call.phase = .ready →
      st.sw.peers.has call.peer.key = false → call.peer ∉ st.removed
  | _ => True

instance (st : PeerCalls.State) (e : PeerCalls.Event) : Decidable (AddsLive st e) := by
  cases e <;> (unfold AddsLive; infer_instance)

/-- A peer is stopped after it was removed, and a removed peer is not registered. -/
structure RemovedInv (st : PeerCalls.State) : Prop extends CallsInv st where
  of_stopping : ∀ p, ⟨p, .removed⟩ ∈ st.stopping → p ∈ st.removed
  of_stopped : ∀ p ∈ st.stopped, p ∈ st.removed
  unregistered : ∀ p ∈ st.removed, p ∉ st.sw.peers.list

/-- Past `peers.Remove` a peer is out of the table, step by step. -/
theorem removedInv_step (h : RemovedInv st) (hlive : AddsLive st e)
    (hstep : st.step verify env e = .ok st') : RemovedInv st' := by
  refine { calls_step_inv h.toCallsInv hstep with
    of_stopping := ?_, of_stopped := ?_, unregistered := ?_ } <;>
  rcases step_effect hstep with ⟨i, peer, rfl, hadd⟩ | ⟨j, peer, rfl, hremove⟩ | ⟨hquiet, -, -⟩
  · rw [hadd.stopping, hadd.removed]
    exact h.of_stopping
  · intro p hp
    rw [hremove.stopping] at hp
    rw [hremove.removed]
    rcases List.mem_or_eq_of_mem_set hp with hp | heq
    · exact List.mem_append_left _ (h.of_stopping p hp)
    · cases heq
      exact List.mem_append_right _ List.mem_cons_self
  · intro p hp
    rw [hquiet.removed]
    rcases hquiet.stopping _ hp with hp | ⟨hphase, -⟩
    · exact h.of_stopping p hp
    · cases hphase
  · rw [hadd.stopped, hadd.removed]
    exact h.of_stopped
  · rw [hremove.stopped, hremove.removed]
    exact fun p hp => List.mem_append_left _ (h.of_stopped p hp)
  · intro p hp
    rw [hquiet.removed]
    rcases hquiet.stopped p hp with hp | hp
    · exact h.of_stopped p hp
    · exact h.of_stopping p hp
  · -- A peer that is registered now was not removed before: the condition.
    rw [hadd.removed]
    rcases (hadd.spec h.indexed).2 with ⟨-, hlist, -⟩ | ⟨hfree, hlist, -⟩
    · rw [hlist]
      exact h.unregistered
    · intro p hp hmem
      rw [hlist] at hmem
      rcases List.mem_append.mp hmem with hmem | hmem
      · exact h.unregistered p hp hmem
      · have hhas : st.sw.peers.has peer.key = false := by
          rw [Bool.eq_false_iff, Ne, has_iff h.indexed]
          rintro ⟨q, hq, hkey⟩
          exact hfree q hq hkey
        rw [List.mem_singleton.mp hmem] at hp
        exact hlive _ hadd.call rfl hhas hp
  · -- `peers.Remove` leaves no peer with the key, the peer itself included.
    rw [hremove.removed]
    intro p hp hmem
    obtain ⟨hmem, hkey⟩ := (mem_list_of_remove h.indexed hremove.peers).mp hmem
    rcases List.mem_append.mp hp with hp | hp
    · exact h.unregistered p hp hmem
    · exact hkey (by rw [List.mem_singleton.mp hp])
  · rw [hquiet.removed, hquiet.peers]
    exact h.unregistered

/-- In every run where no peer is removed before it is added, a stopped peer is not
registered in any state. -/
theorem stopped_not_registered (verify : Verify) (env : SwitchEnv) (nodeInfo : NodeInfo)
    (running : Bool) (addrBook : Pex.AddrBook) (events : List PeerCalls.Event)
    (hlive : Along (PeerCalls.State.step verify env) AddsLive
      (.fresh nodeInfo running addrBook) events) :
    (RepInv env.book addrBook → ∃ st',
        (PeerCalls.State.fresh nodeInfo running addrBook).run verify env events = .ok st') ∧
      Always (PeerCalls.State.step verify env) StoppedUnregistered
        (.fresh nodeInfo running addrBook) events := by
  have hinv := callsInv_fresh nodeInfo running addrBook
  refine ⟨fun hbook => calls_run_ok hinv hbook events, ?_⟩
  have hremoved : RemovedInv (.fresh nodeInfo running addrBook) :=
    { hinv with
      of_stopping := fun _ h => nomatch h
      of_stopped := fun _ h => nomatch h
      unregistered := fun _ h => nomatch h }
  have halways := always_of_along (fun _ _ _ h hC hstep => removedInv_step h hC hstep)
    hremoved hlive
  exact halways.mono fun _ h p _ _ hp => h.unregistered p (h.of_stopped p hp)

end

/-! ### Runs of a switch -/

/-- Node 1, running, with an empty address book. -/
def runningNode : PeerCalls.State := .fresh (nodeOf 1) true (Pex.newAddrBook false [])

/-- The holder of key `b` connects. -/
def dialsIn (b : UInt8) : PeerCalls.Event :=
  .connect false [b] (flatKey 0) ⟨flatKey b, (flatKey b).1⟩ ⟨none, none, nodeOf b⟩ 0

/-- The peer of this connection. -/
def dialedPeer (addr : Nat) (b : UInt8) : Peer :=
  newPeer addr ⟨false, true, [b], some ⟨flatKey 0, (flatKey b).1, flatKey b⟩⟩
    { nodeOf b with remoteAddr := [b] }

/-- Two connections with one key pass the check and are started. The first is registered,
the second is rejected as a duplicate. Its caller closes the connection, which is an error
for its running peer. -/
def duplicateEvents : List PeerCalls.Event :=
  [dialsIn 2, dialsIn 2, .start 0, .start 1, .reactors 0 none, .reactors 1 none, .add 0, .add 0,
    .connError (dialedPeer 1 2), .remove 0]

/-- The error of the duplicate takes the registered peer out of the table. -/
theorem duplicate_stop_removes_peer :
    (∃ st, runningNode.run keySignature localEnv duplicateEvents = .ok st ∧
      (dialedPeer 0 2, none) ∈ st.returned ∧ dialedPeer 0 2 ∉ st.stopCalled ∧
      st.sw.peers.has (dialedPeer 0 2).key = false) ∧
    ¬ Always (PeerCalls.State.step keySignature localEnv) StaysRegistered runningNode
      duplicateEvents := by
  have hrun : ∃ st, runningNode.run keySignature localEnv duplicateEvents = .ok st ∧
      (dialedPeer 0 2, none) ∈ st.returned ∧ dialedPeer 0 2 ∉ st.stopCalled ∧
      st.sw.peers.has (dialedPeer 0 2).key = false :=
    ⟨_, rfl, by decide, by decide, by decide⟩
  refine ⟨hrun, fun halways => ?_⟩
  obtain ⟨st, hst, hreturned, hnot, hhas⟩ := hrun
  have hstays := (halways.last hst (dialedPeer 0 2) hreturned hnot).1
  rw [hhas] at hstays
  cases hstays

/-- The connection fails while the reactors are told, and the peer is registered when it is
stopped already. -/
def earlyErrorEvents : List PeerCalls.Event :=
  [dialsIn 2, .start 0, .connError (dialedPeer 0 2), .remove 0, .stop 0, .reactors 0 none, .add 0]

/-- The peer is stopped first and registered afterwards. -/
theorem early_error_leaves_dead_peer :
    (∃ st, runningNode.run keySignature localEnv earlyErrorEvents = .ok st ∧
      dialedPeer 0 2 ∈ st.returned.map Prod.fst ∧ st.stopping = [] ∧
      dialedPeer 0 2 ∈ st.stopped ∧ dialedPeer 0 2 ∈ st.sw.peers.list) ∧
    ¬ Always (PeerCalls.State.step keySignature localEnv) StoppedUnregistered runningNode
      earlyErrorEvents := by
  have hrun : ∃ st, runningNode.run keySignature localEnv earlyErrorEvents = .ok st ∧
      dialedPeer 0 2 ∈ st.returned.map Prod.fst ∧ st.stopping = [] ∧
      dialedPeer 0 2 ∈ st.stopped ∧ dialedPeer 0 2 ∈ st.sw.peers.list :=
    ⟨_, rfl, by decide, by decide, by decide, by decide⟩
  refine ⟨hrun, fun halways => ?_⟩
  obtain ⟨st, hst, hreturned, hstopping, hstopped, hmem⟩ := hrun
  refine halways.last hst (dialedPeer 0 2) hreturned ?_ hstopped hmem
  rw [hstopping]
  exact fun _ h => nomatch h

/-- Two parties connect and are registered, and the connection of the first one fails. -/
def orderlyEvents : List PeerCalls.Event :=
  [dialsIn 2, .start 0, dialsIn 3, .reactors 0 none, .start 1, .add 0, .reactors 0 none, .add 0,
    .connError (dialedPeer 0 2), .remove 0, .stop 0]

/-- Each peer is there until its own connection fails. -/
theorem orderly_registered :
    Always (PeerCalls.State.step keySignature localEnv) StaysRegistered runningNode
      orderlyEvents :=
  (registered_until_stopped_iff keySignature localEnv (nodeOf 1) true
    (Pex.newAddrBook false []) orderlyEvents).2.mpr (by decide)

/-- The peer whose connection failed is out of the table. -/
theorem orderly_unregistered :
    Always (PeerCalls.State.step keySignature localEnv) StoppedUnregistered runningNode
      orderlyEvents :=
  (stopped_not_registered keySignature localEnv (nodeOf 1) true
    (Pex.newAddrBook false []) orderlyEvents (by decide)).2

end BtmStats.Proofs.P2p
