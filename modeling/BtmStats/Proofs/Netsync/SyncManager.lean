import BtmStats.Proofs.Netsync.Receive
import BtmStats.Proofs.P2p.PeerCalls
import BtmStats.Spec.Netsync.SyncManager

/-!
# `BtmStats.Proofs.Netsync.SyncManager`: which peers a node takes up

A running node registers a peer only after a message with a status has come in under the key of
the peer, with the genesis block of the node (`peers_share_genesis`). This holds along every
interleaving of the switch, the reactors and the receive routines.

`AddPeer` of the protocol reactor ends with a send on `newPeerCh`, which nobody receives from as
long as `syncer` is not started. `SyncManager.Start` does not start it. So the switch never gets a
peer, and the first handshake that succeeds keeps `handshakeMu` for good (`no_peer_without_syncer`).

`Moves` says what a step of the protocol reactor can do, and `CallsMove` what a step of the switch
can do to the calls of `AddPeer`. Both results use no more of a step than this.
-/

set_option autoImplicit false

namespace BtmStats.Proofs.Netsync

open Lib Spec Spec.Netsync
open Spec.Bc (Hash newHash)
open Spec.P2p (Peer PeerCalls.AddCall PeerCalls.AddPhase Switch SwitchEnv Verify NodeInfo)
open Proofs.P2p (CallsInv calls_step_inv calls_step_ok callsInv_fresh keySignature localEnv nodeOf
  dialsIn dialedPeer)
open Proofs.Pex (RepInv repInv_new)
open Proofs.Types (idOrders)

/-! ### A step of the protocol reactor -/

/-- The call has registered its peer and waits for someone to take the announcement. -/
def Announces : HandshakePhase → Prop
  | .txSync | .newPeer => True
  | .waiting | .added _ | .statusSet => False

section
variable {γ : Type} {api : PeersApi γ} {st st' : Handshakes γ} {e : Handshakes.Event}
  {res : Option (Peer × Option Err)}

/-- What a step of the protocol reactor can do, and the call that returns by it. -/
inductive Moves (api : PeersApi γ) (e : Handshakes.Event) (st : Handshakes γ) :
    Handshakes γ → Option (Peer × Option Err) → Prop where
  | idle (peers : γ) : Moves api e st { st with peers } none
  | lock {i : Nat} {peer : Peer} (hfree : st.holder = none) (hcall : st.queued[i]? = some peer) :
      Moves api e st
        { st with queued := st.queued.eraseIdx i, holder := some (peer, .waiting) } none
  | drop {i : Nat} {peer : Peer} (hholder : st.holder = some (peer, .waiting)) :
      Moves api e st { st with receiving := st.receiving.eraseIdx i } none
  | register {i : Nat} {peer : Peer} {status : InitalPeerStatus}
      (hholder : st.holder = some (peer, .waiting)) (hstatus : st.receiving[i]? = some status)
      (hkey : status.peerID = peer.key)
      (hgenesis : api.string st.pr.genesisHash = api.string status.genesisHash) :
      Moves api e st
        { st with
          peers := api.addPeer st.peers peer
          receiving := st.receiving.eraseIdx i
          registered := st.registered ++ [(peer, status)]
          holder := some (peer, .added status) } none
  | advance {peer : Peer} {phase phase' : HandshakePhase} (peers : γ)
      (hholder : st.holder = some (peer, phase)) (hphase : phase ≠ .waiting)
      (hphase' : phase' ≠ .waiting) (hann : Announces phase → Announces phase') :
      Moves api e st { st with peers, holder := some (peer, phase') } none
  | fail {peer : Peer} {err : Err} {queued : List Peer} {receiving : List InitalPeerStatus}
      (hqueued : queued ⊆ st.queued) (hreceiving : receiving ⊆ st.receiving)
      (hholder : ∀ p phase, st.holder = some (p, phase) → ¬ Announces phase) :
      Moves api e st
        { st with
          queued, receiving, holder := none, returned := st.returned ++ [(peer, some err)] }
        (some (peer, some err))
  | accept {peer : Peer} (hevent : e = .takeNewPeer) (hholder : st.holder = some (peer, .newPeer)) :
      Moves api e st { st with holder := none, returned := st.returned ++ [(peer, none)] }
        (some (peer, none))

theorem Moves.stay : Moves api e st st none := .idle st.peers

theorem not_announces {peer : Peer} {phase : HandshakePhase}
    (hholder : st.holder = some (peer, phase)) (h : ¬ Announces phase) :
    ∀ p q, st.holder = some (p, q) → ¬ Announces q := by
  intro p q hpq
  rw [hholder, Option.some.injEq, Prod.mk.injEq] at hpq
  exact hpq.2 ▸ h

/-- A call that gets `handshakeMu` waits for the status, or fails at once. -/
theorem lock_moves {i : Nat} {sent : Bool} (hstep : st.step api (.lock i sent) = (st', res)) :
    Moves api (.lock i sent) st st' res := by
  simp only [Handshakes.step] at hstep
  split at hstep
  · next peer hfree hcall =>
    split at hstep <;> cases hstep
    · exact .lock hfree hcall
    · refine .fail (List.eraseIdx_subset) (List.Subset.refl _) fun p q hpq => ?_
      rw [hfree] at hpq
      cases hpq
  · cases hstep
    exact .stay

/-- A status that is taken off the channel is dropped, ends the handshake, or registers the
peer. -/
theorem status_moves {i : Nat} (hstep : st.step api (.status i) = (st', res)) :
    Moves api (.status i) st st' res := by
  simp only [Handshakes.step] at hstep
  split at hstep
  · next peer status hholder hstatus =>
    unfold Handshakes.takeStatus at hstep
    split at hstep
    · next hkey =>
      split at hstep
      · cases hstep
        exact .fail (List.Subset.refl _) List.eraseIdx_subset (not_announces hholder id)
      · next hgenesis =>
        cases hstep
        exact .register hholder hstatus hkey (not_not.mp hgenesis)
    · cases hstep
      exact .drop hholder
  · cases hstep
    exact .stay

theorem retryTicker_moves {sent : Bool} (hstep : st.step api (.retryTicker sent) = (st', res)) :
    Moves api (.retryTicker sent) st st' res := by
  simp only [Handshakes.step] at hstep
  split at hstep
  · next peer hholder =>
    split at hstep <;> cases hstep
    · exact .stay
    · exact .fail (List.Subset.refl _) (List.Subset.refl _) (not_announces hholder id)
  · cases hstep
    exact .stay

theorem peer_moves {pending : Bool} (hstep : st.step api (.peer pending) = (st', res)) :
    Moves api (.peer pending) st st' res := by
  simp only [Handshakes.step] at hstep
  split at hstep
  · next peer hholder =>
    split at hstep <;> cases hstep
    · exact .advance _ hholder (by simp) (by split <;> simp) False.elim
    · exact .fail (List.Subset.refl _) (List.Subset.refl _) (not_announces hholder id)
  · cases hstep
    exact .stay

/-- Every step of the protocol reactor is one of the moves. -/
theorem handshakes_moves (hstep : st.step api e = (st', res)) : Moves api e st st' res := by
  cases e with
  | lock i sent => exact lock_moves hstep
  | status i => exact status_moves hstep
  | retryTicker sent => exact retryTicker_moves hstep
  | peer pending => exact peer_moves hstep
  | handshakeWait =>
    simp only [Handshakes.step] at hstep
    split at hstep <;> cases hstep
    · next peer hholder =>
      exact .fail (List.Subset.refl _) (List.Subset.refl _) (not_announces hholder id)
    · exact .stay
  | setPeerStatus =>
    simp only [Handshakes.step] at hstep
    split at hstep <;> cases hstep
    · next peer status hholder => exact .advance _ hholder (by simp) (by simp) False.elim
    · exact .stay
  | takeTxSync =>
    simp only [Handshakes.step] at hstep
    split at hstep <;> cases hstep
    · next peer hholder => exact .advance _ hholder (by simp) (by simp) fun _ => trivial
    · exact .stay
  | takeNewPeer =>
    simp only [Handshakes.step] at hstep
    split at hstep <;> cases hstep
    · next peer hholder => exact .accept rfl hholder
    · exact .stay
  | removePeer peerKey =>
    cases hstep
    exact .idle _

/-! ### What the protocol reactor has registered -/

/-- The peers of the calls are started peers (`P`), the statuses came in as messages (`R`), and a
peer is registered with a status under its key and with the genesis block of the node. -/
structure HandshakesInv (api : PeersApi γ) (pr : ProtocolReactor) (P : Peer → Prop)
    (R : InitalPeerStatus → Prop) (st : Handshakes γ) : Prop where
  pr_eq : st.pr = pr
  queued : ∀ p ∈ st.queued, P p
  holder : ∀ p phase, st.holder = some (p, phase) →
    P p ∧ (phase ≠ .waiting → ∃ s, (p, s) ∈ st.registered)
  receiving : ∀ s ∈ st.receiving, R s
  registered : ∀ p s, (p, s) ∈ st.registered → P p ∧ s.peerID = p.key ∧
    api.string pr.genesisHash = api.string s.genesisHash ∧ R s
  returned : ∀ p, (p, none) ∈ st.returned → ∃ s, (p, s) ∈ st.registered

variable {pr : ProtocolReactor} {P P' : Peer → Prop} {R R' : InitalPeerStatus → Prop}

theorem HandshakesInv.mono (h : HandshakesInv api pr P R st) (hP : ∀ p, P p → P' p)
    (hR : ∀ s, R s → R' s) : HandshakesInv api pr P' R' st where
  pr_eq := h.pr_eq
  queued p hp := hP p (h.queued p hp)
  holder p phase hp := ⟨hP p (h.holder p phase hp).1, (h.holder p phase hp).2⟩
  receiving s hs := hR s (h.receiving s hs)
  registered p s hps := by
    obtain ⟨hp, hkey, hgenesis, hs⟩ := h.registered p s hps
    exact ⟨hP p hp, hkey, hgenesis, hR s hs⟩
  returned := h.returned

theorem Moves.returned_subset (h : Moves api e st st' res) : st.returned ⊆ st'.returned := by
  cases h <;> first | exact List.Subset.refl _ | exact List.subset_append_left _ _

theorem Moves.returned_nil {peer : Peer} (h : Moves api e st st' (some (peer, none))) :
    (peer, none) ∈ st'.returned := by
  cases h
  exact List.mem_append_right _ List.mem_cons_self

/-- Every move keeps the invariant of the handshakes. -/
theorem HandshakesInv.step (h : HandshakesInv api pr P R st) (hmoves : Moves api e st st' res) :
    HandshakesInv api pr P R st' := by
  cases hmoves with
  | idle peers => exact { h with }
  | @lock i peer hfree hcall =>
    refine { h with queued := fun p hp => ?_, holder := fun p phase hp => ?_ }
    · exact h.queued p (List.mem_of_mem_eraseIdx hp)
    · cases hp
      exact ⟨h.queued peer (List.mem_of_getElem? hcall), fun hne => absurd rfl hne⟩
  | drop hholder =>
    exact { h with receiving := fun s hs => h.receiving s (List.mem_of_mem_eraseIdx hs) }
  | @register i peer status hholder hstatus hkey hgenesis =>
    have hpeer := (h.holder _ _ hholder).1
    have hgot := h.receiving status (List.mem_of_getElem? hstatus)
    refine ⟨h.pr_eq, h.queued, fun p phase hp => ?_, fun s hs => ?_, fun p s hps => ?_,
      fun p hp => ?_⟩
    · cases hp
      exact ⟨hpeer, fun _ => ⟨status, List.mem_append_right _ List.mem_cons_self⟩⟩
    · exact h.receiving s (List.mem_of_mem_eraseIdx hs)
    · rcases List.mem_append.mp hps with hps | hps
      · exact h.registered p s hps
      · cases List.mem_singleton.mp hps
        exact ⟨hpeer, hkey, h.pr_eq ▸ hgenesis, hgot⟩
    · obtain ⟨s, hs⟩ := h.returned p hp
      exact ⟨s, List.mem_append_left _ hs⟩
  | advance peers hholder hphase hphase' hann =>
    obtain ⟨hpeer, hreg⟩ := h.holder _ _ hholder
    refine { h with holder := fun p q hp => ?_ }
    cases hp
    exact ⟨hpeer, fun _ => hreg hphase⟩
  | fail hqueued hreceiving hholder =>
    refine ⟨h.pr_eq, fun p hp => h.queued p (hqueued hp), fun p q hp => ?_,
      fun s hs => h.receiving s (hreceiving hs), h.registered, fun p hp => ?_⟩
    · cases hp
    · rcases List.mem_append.mp hp with hp | hp
      · exact h.returned p hp
      · cases List.mem_singleton.mp hp
  | @accept peer hevent hholder =>
    refine ⟨h.pr_eq, h.queued, fun p q hp => ?_, h.receiving, h.registered, fun p hp => ?_⟩
    · cases hp
    · rcases List.mem_append.mp hp with hp | hp
      · exact h.returned p hp
      · cases List.mem_singleton.mp hp
        exact (h.holder _ _ hholder).2 (by simp)

end

/-! ### A step of the switch -/

section
variable {verify : Verify} {env : SwitchEnv} {sw sw' : Switch}

theorem checkBannedPeer_running (env : SwitchEnv) (sw : Switch) (now : Int) (host : Str) :
    (sw.checkBannedPeer env now host).1.running = sw.running := by
  unfold Switch.checkBannedPeer
  split
  · rfl
  · split
    · rfl
    · unfold Switch.delBannedPeer Switch.storeBans
      split <;> rfl

theorem filterConnByPeer_running {peer : Peer} {now : Int} {err : Option Err}
    (h : sw.filterConnByPeer env now peer = .ok (sw', err)) : sw'.running = sw.running := by
  have hban := checkBannedPeer_running env sw now (env.splitHost peer.nodeInfo.remoteAddr)
  unfold Switch.filterConnByPeer at h
  split at h
  · next hcheck =>
    cases h
    rw [← hban, hcheck]
  · next sw₁ hcheck =>
    rw [hcheck] at hban
    rw [bind_eq_ok_iff] at h
    obtain ⟨key, -, h⟩ := h
    split at h
    · rw [bind_eq_ok_iff] at h
      obtain ⟨sw₂, hself, h⟩ := h
      cases h
      unfold Switch.addrBookDelSelf at hself
      split at hself
      · cases hself
        exact hban
      · rw [bind_eq_ok_iff] at hself
        obtain ⟨book, -, hself⟩ := hself
        cases hself
        exact hban
    · split at h <;> (cases h; exact hban)

theorem addPeerCheck_running {now : Int} {addr : Nat} {pc : P2p.PeerConn}
    {handshake : P2p.Handshake} {res : Except Err Peer}
    (h : sw.addPeerCheck env now addr pc handshake = .ok (sw', res)) :
    sw'.running = sw.running := by
  unfold Switch.addPeerCheck at h
  split at h
  · cases h
    rfl
  · split at h
    · cases h
      rfl
    · rw [bind_eq_ok_iff] at h
      obtain ⟨⟨sw₁, err⟩, hfilter, h⟩ := h
      cases err <;> (cases h; exact filterConnByPeer_running hfilter)

variable {st st' : P2p.PeerCalls.State} {e : P2p.PeerCalls.Event}

/-- What a step of the switch can do to the calls of `AddPeer`: a peer gets ready for `peers.Add`
when the reactors are through with it, and `AddPeer` returns nil only for a peer that is ready. -/
structure CallsMove (st : P2p.PeerCalls.State) (e : P2p.PeerCalls.Event)
    (st' : P2p.PeerCalls.State) : Prop where
  running : st'.sw.running = st.sw.running
  started : st.started ⊆ st'.started
  ready : ∀ p, ⟨p, .ready⟩ ∈ st'.adding → ⟨p, .ready⟩ ∈ st.adding ∨ st.sw.running = false ∨
    ∃ i, e = .reactors i none ∧ st.adding[i]? = some ⟨p, .started⟩
  returned : ∀ p, (p, none) ∈ st'.returned → (p, none) ∈ st.returned ∨ ⟨p, .ready⟩ ∈ st.adding

theorem CallsMove.refl (e : P2p.PeerCalls.Event) (st : P2p.PeerCalls.State) : CallsMove st e st :=
  ⟨rfl, fun _ h => h, fun _ h => .inl h, fun _ h => .inl h⟩

/-- A new connection may start a call, which is not ready. -/
theorem connect_move {outbound : Bool} {remoteAddr : Str} {challenge : FixedBytes 32}
    {authSigMsg : P2p.AuthSigMsg} {handshake : P2p.Handshake} {now : Int}
    (he : e = .connect outbound remoteAddr challenge authSigMsg handshake now)
    (hstep : st.step verify env e = .ok st') : CallsMove st e st' := by
  subst he
  simp only [P2p.PeerCalls.State.step] at hstep
  split at hstep
  · cases hstep
    exact .refl _ st
  · rw [bind_eq_ok_iff] at hstep
    obtain ⟨⟨sw, res⟩, hcheck, hst⟩ := hstep
    cases hst
    refine ⟨addPeerCheck_running hcheck, fun _ h => h, fun p hp => ?_, fun _ h => .inl h⟩
    rcases List.mem_append.mp hp with hp | hp
    · exact .inl hp
    · obtain ⟨_, -, hp⟩ := List.mem_map.mp hp
      cases hp

/-- In a switch that does not run the peer is ready at once. -/
theorem start_move {i : Nat} (hstep : st.step verify env (.start i) = .ok st') :
    CallsMove st (.start i) st' := by
  simp only [P2p.PeerCalls.State.step] at hstep
  split at hstep
  · split at hstep <;> cases hstep
    · refine { CallsMove.refl (.start i) st with
        started := fun _ h => List.mem_append_left _ h, ready := fun p hp => ?_ }
      rcases List.mem_or_eq_of_mem_set hp with hp | hp
      · exact .inl hp
      · cases hp
    · next hrunning =>
      refine { CallsMove.refl (.start i) st with ready := fun p _ => ?_ }
      exact .inr (.inl (Bool.eq_false_iff.mpr hrunning))
  · cases hstep
    exact .refl _ st

theorem reactors_move {i : Nat} {err : Option Err}
    (hstep : st.step verify env (.reactors i err) = .ok st') :
    CallsMove st (.reactors i err) st' := by
  simp only [P2p.PeerCalls.State.step] at hstep
  split at hstep <;> cases hstep
  · next peer err hcall =>
    refine { CallsMove.refl (.reactors i (some err)) st with
      ready := fun p hp => .inl (List.mem_of_mem_eraseIdx hp), returned := fun p hp => ?_ }
    rcases List.mem_append.mp hp with hp | hp
    · exact .inl hp
    · cases List.mem_singleton.mp hp
  · next peer hcall =>
    refine { CallsMove.refl (.reactors i none) st with ready := fun p hp => ?_ }
    rcases List.mem_or_eq_of_mem_set hp with hp | hp
    · exact .inl hp
    · cases hp
      exact .inr (.inr ⟨i, rfl, hcall⟩)
  · exact .refl _ st

theorem add_move {i : Nat} (hstep : st.step verify env (.add i) = .ok st') :
    CallsMove st (.add i) st' := by
  simp only [P2p.PeerCalls.State.step] at hstep
  split at hstep <;> cases hstep
  · next peer hcall =>
    refine { CallsMove.refl (.add i) st with
      ready := fun p hp => .inl (List.mem_of_mem_eraseIdx hp), returned := fun p hp => ?_ }
    rcases List.mem_append.mp hp with hp | hp
    · exact .inl hp
    · rw [(Prod.mk.inj (List.mem_singleton.mp hp)).1]
      exact .inr (List.mem_of_getElem? hcall)
  · exact .refl _ st

/-- Every step of the switch moves the calls so. The steps that stop peers leave them alone. -/
theorem calls_move (hstep : st.step verify env e = .ok st') : CallsMove st e st' := by
  cases e with
  | connect outbound remoteAddr challenge authSigMsg handshake now =>
    exact connect_move rfl hstep
  | start i => exact start_move hstep
  | reactors i err => exact reactors_move hstep
  | add i => exact add_move hstep
  | connError peer =>
    simp only [P2p.PeerCalls.State.step] at hstep
    split at hstep <;> (cases hstep; exact { CallsMove.refl (.connError peer) st with })
  | stopPeer peer =>
    simp only [P2p.PeerCalls.State.step] at hstep
    split at hstep <;> (cases hstep; exact { CallsMove.refl (.stopPeer peer) st with })
  | remove j =>
    simp only [P2p.PeerCalls.State.step] at hstep
    split at hstep
    · rw [bind_eq_ok_iff] at hstep
      obtain ⟨peers, -, hst⟩ := hstep
      cases hst
      exact { CallsMove.refl (.remove j) st with }
    · cases hstep
      exact .refl _ st
  | stop j =>
    simp only [P2p.PeerCalls.State.step] at hstep
    split at hstep <;> (cases hstep; exact { CallsMove.refl (.stop j) st with })

end

/-! ### A step of the node -/

section
variable {γ : Type} {env : NodeEnv γ} {sm sm' : SyncManager γ}

/-- A step can leave the calls on the protocol reactor as they are, add one, or move them. -/
inductive NodeMoves (env : NodeEnv γ) (e : SyncManager.Event) (st : Handshakes γ) :
    Handshakes γ → Prop where
  | same : NodeMoves env e st st
  | call (peer : Peer) : NodeMoves env e st (st.call peer)
  | arrive (statuses : List InitalPeerStatus) : NodeMoves env e st (st.arrive statuses)
  | move {e' : Handshakes.Event} {st' : Handshakes γ} {res : Option (Peer × Option Err)}
      (hevent : e = .handshake e') (hmoves : Moves env.peers e' st st' res) : NodeMoves env e st st'

variable {err : Option Err} {e : SyncManager.Event} {st : Handshakes γ}

theorem endInitPeer_handshakes {i : Nat} {peer : Peer}
    (h : sm.endInitPeer env i peer err = .ok sm') :
    sm'.handshakes = sm.handshakes := by
  rw [SyncManager.endInitPeer, bind_eq_ok_iff] at h
  obtain ⟨sw, -, h⟩ := h
  cases h
  rfl

theorem reactorReturned_handshakes {i : Nat} (h : sm.reactorReturned env i err = .ok sm') :
    sm'.handshakes = sm.handshakes := by
  unfold SyncManager.reactorReturned at h
  split at h
  · cases h
    rfl
  · exact endInitPeer_handshakes h
  · cases h
    rfl

/-- What a step of a node does to the calls on the protocol reactor. -/
theorem node_moves (hstep : sm.step env e = .ok sm') :
    NodeMoves env e sm.handshakes sm'.handshakes := by
  unfold SyncManager.step at hstep
  split at hstep
  · cases hstep
    exact .same
  · cases hstep
    exact .same
  · rw [bind_eq_ok_iff] at hstep
    obtain ⟨sw, -, hst⟩ := hstep
    cases hst
    exact .same
  · rw [bind_eq_ok_iff] at hstep
    obtain ⟨sw, -, hst⟩ := hstep
    split at hst
    · split at hst <;> (cases hst; exact .same)
    · cases hst
      exact .same
  · split at hstep
    · rw [reactorReturned_handshakes hstep]
      exact .same
    · cases hstep
      exact .same
  · split at hstep
    · next peer _ _ =>
      cases hstep
      exact .call peer
    · cases hstep
      exact .same
  · split at hstep
    · rw [endInitPeer_handshakes hstep]
      exact .same
    · cases hstep
      exact .same
  · next e' =>
    unfold SyncManager.stepHandshakes at hstep
    split at hstep
    · next handshakes hmove =>
      cases hstep
      exact .move rfl (handshakes_moves hmove)
    · next handshakes peer err hmove =>
      rw [reactorReturned_handshakes hstep]
      exact .move rfl (handshakes_moves hmove)
  · split at hstep
    · rw [bind_eq_ok_iff] at hstep
      obtain ⟨sw, -, hst⟩ := hstep
      cases hst
      exact .arrive _
    · cases hstep
      exact .same

/-! ### The peers of a running node -/

/-- The status came in as a message of a started peer, under the key of that peer. -/
def CameIn (events : List SyncManager.Event) (started : List Peer) (status : InitalPeerStatus) :
    Prop :=
  ∃ src chain orders msgBytes msgType m, .receive src chain orders msgBytes ∈ events ∧
    src ∈ started ∧ decodeMessage msgBytes = .ok ⟨msgType, some (.statusResponse m), none⟩ ∧
    status = ⟨src.key, m.height, newHash m.rawHash, newHash m.genesisHash⟩

/-- A call of `startInitPeer`. The protocol reactor is called when it is first, and where it is
not left its `AddPeer` has returned nil. -/
structure InitInv (started : List Peer) (returned : List (Peer × Option Err)) (c : InitCall) :
    Prop where
  started : c.peer ∈ started
  called : c.called = true → c.left.head? = some .protocol
  left : .protocol ∈ c.left ∨ (c.peer, none) ∈ returned

/-- The invariant of a node that runs. -/
structure NodeInv (env : NodeEnv γ) (pr : ProtocolReactor) (events : List SyncManager.Event)
    (sm : SyncManager γ) : Prop where
  calls : CallsInv sm.sw
  book : RepInv env.switch.book sm.sw.sw.addrBook
  running : sm.sw.sw.running = true
  handshakes : HandshakesInv env.peers pr (· ∈ sm.sw.started) (CameIn events sm.sw.started)
    sm.handshakes
  inits : ∀ c ∈ sm.inits, InitInv sm.sw.started sm.handshakes.returned c
  ready : ∀ p, ⟨p, .ready⟩ ∈ sm.sw.adding → (p, none) ∈ sm.handshakes.returned
  returned : ∀ p, (p, none) ∈ sm.sw.returned → (p, none) ∈ sm.handshakes.returned

variable {pr : ProtocolReactor} {events : List SyncManager.Event}

theorem CameIn.mono {started started' : List Peer} {status : InitalPeerStatus}
    (h : CameIn events started status) (hsub : started ⊆ started') :
    CameIn events started' status := by
  obtain ⟨src, chain, orders, msgBytes, msgType, m, hevent, hsrc, hrest⟩ := h
  exact ⟨src, chain, orders, msgBytes, msgType, m, hevent, hsub hsrc, hrest⟩

theorem InitInv.mono {started started' : List Peer} {returned returned' : List (Peer × Option Err)}
    {c : InitCall} (h : InitInv started returned c) (hstarted : started ⊆ started')
    (hreturned : returned ⊆ returned') : InitInv started' returned' c :=
  ⟨hstarted h.started, h.called, h.left.imp_right fun hc => hreturned hc⟩

/-- The switch moves. A peer that the reactors are through with has passed the handshake. -/
theorem NodeInv.switch (h : NodeInv env pr events sm) {e : P2p.PeerCalls.Event}
    (hready : ∀ i p, e = .reactors i none → sm.sw.adding[i]? = some ⟨p, .started⟩ →
      (p, none) ∈ sm.handshakes.returned) :
    ∃ sw, sm.sw.step env.verify env.switch e = .ok sw ∧ NodeInv env pr events { sm with sw } := by
  obtain ⟨sw, hstep, hbook⟩ : ∃ sw, sm.sw.step env.verify env.switch e = .ok sw ∧
      RepInv env.switch.book sw.sw.addrBook := calls_step_ok h.calls h.book e
  have hmove := calls_move hstep
  refine ⟨sw, hstep, calls_step_inv h.calls hstep, hbook, hmove.running.trans h.running, ?_,
    fun c hc => (h.inits c hc).mono hmove.started (List.Subset.refl _), fun p hp => ?_,
    fun p hp => ?_⟩
  · exact h.handshakes.mono (fun _ hp => hmove.started hp) fun _ hs => hs.mono hmove.started
  · rcases hmove.ready p hp with hp | hstopped | ⟨i, he, hcall⟩
    · exact h.ready p hp
    · rw [h.running] at hstopped
      cases hstopped
    · exact hready i p he hcall
  · rcases hmove.returned p hp with hp | hp
    · exact h.returned p hp
    · exact h.ready p hp

/-- The protocol reactor moves. -/
theorem NodeInv.reactor (h : NodeInv env pr events sm)
    (hst : HandshakesInv env.peers pr (· ∈ sm.sw.started) (CameIn events sm.sw.started) st)
    (hreturned : sm.handshakes.returned ⊆ st.returned) :
    NodeInv env pr events { sm with handshakes := st } :=
  { h with
    handshakes := hst
    inits := fun c hc => (h.inits c hc).mono (List.Subset.refl _) hreturned
    ready := fun p hp => hreturned (h.ready p hp)
    returned := fun p hp => hreturned (h.returned p hp) }

theorem NodeInv.endInitPeer (h : NodeInv env pr events sm) (i : Nat) {peer : Peer}
    (herr : err = none → (peer, none) ∈ sm.handshakes.returned) :
    ∃ sm', sm.endInitPeer env i peer err = .ok sm' ∧ NodeInv env pr events sm' := by
  obtain ⟨sw, hstep, hinv⟩ := h.switch
    (e := .reactors (sm.sw.adding.idxOf ⟨peer, .started⟩) err) fun k p he hcall => by
      obtain ⟨rfl, rfl⟩ := P2p.PeerCalls.Event.reactors.inj he
      -- The place is the one of the peer itself.
      obtain ⟨hlt, hget⟩ := List.getElem?_eq_some_iff.mp hcall
      rw [List.getElem_idxOf hlt] at hget
      cases hget
      exact herr rfl
  refine ⟨{ sm with sw, inits := sm.inits.eraseIdx i }, ?_, ?_⟩
  · rw [SyncManager.endInitPeer, hstep]
    rfl
  · exact { hinv with inits := fun c hc => hinv.inits c (List.mem_of_mem_eraseIdx hc) }

theorem NodeInv.reactorReturned (h : NodeInv env pr events sm) (i : Nat)
    (hleft : ∀ c, sm.inits[i]? = some c → err = none → .protocol ∈ c.left.tail ∨ (c.peer, none) ∈
      sm.handshakes.returned) :
    ∃ sm', sm.reactorReturned env i err = .ok sm' ∧ NodeInv env pr events sm' := by
  unfold SyncManager.reactorReturned
  split
  · exact ⟨sm, rfl, h⟩
  · next c err hc => exact h.endInitPeer i nofun
  · next c hc =>
    refine ⟨_, rfl, { h with inits := fun d hd => ?_ }⟩
    rcases List.mem_or_eq_of_mem_set hd with hd | rfl
    · exact h.inits d hd
    · exact ⟨(h.inits c (List.mem_of_getElem? hc)).started, nofun, hleft c hc rfl⟩

theorem mem_statuses {actions : List Action} {status : InitalPeerStatus} :
    status ∈ SyncManager.statuses actions ↔ .peerStatus status ∈ actions := by
  rw [SyncManager.statuses, List.mem_filterMap]
  constructor
  · rintro ⟨action, hmem, haction⟩
    split at haction
    · cases haction
      exact hmem
    · cases haction
  · exact fun hmem => ⟨_, hmem, rfl⟩

/-- `peer.Start()`: a call of `startInitPeer` begins, with both reactors to go. -/
theorem NodeInv.start (h : NodeInv env pr events sm) (i : Nat) (order : IterOrder ReactorName) :
    ∃ sm', sm.step env (.start i order) = .ok sm' ∧ NodeInv env pr events sm' := by
  obtain ⟨sw, hstep, hinv⟩ := h.switch (e := .start i) fun _ _ he' => by cases he'
  simp only [SyncManager.step, hstep, bind, Except.bind]
  split
  · next peer hcall =>
    have hpeer : peer ∈ sw.started := by
      simp only [P2p.PeerCalls.State.step, hcall, if_pos h.running] at hstep
      cases hstep
      exact List.mem_append_right _ List.mem_cons_self
    rw [if_pos h.running]
    refine ⟨_, rfl, { hinv with inits := fun c hc => ?_ }⟩
    rcases List.mem_append.mp hc with hc | hc
    · exact hinv.inits c hc
    · rw [List.mem_singleton.mp hc]
      exact ⟨hpeer, fun hcalled => absurd hcalled Bool.false_ne_true,
        .inl ((order.perm _).mem_iff.mpr (by decide))⟩
  · exact ⟨_, rfl, hinv⟩

theorem NodeInv.pexAddPeer (h : NodeInv env pr events sm) (i : Nat) (err : Option Err) :
    ∃ sm', sm.step env (.pexAddPeer i err) = .ok sm' ∧ NodeInv env pr events sm' := by
  simp only [SyncManager.step]
  split
  · next peer left hc =>
    refine h.reactorReturned i fun c hc' _ => ?_
    obtain rfl := Option.some.inj (hc.symm.trans hc')
    have hleft := (h.inits _ (List.mem_of_getElem? hc)).left
    simpa using hleft
  · exact ⟨sm, rfl, h⟩

/-- The call is queued with a peer that was started. -/
theorem NodeInv.protocolAddPeer (h : NodeInv env pr events sm) (i : Nat) :
    ∃ sm', sm.step env (.protocolAddPeer i) = .ok sm' ∧ NodeInv env pr events sm' := by
  simp only [SyncManager.step]
  split
  · next peer left hc =>
    have hcall := h.inits _ (List.mem_of_getElem? hc)
    have hinv : NodeInv env pr events { sm with handshakes := sm.handshakes.call peer } := by
      refine h.reactor { h.handshakes with queued := fun p hp => ?_ } (List.Subset.refl _)
      rcases List.mem_append.mp hp with hp | hp
      · exact h.handshakes.queued p hp
      · rw [List.mem_singleton.mp hp]
        exact hcall.started
    refine ⟨_, rfl, { hinv with inits := fun c hmem => ?_ }⟩
    rcases List.mem_or_eq_of_mem_set hmem with hmem | rfl
    · exact h.inits c hmem
    · exact ⟨hcall.started, fun _ => rfl, hcall.left⟩
  · exact ⟨sm, rfl, h⟩

theorem NodeInv.stepHandshakes (h : NodeInv env pr events sm) (e : Handshakes.Event) :
    ∃ sm', sm.stepHandshakes env e = .ok sm' ∧ NodeInv env pr events sm' := by
  unfold SyncManager.stepHandshakes
  split
  · next st hmove =>
    have hmoves := handshakes_moves hmove
    exact ⟨_, rfl, h.reactor (h.handshakes.step hmoves) hmoves.returned_subset⟩
  · next st peer err hmove =>
    have hmoves := handshakes_moves hmove
    have hinv := h.reactor (h.handshakes.step hmoves) hmoves.returned_subset
    refine hinv.reactorReturned _ fun c hc herr => .inr ?_
    subst herr
    -- The call that goes on is the one of this peer.
    obtain ⟨hlt, hget⟩ := List.getElem?_eq_some_iff.mp hc
    have hfound := List.findIdx_getElem (w := hlt)
    rw [hget, decide_eq_true_eq] at hfound
    rw [hfound.1]
    exact hmoves.returned_nil

theorem NodeInv.recover (h : NodeInv env pr events sm) (src : Peer) (panic : Option Panic) :
    ∃ sw, sm.recover env src panic = .ok sw ∧ sm.sw.started ⊆ sw.started ∧
      NodeInv env pr events { sm with sw } := by
  cases panic with
  | none => exact ⟨sm.sw, rfl, List.Subset.refl _, h⟩
  | some panic =>
    obtain ⟨sw, hstep, hinv⟩ := h.switch (e := .connError src) fun _ _ he' => by cases he'
    exact ⟨sw, hstep, (calls_move hstep).started, hinv⟩

/-- A message: a status waits at the channel, and a panic stops the peer. -/
theorem NodeInv.receive (h : NodeInv env pr events sm) {src : Peer} {chain : ChainView}
    {orders : Nat → Nat → Types.MapTxOrders} {msgBytes : List UInt8}
    (he : .receive src chain orders msgBytes ∈ events) :
    ∃ sm', sm.step env (.receive src chain orders msgBytes) = .ok sm' ∧
      NodeInv env pr events sm' := by
  simp only [SyncManager.step]
  split
  · next hsrc =>
    obtain ⟨sw, hrecover, hsub, hinv⟩ := h.recover src
      (sm.handshakes.pr.receive env.receive chain orders src.key msgBytes).panic
    simp only [hrecover, bind, Except.bind]
    refine ⟨_, rfl, hinv.reactor { hinv.handshakes with receiving := fun s hs => ?_ }
      (List.Subset.refl _)⟩
    rcases List.mem_append.mp hs with hs | hs
    · exact hinv.handshakes.receiving s hs
    · obtain ⟨msgType, m, hdecode, hstatus⟩ := receive_peerStatus (mem_statuses.mp hs)
      exact ⟨src, chain, orders, msgBytes, msgType, m, he, hsub hsrc, hdecode, hstatus⟩
  · exact ⟨sm, rfl, h⟩

/-- Every step goes through and keeps the invariant. -/
theorem NodeInv.step (h : NodeInv env pr events sm) (he : e ∈ events) :
    ∃ sm', sm.step env e = .ok sm' ∧ NodeInv env pr events sm' := by
  unfold SyncManager.step
  split
  · exact ⟨sm, rfl, h⟩
  · exact ⟨sm, rfl, h⟩
  · next e' _ hnot =>
    obtain ⟨sw, hstep, hinv⟩ := h.switch (e := e') fun i p he' => absurd he' (hnot i none)
    rw [hstep]
    exact ⟨_, rfl, hinv⟩
  · exact h.start _ _
  · exact h.pexAddPeer _ _
  · exact h.protocolAddPeer _
  · split
    · next peer called hc =>
      refine h.endInitPeer _ fun _ => ?_
      simpa using (h.inits _ (List.mem_of_getElem? hc)).left
    · exact ⟨sm, rfl, h⟩
  · exact h.stepHandshakes _
  · exact h.receive he

/-- A new node has no calls and no peers. -/
theorem nodeInv_fresh (nodeInfo : NodeInfo) {addrBook : Pex.AddrBook} (peers : γ)
    (hbook : RepInv env.switch.book addrBook) :
    NodeInv env pr events (.fresh nodeInfo true addrBook pr peers) where
  calls := callsInv_fresh nodeInfo true addrBook
  book := hbook
  running := rfl
  handshakes :=
    { pr_eq := rfl
      queued := fun _ h => nomatch h
      holder := fun _ _ h => nomatch h
      receiving := fun _ h => nomatch h
      registered := fun _ _ h => nomatch h
      returned := fun _ h => nomatch h }
  inits _ h := nomatch h
  ready _ h := nomatch h
  returned _ h := nomatch h

/-- A run keeps the invariant, and what the moves of the protocol reactor keep. -/
theorem NodeInv.run {Q : Handshakes γ → Prop} {inputs : List SyncManager.Event}
    (h : NodeInv env pr events sm) (hsub : inputs ⊆ events) (hq : Q sm.handshakes)
    (hmoves : ∀ e ∈ inputs, ∀ st st', Q st → NodeMoves env e st st' → Q st') :
    ∃ sm', sm.run env inputs = .ok sm' ∧ NodeInv env pr events sm' ∧ Q sm'.handshakes := by
  refine foldlM_succeeds (P := fun sm => NodeInv env pr events sm ∧ Q sm.handshakes)
    (fun sm e he h => ?_) ⟨h, hq⟩
  obtain ⟨sm', hstep, h'⟩ := h.1.step (hsub he)
  exact ⟨sm', hstep, h', hmoves e he _ _ h.2 (node_moves hstep)⟩

theorem NodeInv.registered (h : NodeInv env pr events sm) {p : Peer}
    (hp : p ∈ sm.sw.sw.peers.list) : (p, none) ∈ sm.handshakes.returned :=
  h.returned p (h.calls.registered p hp)

/-- The peers of a running node. After every run a peer that the protocol reactor has registered is
a started one, and a message with its status has come in under its key, with the genesis block of
the node. Every peer of the switch was registered so. -/
theorem peers_share_genesis (env : NodeEnv γ) (nodeInfo : NodeInfo) (addrBook : Pex.AddrBook)
    (pr : ProtocolReactor) (peers : γ) (events : List SyncManager.Event)
    (hbook : RepInv env.switch.book addrBook) :
    ∃ sm, (SyncManager.fresh nodeInfo true addrBook pr peers).run env events = .ok sm ∧
      (∀ p s, (p, s) ∈ sm.handshakes.registered → p ∈ sm.sw.started ∧ s.peerID = p.key ∧
        env.peers.string pr.genesisHash = env.peers.string s.genesisHash ∧
        CameIn events sm.sw.started s) ∧
      ∀ p ∈ sm.sw.sw.peers.list, ∃ s, (p, s) ∈ sm.handshakes.registered := by
  obtain ⟨sm, hrun, h, -⟩ := (nodeInv_fresh nodeInfo peers hbook).run (Q := fun _ => True)
    (List.Subset.refl events) trivial fun _ _ _ _ _ _ => trivial
  exact ⟨sm, hrun, h.handshakes.registered, fun p hp => h.handshakes.returned p (h.registered hp)⟩

/-! ### Without the syncer -/

/-- The call for `p` has `handshakeMu` and waits with its announcement. Nothing was registered and
no call returned since `st`, and whoever waited then still waits. -/
structure Blocked (p : Peer) (st st' : Handshakes γ) : Prop where
  holder : ∃ phase, st'.holder = some (p, phase) ∧ Announces phase
  queued : st.queued <+: st'.queued
  receiving : st.receiving <+: st'.receiving
  registered : st'.registered = st.registered
  returned : st'.returned = st.returned

/-- Without the syncer the holder of the lock keeps it. -/
theorem Blocked.step {p : Peer} {st' st'' : Handshakes γ} (h : Blocked p st st')
    (he : e ≠ .handshake .takeNewPeer) (hmoves : NodeMoves env e st' st'') : Blocked p st st'' := by
  obtain ⟨phase, hholder, hann⟩ := h.holder
  cases hmoves with
  | same => exact h
  | call peer => exact { h with queued := h.queued.trans (List.prefix_append _ _) }
  | arrive statuses => exact { h with receiving := h.receiving.trans (List.prefix_append _ _) }
  | move hevent hmoves =>
    cases hmoves with
    | idle peers => exact { h with }
    | lock hfree hcall =>
      rw [hholder] at hfree
      cases hfree
    | drop hwaiting =>
      rw [hholder] at hwaiting
      cases hwaiting
      exact hann.elim
    | register hwaiting hstatus hkey hgenesis =>
      rw [hholder] at hwaiting
      cases hwaiting
      exact hann.elim
    | advance peers hphase hne hne' hstays =>
      rw [hholder] at hphase
      cases hphase
      exact { h with holder := ⟨_, rfl, hstays hann⟩ }
    | fail hqueued hreceiving hnot => exact absurd hann (hnot _ _ hholder)
    | accept htake hphase =>
      rw [htake] at hevent
      exact absurd hevent he

/-- Without the syncer no call of `AddPeer` returns nil. -/
theorem returned_step {st' : Handshakes γ} (h : ∀ p, (p, none) ∉ st.returned)
    (he : e ≠ .handshake .takeNewPeer) (hmoves : NodeMoves env e st st') :
    ∀ p, (p, none) ∉ st'.returned := by
  cases hmoves with
  | same => exact h
  | call peer => exact h
  | arrive statuses => exact h
  | move hevent hmoves =>
    cases hmoves with
    | fail hqueued hreceiving hnot =>
      intro p hp
      rcases List.mem_append.mp hp with hp | hp
      · exact h p hp
      · cases List.mem_singleton.mp hp
    | accept htake hphase =>
      rw [htake] at hevent
      exact absurd hevent he
    | _ => exact h

/-- A running node whose `syncer` was not started, as `SyncManager.Start` leaves it. In every run
the switch has no peer, and `AddPeer` of the switch returns nil for none. Once an `AddPeer` of the
protocol reactor gets to announcing its peer, it has `handshakeMu` for good: no other call gets it,
no further peer is registered, and no `Receive` that waits with a status goes on. -/
theorem no_peer_without_syncer (env : NodeEnv γ) (nodeInfo : NodeInfo) (addrBook : Pex.AddrBook)
    (pr : ProtocolReactor) (peers : γ) (events later : List SyncManager.Event)
    (hbook : RepInv env.switch.book addrBook)
    (hstarved : ∀ e ∈ events ++ later, e ≠ .handshake .takeNewPeer) :
    ∃ sm sm', (SyncManager.fresh nodeInfo true addrBook pr peers).run env events = .ok sm ∧
      sm.run env later = .ok sm' ∧ sm.sw.sw.peers.list = [] ∧ (∀ p, (p, none) ∉ sm.sw.returned) ∧
      ∀ p phase, sm.handshakes.holder = some (p, phase) → Announces phase →
        Blocked p sm.handshakes sm'.handshakes := by
  have hfresh : NodeInv env pr (events ++ later) (.fresh nodeInfo true addrBook pr peers) :=
    nodeInv_fresh nodeInfo peers hbook
  obtain ⟨sm, hrun, h, hnil⟩ := hfresh.run (Q := fun st => ∀ p, (p, none) ∉ st.returned)
    (List.subset_append_left events later) (fun _ hp => nomatch hp)
    fun e he _ _ hq => returned_step hq (hstarved e (List.mem_append_left _ he))
  -- From the state between the two parts on the call that announces its peer stays where it is.
  obtain ⟨sm', hrun', -, hblocked⟩ := h.run
    (Q := fun st => ∀ p phase, sm.handshakes.holder = some (p, phase) → Announces phase →
      Blocked p sm.handshakes st)
    (List.subset_append_right events later)
    (fun p phase hholder hann =>
      ⟨⟨phase, hholder, hann⟩, List.prefix_rfl, List.prefix_rfl, rfl, rfl⟩)
    fun e he _ _ hq hmoves p phase hholder hann =>
      (hq p phase hholder hann).step (hstarved e (List.mem_append_right _ he)) hmoves
  refine ⟨sm, sm', hrun, hrun', ?_, fun p hp => hnil p (h.returned p hp), hblocked⟩
  exact List.eq_nil_iff_forall_not_mem.mpr fun p hp => hnil p (h.registered hp)

end

/-! ### A node with one peer -/

/-- The registered peers are their keys. -/
def plainNodeEnv : NodeEnv (List Str) where
  verify := keySignature
  switch := localEnv
  receive := plainReceiveEnv
  peers :=
    { string := Hash.bytes
      addPeer := fun ps peer => peer.key :: ps
      setPeerStatus := fun ps _ _ _ => ps
      isRegistered := fun ps key => ps.contains key
      removePeer := fun ps key => ps.filter (· ≠ key) }

/-- A node whose genesis block has the zero hash. -/
def plainNode : SyncManager (List Str) :=
  .fresh (nodeOf 1) true (Pex.newAddrBook false []) ⟨Hash.zero, false⟩ []

/-- The status of a node at height 5 that has the same genesis block. -/
def plainStatus : BlockchainMessage :=
  .statusResponse ⟨5, Hash.zero.byte32, Hash.zero.byte32⟩

/-- The holder of key 2 connects, and the protocol reactor asks it for its status and registers
it. -/
def handshakeEvents : List SyncManager.Event :=
  [.switch (dialsIn 2), .start 0 ⟨List.reverse, fun _ => List.reverse_perm _⟩, .protocolAddPeer 0,
    .handshake (.lock 0 true),
    .receive (dialedPeer 0 2) emptyChain (fun _ _ => idOrders) plainStatus.binaryBytes,
    .handshake (.status 0), .handshake .setPeerStatus, .handshake (.peer true),
    .handshake .takeTxSync]

/-- The syncer takes the announcement, and the peer gets into the switch. -/
def syncerEvents : List SyncManager.Event :=
  [.handshake .takeNewPeer, .pexAddPeer 0 none, .endInit 0, .switch (.add 0)]

/-- With the syncer the peer gets into the table of the switch. -/
theorem plainNode_registers :
    ∃ sm, plainNode.run plainNodeEnv (handshakeEvents ++ syncerEvents) = .ok sm ∧
      dialedPeer 0 2 ∈ sm.sw.sw.peers.list ∧
      ∃ s, (dialedPeer 0 2, s) ∈ sm.handshakes.registered ∧ s.peerID = (dialedPeer 0 2).key ∧
        CameIn (handshakeEvents ++ syncerEvents) sm.sw.started s := by
  obtain ⟨sm, hrun, hregistered, hpeers⟩ := peers_share_genesis plainNodeEnv (nodeOf 1)
    (Pex.newAddrBook false []) ⟨Hash.zero, false⟩ [] (handshakeEvents ++ syncerEvents)
    (repInv_new _ _ _)
  have hmem : ∃ sm, plainNode.run plainNodeEnv (handshakeEvents ++ syncerEvents) = .ok sm ∧
      dialedPeer 0 2 ∈ sm.sw.sw.peers.list := ⟨_, rfl, by decide⟩
  obtain ⟨sm₁, hrun₁, hmem⟩ := hmem
  obtain rfl : sm₁ = sm := Except.ok.inj (hrun₁.symm.trans hrun)
  obtain ⟨s, hs⟩ := hpeers _ hmem
  obtain ⟨-, hkey, -, hcame⟩ := hregistered _ s hs
  exact ⟨sm₁, hrun, hmem, s, hs, hkey, hcame⟩

/-- Without the syncer a second peer connects, and its `AddPeer` is called. -/
def secondEvents : List SyncManager.Event :=
  [.switch (dialsIn 3), .start 1 ⟨List.reverse, fun _ => List.reverse_perm _⟩, .protocolAddPeer 1,
    .handshake (.lock 0 true), .handshake .handshakeWait]

/-- The first peer waits in `newPeerCh`, and the second never gets its turn. -/
theorem plainNode_blocked :
    ∃ sm sm', plainNode.run plainNodeEnv handshakeEvents = .ok sm ∧
      sm.run plainNodeEnv secondEvents = .ok sm' ∧ sm.sw.sw.peers.list = [] ∧
      Blocked (dialedPeer 0 2) sm.handshakes sm'.handshakes := by
  have hstarved : ∀ e ∈ handshakeEvents ++ secondEvents, e ≠ .handshake .takeNewPeer := by
    simp [handshakeEvents, secondEvents]
  obtain ⟨sm, sm', hrun, hrun', hempty, -, hblocked⟩ := no_peer_without_syncer plainNodeEnv
    (nodeOf 1) (Pex.newAddrBook false []) ⟨Hash.zero, false⟩ [] handshakeEvents secondEvents
    (repInv_new _ _ _) hstarved
  have hholder : ∃ sm, plainNode.run plainNodeEnv handshakeEvents = .ok sm ∧
      sm.handshakes.holder = some (dialedPeer 0 2, .newPeer) := ⟨_, rfl, by decide⟩
  obtain ⟨sm₁, hrun₁, hholder⟩ := hholder
  obtain rfl : sm₁ = sm := Except.ok.inj (hrun₁.symm.trans hrun)
  exact ⟨sm₁, sm', hrun, hrun', hempty, hblocked _ _ hholder trivial⟩

end BtmStats.Proofs.Netsync
