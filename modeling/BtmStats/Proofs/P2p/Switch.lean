import BtmStats.Proofs.P2p.PeerSet
import BtmStats.Proofs.Pex.Runs
import BtmStats.Spec.P2p.Switch

/-!
# `BtmStats.Proofs.P2p.Switch`: under which key a peer is registered

A peer has two keys: the one that signed the challenge of its connection and the one in
its node info. `AddPeer` compares the first with the own key of the node, and uses the
second as the `Key` of the peer, for the check for duplicates and for the table. No step
compares the two. So a peer is filed under the key that it holds exactly when it sent
this key in its node info.
-/

set_option autoImplicit false

namespace BtmStats.Proofs.P2p

open Lib Spec Spec.P2p Spec.P2p.Switch
open Proofs.Pex (RepInv)

/-! ### Keys -/

theorem fromHexChar_upperDigit {n : UInt8} (hn : n.toNat < 16) :
    Hex.fromHexChar (Hex.upperDigit n) = some n := by
  have hall : ∀ k : Fin 16, Hex.fromHexChar (Hex.upperDigit (UInt8.ofNat k.1)) =
      some (UInt8.ofNat k.1) := by decide
  have h := hall ⟨n.toNat, hn⟩
  rwa [UInt8.ofNat_toNat] at h

theorem decode_formatUpper (bytes : List UInt8) :
    Hex.decode (Hex.formatUpper bytes) = (bytes, none) := by
  induction bytes with
  | nil => rfl
  | cons b bytes ih =>
    -- The two digits of the byte are read back, and put together again.
    have hhi : Hex.fromHexChar (Hex.upperDigit (b / 16)) = some (b / 16) :=
      fromHexChar_upperDigit (by
        have := b.toNat_lt
        rw [UInt8.toNat_div]
        exact Nat.div_lt_of_lt_mul this)
    have hlo : Hex.fromHexChar (Hex.upperDigit (b % 16)) = some (b % 16) :=
      fromHexChar_upperDigit (by
        rw [UInt8.toNat_mod]
        exact Nat.mod_lt _ (by decide))
    have hb : b / 16 * 16 + b % 16 = b := by
      have := b.toNat_lt
      apply UInt8.toNat_inj.mp
      rw [UInt8.toNat_add, UInt8.toNat_mul, UInt8.toNat_div, UInt8.toNat_mod]
      show (b.toNat / 16 * 16 % 256 + b.toNat % 16) % 256 = b.toNat
      omega
    show Hex.decode (_ :: _ :: Hex.formatUpper bytes) = _
    rw [Hex.decode, hhi, hlo, ih]
    show ((b / 16 * 16 + b % 16) :: bytes, none) = _
    rw [hb]

/-- Two keys have two key strings. -/
theorem keyString_inj {a b : PubKey} (h : keyString a = keyString b) : a = b := by
  have hdec := congrArg (fun s => (Hex.decode s).1) h
  simp only [keyString, decode_formatUpper] at hdec
  exact Subtype.ext hdec

/-! ### Adding a peer -/

section
variable {verify : Verify} {env : SwitchEnv} {sw : Switch} {pc : PeerConn} {auth : AuthConn}

/-- The connection ran the handshake of `MakeSecretConnection`, and the other end signed
the challenge with the key of `auth`. -/
structure Authenticated (verify : Verify) (pc : PeerConn) (auth : AuthConn) : Prop where
  authEnc : pc.authEnc = true
  conn : pc.conn.auth = some auth
  signed : verify auth.remPubKey auth.challenge.1 auth.sig = true

theorem authenticated_of_newPeerConn {outbound : Bool} {remoteAddr : Str}
    {challenge : FixedBytes 32} {authSigMsg : AuthSigMsg}
    (h : newPeerConn verify outbound true remoteAddr challenge authSigMsg = .ok pc) :
    ∃ auth, Authenticated verify pc auth ∧ auth.remPubKey = authSigMsg.key := by
  unfold newPeerConn authenticate at h
  by_cases hsig : verify authSigMsg.key challenge.1 authSigMsg.sig = true
  · simp only [hsig] at h
    cases h
    exact ⟨_, ⟨rfl, rfl, hsig⟩, rfl⟩
  · simp [hsig] at h

theorem Authenticated.pubKey (h : Authenticated verify pc auth) (addr : Nat) (info : NodeInfo) :
    (newPeer addr pc info).pubKey = .ok auth.remPubKey := by
  simp only [Peer.pubKey, newPeer, h.authEnc, h.conn, if_true]

theorem storeBans_frame (env : SwitchEnv) (sw : Switch) (bans : BanMap) :
    (sw.storeBans env bans).1.peers = sw.peers ∧
      (sw.storeBans env bans).1.addrBook = sw.addrBook := by
  unfold storeBans
  split <;> exact ⟨rfl, rfl⟩

/-- The check for a ban touches only the bans. -/
theorem checkBannedPeer_frame (env : SwitchEnv) (sw : Switch) (now : Int) (host : Str) :
    (sw.checkBannedPeer env now host).1.peers = sw.peers ∧
      (sw.checkBannedPeer env now host).1.addrBook = sw.addrBook := by
  unfold checkBannedPeer
  split
  · exact ⟨rfl, rfl⟩
  · split
    · exact ⟨rfl, rfl⟩
    · exact storeBans_frame env sw _

variable {peer : Peer} {sw' : Switch}

theorem addrBookDelSelf_peers (h : sw.addrBookDelSelf env = .ok sw') : sw'.peers = sw.peers := by
  unfold addrBookDelSelf at h
  split at h
  · cases h
    rfl
  · rw [bind_eq_ok_iff] at h
    obtain ⟨book, -, hsw⟩ := h
    cases hsw
    rfl

/-- The check of a peer leaves the registered peers as they are. The peer is a duplicate
only under the key of its node info. -/
theorem filterConnByPeer_peers {now : Int} {err : Option Err}
    (h : sw.filterConnByPeer env now peer = .ok (sw', err)) :
    sw'.peers = sw.peers ∧
      (err = some RootErr.errDuplicatePeer.err → sw.peers.has peer.key = true) := by
  obtain ⟨hpeers, -⟩ := checkBannedPeer_frame env sw now (env.splitHost peer.nodeInfo.remoteAddr)
  unfold filterConnByPeer at h
  rcases hban : sw.checkBannedPeer env now (env.splitHost peer.nodeInfo.remoteAddr) with
    ⟨sw₁, banned⟩
  rw [hban] at h hpeers
  cases banned with
  | some e =>
    cases h
    exact ⟨hpeers, nofun⟩
  | none =>
    dsimp only at h
    rw [bind_eq_ok_iff] at h
    obtain ⟨key, -, h⟩ := h
    split at h
    · -- The own key: the address book forgets the own address.
      rw [bind_eq_ok_iff] at h
      obtain ⟨sw₂, hself, h⟩ := h
      cases h
      exact ⟨(addrBookDelSelf_peers hself).trans hpeers, nofun⟩
    · split at h
      next hdup =>
        cases h
        exact ⟨hpeers, fun _ => by rw [← hdup, ← hpeers]⟩
      next =>
        cases h
        exact ⟨hpeers, nofun⟩

/-- What `AddPeer` makes of a connection: at most a peer of this connection, with the key
of the node info that was sent. -/
theorem addPeerCheck_made {now : Int} {addr : Nat} {handshake : Handshake} {res : Except Err Peer}
    (h : sw.addPeerCheck env now addr pc handshake = .ok (sw', res)) :
    sw'.peers = sw.peers ∧ ∀ peer ∈ res.toOption, ∃ info, peer = newPeer addr pc info ∧
      info.pubKey = handshake.sent.pubKey := by
  unfold addPeerCheck at h
  cases hinfo : handshakeTimeout pc handshake with
  | error e =>
    rw [hinfo] at h
    cases h
    exact ⟨rfl, fun _ h => nomatch h⟩
  | ok info =>
    -- The handshake changes the remote address only.
    have hsent : info.pubKey = handshake.sent.pubKey := by
      unfold handshakeTimeout at hinfo
      split at hinfo
      · cases hinfo
      · split at hinfo
        · cases hinfo
        · cases hinfo; rfl
    rw [hinfo] at h
    dsimp only at h
    split at h
    · cases h
      exact ⟨rfl, fun _ h => nomatch h⟩
    · rw [bind_eq_ok_iff] at h
      obtain ⟨⟨sw₁, err⟩, hfilter, h⟩ := h
      obtain ⟨hpeers, -⟩ := filterConnByPeer_peers hfilter
      cases err with
      | some e =>
        cases h
        exact ⟨hpeers, fun _ h => nomatch h⟩
      | none =>
        cases h
        refine ⟨hpeers, fun peer hpeer => ?_⟩
        cases hpeer
        exact ⟨info, rfl, hsent⟩

/-! ### No panic

The address book is the only part that can panic: a call on a book that breaks its
invariant may follow a stale reference. -/

theorem addrBookDelSelf_ok (hbook : RepInv env.book sw.addrBook) :
    ∃ sw', sw.addrBookDelSelf env = .ok sw' ∧ RepInv env.book sw'.addrBook := by
  unfold addrBookDelSelf
  cases env.newNetAddress sw.nodeInfo.listenAddr with
  | none => exact ⟨sw, rfl, hbook⟩
  | some addr =>
    obtain ⟨book, hrun, hbook₁, -⟩ := Pex.step_spec hbook (.removeAddress addr)
    obtain ⟨book', hour, hbook₂, -⟩ := Pex.step_spec hbook₁ (.addOurAddress addr)
    cases hour
    refine ⟨{ sw with addrBook := book.addOurAddress env.book addr }, ?_, hbook₂⟩
    show (sw.addrBook.removeAddress env.book addr >>= _) = _
    rw [show sw.addrBook.removeAddress env.book addr = .ok book from hrun]
    rfl

/-- The filter does not panic on an authenticated connection. -/
theorem filterConnByPeer_ok (hbook : RepInv env.book sw.addrBook) {key : PubKey}
    (hkey : peer.pubKey = .ok key) (now : Int) :
    ∃ sw' err, sw.filterConnByPeer env now peer = .ok (sw', err) ∧
      RepInv env.book sw'.addrBook := by
  obtain ⟨-, hsame⟩ := checkBannedPeer_frame env sw now (env.splitHost peer.nodeInfo.remoteAddr)
  unfold filterConnByPeer
  rcases hban : sw.checkBannedPeer env now (env.splitHost peer.nodeInfo.remoteAddr) with
    ⟨sw₁, banned⟩
  rw [hban] at hsame
  have hbook₁ : RepInv env.book sw₁.addrBook := by rw [hsame]; exact hbook
  cases banned with
  | some e => exact ⟨sw₁, _, rfl, hbook₁⟩
  | none =>
    simp only [hkey, bind, Except.bind]
    by_cases hself : sw₁.nodeInfo.pubKey = key
    · obtain ⟨sw', hrun, hbook'⟩ := addrBookDelSelf_ok hbook₁
      rw [if_pos hself, hrun]
      exact ⟨sw', _, rfl, hbook'⟩
    · rw [if_neg hself]
      by_cases hdup : sw₁.peers.has peer.key = true
      · rw [if_pos hdup]
        exact ⟨sw₁, _, rfl, hbook₁⟩
      · rw [if_neg hdup]
        exact ⟨sw₁, _, rfl, hbook₁⟩

/-- The checks of `AddPeer` do not panic. -/
theorem addPeerCheck_ok (hbook : RepInv env.book sw.addrBook)
    (hauth : Authenticated verify pc auth) (now : Int) (addr : Nat) (handshake : Handshake) :
    ∃ sw' res, sw.addPeerCheck env now addr pc handshake = .ok (sw', res) ∧
      RepInv env.book sw'.addrBook := by
  unfold addPeerCheck
  cases handshakeTimeout pc handshake with
  | error e => exact ⟨sw, .error e, rfl, hbook⟩
  | ok info =>
    dsimp only
    cases sw.nodeInfo.compatibleWith info with
    | error e => exact ⟨sw, .error e, rfl, hbook⟩
    | ok _ =>
      obtain ⟨sw', err, hrun, hbook'⟩ :=
        filterConnByPeer_ok hbook (hauth.pubKey addr info) now
      simp only [hrun, bind, Except.bind]
      cases err with
      | some e => exact ⟨sw', .error e, rfl, hbook'⟩
      | none => exact ⟨sw', _, rfl, hbook'⟩

/-! ### Runs -/

/-- The party behind a connection sends, in its node info, the key that it signed the
challenge with. -/
def SendsOwnKey : Event → Prop
  | .connect _ _ _ authSigMsg handshake _ => handshake.sent.pubKey = authSigMsg.key
  | _ => True

/-- A peer as `AddPeer` makes it: its connection is authenticated and its key is the one
of its node info. With `own`, this is the key of the connection. -/
def Made (verify : Verify) (own : Prop) (q : Peer) : Prop :=
  ∃ auth, Authenticated verify q.peerConn auth ∧ q.key = keyString q.nodeInfo.pubKey ∧
    (own → q.nodeInfo.pubKey = auth.remPubKey)

/-- The invariant of a switch. `own` says that every party so far sent its own key. -/
structure SwitchInv (verify : Verify) (own : Prop) (st : State) : Prop where
  indexed : Indexed st.sw.peers
  registered : ∀ q ∈ st.sw.peers.list, Made verify own q
  admitted : ∀ q ∈ st.admitted, Made verify own q

variable {own : Prop} {st st' : State}

/-- Registration of an admitted peer. -/
theorem register_inv (h : SwitchInv verify own st) (hpeer : Made verify own peer)
    (startErr : Option Err) :
    SwitchInv verify own { st with sw := (st.sw.register peer startErr).1 } := by
  unfold Switch.register
  split
  · exact h
  · -- Another call may have registered the key since the check.
    rcases add_spec h.indexed peer with ⟨-, hadd⟩ | ⟨-, -, hlist, hindexed⟩
    · rw [hadd]
      exact h
    · refine ⟨hindexed, fun q hq => ?_, h.admitted⟩
      have hmem : q ∈ (st.sw.peers.add peer).1.list := hq
      rw [hlist, List.mem_append, List.mem_singleton] at hmem
      rcases hmem with hq | rfl
      · exact h.registered q hq
      · exact hpeer

/-- Removal of a peer. Every other registered peer stays as it is. -/
theorem stop_inv (h : SwitchInv verify own st) (peer : Peer) :
    ∃ peers, st.sw.stopAndRemovePeer peer = .ok { st.sw with peers } ∧
      SwitchInv verify own { st with sw := { st.sw with peers } } := by
  obtain ⟨peers, hrun, hindexed, hget⟩ := remove_spec h.indexed peer
  refine ⟨peers, ?_, hindexed, fun q hq => ?_, h.admitted⟩
  · show (st.sw.peers.remove peer >>= _) = _
    rw [hrun]
    rfl
  · -- What is left in the list was in it before.
    have hq' := hindexed.get_eq_some_iff.mpr ⟨hq, rfl⟩
    rw [hget] at hq'
    split at hq'
    · cases hq'
    · exact h.registered q (h.indexed.get_eq_some_iff.mp hq').1

/-- Each step of a switch keeps the invariant. -/
theorem switch_step_inv (h : SwitchInv verify own st) {event : Event}
    (hown : own → SendsOwnKey event) (hstep : st.step verify env event = .ok st') :
    SwitchInv verify own st' := by
  cases event with
  | connect outbound remoteAddr challenge authSigMsg handshake now =>
    simp only [State.step] at hstep
    split at hstep
    · cases hstep
      exact h
    next pc hpc =>
      obtain ⟨auth, hauth, hrem⟩ := authenticated_of_newPeerConn hpc
      rw [bind_eq_ok_iff] at hstep
      obtain ⟨⟨sw', res⟩, hcheck, hstep⟩ := hstep
      obtain ⟨hpeers, hres⟩ := addPeerCheck_made hcheck
      cases hstep
      refine ⟨hpeers ▸ h.indexed, hpeers ▸ h.registered, fun q hq => ?_⟩
      rcases List.mem_append.mp hq with hq | hq
      · exact h.admitted q hq
      · obtain ⟨info, rfl, hinfo⟩ := hres q (Option.mem_toList.mp hq)
        -- The only step that makes a peer. Its key comes from what was sent.
        exact ⟨auth, hauth, rfl, fun ho => hinfo.trans ((hown ho).trans hrem.symm)⟩
  | register i startErr =>
    simp only [State.step] at hstep
    split at hstep
    · cases hstep
      exact h
    next peer hi =>
      cases hstep
      obtain ⟨hindexed, hreg, -⟩ :=
        register_inv h (h.admitted peer (List.mem_of_getElem? hi)) startErr
      exact ⟨hindexed, hreg, fun q hq => h.admitted q (List.mem_of_mem_eraseIdx hq)⟩
  | stop peer =>
    obtain ⟨peers, hstop, h'⟩ := stop_inv h peer
    simp only [State.step, hstop] at hstep
    cases hstep
    exact h'
  | ban peer now =>
    cases hstep
    obtain ⟨hpeers, -⟩ : (st.sw.addBannedPeer env now peer).1.peers = _ ∧ _ :=
      storeBans_frame env st.sw _
    exact ⟨hpeers ▸ h.indexed, hpeers ▸ h.registered, h.admitted⟩
  | book op =>
    simp only [State.step] at hstep
    rw [bind_eq_ok_iff] at hstep
    obtain ⟨addrBook, -, hstep⟩ := hstep
    cases hstep
    exact ⟨h.indexed, h.registered, h.admitted⟩

/-- No step of a switch panics, and the address book keeps its invariant. -/
theorem switch_step_ok (h : SwitchInv verify own st) (hbook : RepInv env.book st.sw.addrBook)
    (event : Event) :
    ∃ st', st.step verify env event = .ok st' ∧ RepInv env.book st'.sw.addrBook := by
  cases event with
  | connect outbound remoteAddr challenge authSigMsg handshake now =>
    simp only [State.step]
    cases hpc : newPeerConn verify outbound true remoteAddr challenge authSigMsg with
    | error e => exact ⟨st, rfl, hbook⟩
    | ok pc =>
      obtain ⟨auth, hauth, -⟩ := authenticated_of_newPeerConn hpc
      obtain ⟨sw', res, hrun, hbook'⟩ := addPeerCheck_ok hbook hauth now st.next handshake
      simp only [hrun, bind, Except.bind]
      exact ⟨⟨sw', _, _⟩, rfl, hbook'⟩
  | register i startErr =>
    simp only [State.step]
    cases st.admitted[i]? with
    | none => exact ⟨st, rfl, hbook⟩
    | some peer =>
      refine ⟨⟨_, _, _⟩, rfl, ?_⟩
      unfold Switch.register
      split <;> exact hbook
  | stop peer =>
    obtain ⟨peers, hstop, -⟩ := stop_inv h peer
    refine ⟨{ st with sw := { st.sw with peers } }, ?_, hbook⟩
    simp only [State.step, hstop]
    rfl
  | ban peer now =>
    obtain ⟨-, hsame⟩ : _ ∧ (st.sw.addBannedPeer env now peer).1.addrBook = _ :=
      storeBans_frame env st.sw _
    exact ⟨_, rfl, hsame ▸ hbook⟩
  | book op =>
    obtain ⟨addrBook, hrun, hbook', -⟩ := Pex.step_spec hbook op
    refine ⟨{ st with sw := { st.sw with addrBook } }, ?_, hbook'⟩
    simp only [State.step, hrun]
    rfl

theorem switch_run_inv {events : List Event} (h : SwitchInv verify own st)
    (hown : own → ∀ e ∈ events, SendsOwnKey e) (hrun : st.run verify env events = .ok st') :
    SwitchInv verify own st' :=
  foldlM_preserves (fun _ _ e he h => switch_step_inv h fun ho => hown ho e he) h hrun

theorem switch_run_ok (h : SwitchInv verify False st) (hbook : RepInv env.book st.sw.addrBook)
    (events : List Event) : ∃ st', st.run verify env events = .ok st' := by
  -- Nothing about the parties is needed, so the invariant is used without a condition.
  have hsucceeds : ∃ st', st.run verify env events = .ok st' ∧
      SwitchInv verify False st' ∧ RepInv env.book st'.sw.addrBook := by
    refine foldlM_succeeds (fun st e _ hst => ?_) ⟨h, hbook⟩
    obtain ⟨st', hstep, hbook'⟩ := switch_step_ok hst.1 hst.2 e
    exact ⟨st', hstep, switch_step_inv hst.1 False.elim hstep, hbook'⟩
  obtain ⟨st', hrun, -⟩ := hsucceeds
  exact ⟨st', hrun⟩

theorem switchInv_fresh (nodeInfo : NodeInfo) (running : Bool) (addrBook : Pex.AddrBook) :
    SwitchInv verify own (.fresh nodeInfo running addrBook) :=
  ⟨indexed_new, (fun _ h => nomatch h), (fun _ h => nomatch h)⟩

/-! ### The keys of the registered peers -/

/-- A peer is filed under the key that signed the challenge exactly when its node info
has this key. -/
theorem Made.filed_iff {q : Peer} (hq : Made verify own q) :
    ∃ auth, Authenticated verify q.peerConn auth ∧
      (q.key = keyString auth.remPubKey ↔ q.nodeInfo.pubKey = auth.remPubKey) := by
  obtain ⟨auth, hauth, hkey, -⟩ := hq
  refine ⟨auth, hauth, fun h => keyString_inj (hkey.symm.trans h), fun h => ?_⟩
  rw [hkey, h]

/-- `AddPeer` rejects the peer as a duplicate: in the check, or at the registration. -/
def RejectedAsDuplicate (env : SwitchEnv) (sw : Switch) (now : Int) (peer : Peer) : Prop :=
  (∃ sw', sw.filterConnByPeer env now peer = .ok (sw', some RootErr.errDuplicatePeer.err)) ∨
    (sw.peers.add peer).2 = some RootErr.errDuplicatePeer.err

theorem RejectedAsDuplicate.registered (h : SwitchInv verify own st) {now : Int}
    (hdup : RejectedAsDuplicate env st.sw now peer) : ∃ q ∈ st.sw.peers.list, q.key = peer.key := by
  rcases hdup with ⟨sw', hrun⟩ | hadd
  · obtain ⟨-, hhas⟩ := filterConnByPeer_peers hrun
    exact (has_iff h.indexed _).mp (hhas rfl)
  · rcases add_spec h.indexed peer with ⟨hmem, -⟩ | ⟨-, hnone, -⟩
    · exact hmem
    · rw [hnone] at hadd
      cases hadd

end

/-- In every state that a run over authenticated connections reaches: a registered peer
is filed under the key that signed its challenge exactly when it sent this key. So, in a
run in which every party sends its own key, every peer is filed under the key that it
holds, and a party that sends its own key is a duplicate only of a peer that holds the
same key. With an address book that keeps its invariant, no run panics. -/
theorem peers_filed_under_own_key (verify : Verify) (env : SwitchEnv) (nodeInfo : NodeInfo)
    (running : Bool) (addrBook : Pex.AddrBook) (events : List Event) :
    let run := (State.fresh nodeInfo running addrBook).run verify env events
    (RepInv env.book addrBook → ∃ st, run = .ok st) ∧
    ∀ st, run = .ok st →
      (∀ key q, st.sw.peers.get key = some q → ∃ auth, Authenticated verify q.peerConn auth ∧
        (key = keyString auth.remPubKey ↔ q.nodeInfo.pubKey = auth.remPubKey)) ∧
      ((∀ e ∈ events, SendsOwnKey e) →
        (∀ key q, st.sw.peers.get key = some q →
          ∃ auth, Authenticated verify q.peerConn auth ∧ key = keyString auth.remPubKey) ∧
        ∀ pc auth, Authenticated verify pc auth → ∀ now addr info,
          info.pubKey = auth.remPubKey →
          RejectedAsDuplicate env st.sw now (newPeer addr pc info) →
          ∃ q ∈ st.sw.peers.list, ∃ auth', Authenticated verify q.peerConn auth' ∧
            auth'.remPubKey = auth.remPubKey) := by
  refine ⟨fun hbook => switch_run_ok (switchInv_fresh nodeInfo running addrBook) hbook events,
    fun st hrun => ?_⟩
  -- The invariant is used with the condition on the whole run as `own`.
  have h : SwitchInv verify (∀ e ∈ events, SendsOwnKey e) st :=
    switch_run_inv (switchInv_fresh nodeInfo running addrBook) id hrun
  refine ⟨fun key q hget => ?_, fun hown => ⟨fun key q hget => ?_, ?_⟩⟩
  · obtain ⟨hq, rfl⟩ := h.indexed.get_eq_some_iff.mp hget
    exact (h.registered q hq).filed_iff
  · obtain ⟨hq, rfl⟩ := h.indexed.get_eq_some_iff.mp hget
    obtain ⟨auth, hauth, hkey, hsame⟩ := h.registered q hq
    exact ⟨auth, hauth, by rw [hkey, hsame hown]⟩
  · intro pc auth hauth now addr info hinfo hdup
    obtain ⟨q, hq, hqkey⟩ := hdup.registered h
    obtain ⟨auth', hauth', hkey, hsame⟩ := h.registered q hq
    refine ⟨q, hq, auth', hauth', ?_⟩
    -- Both keys have the same string, so they are the same key.
    rw [← hsame hown, ← hinfo]
    exact keyString_inj (hkey.symm.trans hqkey)

/-! ### An impostor -/

/-- The key whose bytes are all `b`. -/
def flatKey (b : UInt8) : PubKey := FixedBytes.replicate 32 b

/-- A stand-in for the signatures: the signature of a message is the key. -/
def keySignature : Verify := fun key _ sig => decide (sig = key.1)

/-- A stand-in for `encoding/json` that stores no bans. -/
def noBanJson : BanJson where
  marshal _ := .error RootErr.errConnectBannedPeer.err
  unmarshal _ := .ok ∅

def localEnv : SwitchEnv where
  json := noBanJson
  splitHost s := s
  newNetAddress _ := none
  book := ⟨fun _ => [], fun _ => true, fun _ _ => [], fun _ => flatKey 0⟩

/-- A node of version 1.0.0 with the given key. -/
def nodeOf (b : UInt8) : NodeInfo := ⟨flatKey b, [], [], [], [0x31, 0x2e, 0x30, 0x2e, 0x30]⟩

/-- The holder of key `b` connects and sends a node info with key `claimed`. -/
def connects (b claimed : UInt8) : Event :=
  .connect false [b] (flatKey 0) ⟨flatKey b, (flatKey b).1⟩ ⟨none, none, nodeOf claimed⟩ 0

/-- The peer of the holder of key `b` that sends key `b`. -/
def honestPeer (addr : Nat) (b : UInt8) : Peer :=
  newPeer addr ⟨false, true, [b], some ⟨flatKey 0, (flatKey b).1, flatKey b⟩⟩ (nodeOf b)

/-- Node 1, with an empty address book. -/
def node : State := .fresh (nodeOf 1) false (Pex.newAddrBook false [])

/-- The holder of key 2 sends key 3. It is filed under key 3, and the holder of key 3 is
then rejected as a duplicate. -/
theorem impostor_takes_key :
    ∃ st q auth, node.run keySignature localEnv [connects 2 3, .register 0 none] = .ok st ∧
      st.sw.peers.list = [q] ∧ st.sw.peers.get (keyString (flatKey 3)) = some q ∧
      q.peerConn.conn.auth = some auth ∧ auth.remPubKey = flatKey 2 ∧
      keyString auth.remPubKey ≠ keyString (flatKey 3) ∧
      RejectedAsDuplicate localEnv st.sw 0 (honestPeer 1 3) :=
  ⟨_, _, _, rfl, rfl, by decide, rfl, rfl, by decide, .inl ⟨_, rfl⟩⟩

/-- Two parties that send their own keys, and connect at the same time. -/
def honestEvents : List Event :=
  [connects 2 2, connects 3 3, .register 1 none, .register 0 none]

theorem honestEvents_own : ∀ e ∈ honestEvents, SendsOwnKey e := by
  intro e he
  simp only [honestEvents, List.mem_cons, List.not_mem_nil, or_false] at he
  rcases he with rfl | rfl | rfl | rfl
  · rfl
  · rfl
  · trivial
  · trivial

/-- Two parties that send their own keys. -/
theorem honest_parties_filed :
    ∃ st, node.run keySignature localEnv honestEvents = .ok st ∧ st.sw.peers.size = 2 ∧
      ∀ key q, st.sw.peers.get key = some q →
        ∃ auth, Authenticated keySignature q.peerConn auth ∧ key = keyString auth.remPubKey := by
  obtain ⟨hok, hfiled⟩ := peers_filed_under_own_key keySignature localEnv (nodeOf 1) false
    (Pex.newAddrBook false []) honestEvents
  obtain ⟨st, hrun⟩ := hok (Pex.repInv_new _ _ _)
  refine ⟨st, hrun, ?_, ((hfiled st hrun).2 honestEvents_own).1⟩
  have hsize : (node.run keySignature localEnv honestEvents).map (·.sw.peers.size) = .ok 2 := rfl
  rw [node, hrun] at hsize
  exact Except.ok.inj hsize

end BtmStats.Proofs.P2p
