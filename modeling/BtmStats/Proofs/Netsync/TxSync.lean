import BtmStats.Lib.Runs
import BtmStats.Spec.Netsync.TxSync

/-!
# `BtmStats.Proofs.Netsync.TxSync`: initial transaction sync

At most one pack is in flight, and when none is, nothing is pending. The packs that
`SendTransactions` gets are those that `send` has filled, although they share one variable.
For a peer whose sends succeed, and that does not come again while it is pending, the packs
and what is pending are together what has arrived (`txsync_conserves`).
-/

set_option autoImplicit false

namespace BtmStats.Proofs.Netsync

open Lib Spec Spec.Netsync Spec.Netsync.TxSync
open Spec.Types (Tx)

/-! ### A pack -/

/-- A pack is a first part of the list. -/
theorem fillPack_isPrefix (size : Nat) (txs : List Tx) : fillPack size txs <+: txs := by
  induction txs generalizing size with
  | nil => exact List.prefix_rfl
  | cons tx txs ih =>
    rw [fillPack]
    split
    · exact List.cons_prefix_cons.mpr ⟨rfl, ih _⟩
    · exact List.nil_prefix

/-- What a pack takes and what stays are the list. -/
theorem fillPack_append_drop (txs : List Tx) :
    fillPack 0 txs ++ txs.drop (fillPack 0 txs).length = txs :=
  List.prefix_iff_eq_append.mp (fillPack_isPrefix 0 txs)

theorem fillPack_ne_nil {txs : List Tx} (h : txs ≠ []) : fillPack 0 txs ≠ [] := by
  cases txs with
  | nil => exact absurd rfl h
  | cons tx txs =>
    rw [fillPack, if_pos (by decide)]
    exact List.cons_ne_nil _ _

/-- A pack without its last transaction is below the limit. -/
def BelowLimit (txs : List Tx) : Prop := (txs.dropLast.map txSize).sum < txsyncPackSize

/-- A pack is below the limit but for its last transaction. -/
theorem fillPack_size (size : Nat) (txs : List Tx) (hsize : size < txsyncPackSize) :
    size + ((fillPack size txs).dropLast.map txSize).sum < txsyncPackSize := by
  induction txs generalizing size with
  | nil => exact hsize
  | cons tx txs ih =>
    rw [fillPack, if_pos hsize]
    cases hfill : fillPack (size + txSize tx) txs with
    | nil => exact hsize
    | cons tx' rest =>
      -- The next transaction was taken, so this one has left room for it.
      have hroom : size + txSize tx < txsyncPackSize := by
        by_contra hfull
        cases txs with
        | nil => exact absurd hfill (List.cons_ne_nil _ _).symm
        | cons _ _ =>
          rw [fillPack, if_neg hfull] at hfill
          exact absurd hfill (List.cons_ne_nil _ _).symm
      have hrest := ih (size + txSize tx) hroom
      rw [hfill] at hrest
      rw [List.dropLast_cons_of_ne_nil (List.cons_ne_nil _ _), List.map_cons, List.sum_cons]
      omega

theorem fillPack_belowLimit (txs : List Tx) : BelowLimit (fillPack 0 txs) := by
  have h := fillPack_size 0 txs (by decide)
  rwa [Nat.zero_add] at h

/-! ### What a step does -/

/-- An entry of `pending` is under the key of its peer. -/
def Keyed (st : State) : Prop := ∀ key s, st.pending.lookup key = some s → s.p = key

variable {st st' : State} {e : Event} {succeeds : Bool}

/-- `pick` gives an entry of `pending` unless there is none. -/
theorem pick_cases (hkeyed : Keyed st) (draw : Nat) (order : IterOrder TxSync) :
    st.pick draw order = none ∧ st.pending = ∅ ∨
      ∃ s, st.pick draw order = some s ∧ st.pending.lookup s.p = some s := by
  rw [State.pick]
  split
  · rename_i hlen
    exact .inl ⟨rfl, AList.ext (List.eq_nil_of_length_eq_zero hlen)⟩
  · rename_i hlen
    have hperm := order.perm (st.pending.entries.map Sigma.snd)
    have hbound : draw % st.pending.entries.length
        < (order.apply (st.pending.entries.map Sigma.snd)).length := by
      rw [hperm.length_eq, List.length_map]
      exact Nat.mod_lt _ (Nat.pos_of_ne_zero hlen)
    refine .inr ⟨_, List.getElem?_eq_getElem hbound, ?_⟩
    obtain ⟨⟨key, s⟩, hmem, hs⟩ := List.mem_map.mp (hperm.mem_iff.mp (List.getElem_mem hbound))
    have hlookup : st.pending.lookup key = some s := AList.mem_lookup_iff.mpr hmem
    rw [← hs, hkeyed key s hlookup]
    exact hlookup

theorem finish_cases (st : State) (hkeyed : Keyed (st.settle succeeds)) (draw : Nat)
    (order : IterOrder TxSync) :
    st.finish succeeds draw order = st.settle succeeds ∧ (st.settle succeeds).pending = ∅ ∨
      ∃ s, st.finish succeeds draw order = (st.settle succeeds).send s ∧
        (st.settle succeeds).pending.lookup s.p = some s := by
  rcases pick_cases hkeyed draw order with ⟨hpick, hempty⟩ | ⟨s, hpick, hs⟩
  · exact .inl ⟨by rw [State.finish, hpick], hempty⟩
  · exact .inr ⟨s, by rw [State.finish, hpick], hs⟩

/-- What is pending after a send was pending before. -/
theorem lookup_of_settle {key : Str} {s : TxSync}
    (h : (st.settle succeeds).pending.lookup key = some s) : st.pending.lookup key = some s := by
  cases succeeds with
  | true => exact h
  | false =>
    change (st.pending.erase st.pack.p).lookup key = some s at h
    by_cases hkey : key = st.pack.p
    · rw [hkey, AList.lookup_erase] at h
      cases h
    · rwa [AList.lookup_erase_ne hkey] at h

theorem Keyed.settle (h : Keyed st) (succeeds : Bool) : Keyed (st.settle succeeds) :=
  fun key s hs => h key s (lookup_of_settle hs)

/-- What a property of the lists has to survive to hold in the state after a step. -/
theorem step_keeps {P : State → Prop} (hkeyed : Keyed st)
    (hsame : ∀ st₁ st₂ : State, st₂.pending = st₁.pending → st₂.filled = st₁.filled → st₂.arrived =
      st₁.arrived → P st₁ → P st₂)
    (hregister : ∀ s, e = .txSyncCh s → st.returned = false → P st → P (st.register s))
    (hsettle : ∀ succeeds, succeeds ∈ st.done → P st → P (st.settle succeeds))
    (hsend : ∀ (st : State) s, st.pending.lookup s.p = some s → P st → P (st.send s))
    (hstep : st.step e = .ok st') (hP : P st) : P st' := by
  cases e with
  | txSyncCh s =>
    rw [State.step] at hstep
    split at hstep
    · cases hstep
      exact hP
    · rename_i hreturned
      cases hstep
      have hP₁ := hregister s rfl (Bool.eq_false_iff.mpr hreturned) hP
      rw [State.receive]
      split
      · exact hP₁
      · exact hsend _ s (AList.lookup_insert _) hP₁
  | sendTransactions succeeds =>
    rw [State.step] at hstep
    split at hstep
    · cases hstep
      exact hP
    · cases hstep
      exact hsame st _ rfl rfl rfl hP
  | done draw order =>
    rw [State.step] at hstep
    split at hstep
    · rename_i succeeds done hreturned hdone
      cases hstep
      have hP₁ : P (State.settle { st with done } succeeds) :=
        hsame (st.settle succeeds) _ rfl rfl rfl
          (hsettle succeeds (hdone ▸ List.mem_cons_self) hP)
      rcases finish_cases { st with done } (hkeyed.settle succeeds) draw order with
        ⟨hfinish, -⟩ | ⟨s, hfinish, hs⟩
      · rw [hfinish]
        exact hP₁
      · rw [hfinish]
        exact hsend _ s hs hP₁
    · cases hstep
      exact hP
  | quitSync =>
    cases hstep
    exact hsame st _ rfl rfl rfl hP

/-! ### The entries of `pending` and the packs -/

/-- `A` holds of each entry of `pending` and its key, `B` of each pack. -/
def Holds (A : Str → TxSync → Prop) (B : TxSync → Prop) (st : State) : Prop :=
  (∀ key s, st.pending.lookup key = some s → A key s) ∧ ∀ pack ∈ st.filled, B pack

section
variable {A : Str → TxSync → Prop} {B : TxSync → Prop} {st : State}

theorem Holds.register (h : Holds A B st) {s : TxSync} (hs : A s.p s) :
    Holds A B (st.register s) := by
  refine ⟨fun key s' hs' => ?_, h.2⟩
  change (st.pending.insert s.p s).lookup key = some s' at hs'
  by_cases hkey : key = s.p
  · subst hkey
    rw [AList.lookup_insert] at hs'
    cases hs'
    exact hs
  · rw [AList.lookup_insert_ne hkey] at hs'
    exact h.1 key s' hs'

theorem Holds.settle (h : Holds A B st) (succeeds : Bool) : Holds A B (st.settle succeeds) :=
  ⟨fun key s hs => h.1 key s (lookup_of_settle hs), h.2⟩

/-- What is left of a list after a pack. -/
def leftOf (s : TxSync) : TxSync := ⟨s.p, s.txs.drop (fillPack 0 s.txs).length⟩

theorem send_lookup (st : State) (s : TxSync) (key : Str) :
    (st.send s).pending.lookup key =
      if key = s.p then (if (leftOf s).txs.length = 0 then none else some (leftOf s))
      else st.pending.lookup key := by
  change (if (leftOf s).txs.length = 0 then st.pending.erase s.p
    else st.pending.insert s.p (leftOf s)).lookup key = _
  by_cases hkey : key = s.p
  · subst hkey
    rw [if_pos rfl]
    split
    · exact AList.lookup_erase _ _
    · exact AList.lookup_insert _
  · rw [if_neg hkey]
    split
    · exact AList.lookup_erase_ne hkey
    · exact AList.lookup_insert_ne hkey

theorem Holds.send (hleft : ∀ s, A s.p s → (leftOf s).txs ≠ [] → A s.p (leftOf s))
    (hpack : ∀ s, A s.p s → B ⟨s.p, fillPack 0 s.txs⟩) (h : Holds A B st) {s : TxSync}
    (hs : st.pending.lookup s.p = some s) : Holds A B (st.send s) := by
  have hA := h.1 s.p s hs
  constructor
  · intro key s' hs'
    rw [send_lookup] at hs'
    split at hs'
    · rename_i hkey
      split at hs'
      · cases hs'
      · rename_i hlen
        cases hs'
        subst hkey
        exact hleft s hA (List.ne_nil_of_length_pos (Nat.pos_of_ne_zero hlen))
    · exact h.1 key s' hs'
  · intro pack hmem
    rcases List.mem_append.mp hmem with hold | hnew
    · exact h.2 pack hold
    · rw [List.mem_singleton.mp hnew]
      exact hpack s hA

theorem holds_step {st' : State} {e : Event} (hkeyed : Keyed st)
    (hregister : ∀ s, e = .txSyncCh s → A s.p s)
    (hleft : ∀ s, A s.p s → (leftOf s).txs ≠ [] → A s.p (leftOf s))
    (hpack : ∀ s, A s.p s → B ⟨s.p, fillPack 0 s.txs⟩) (hstep : st.step e = .ok st')
    (h : Holds A B st) : Holds A B st' := by
  refine step_keeps hkeyed ?_ (fun s he _ h => h.register (hregister s he))
    (fun succeeds _ h => h.settle succeeds) (fun _ _ hs h => h.send hleft hpack hs) hstep h
  intro st₁ st₂ hpending hfilled _ h
  rw [Holds, hpending, hfilled]
  exact h

end

/-- Each entry is under its peer's key, and each pack is below the limit. -/
def Tidy : State → Prop := Holds (fun key s => s.p = key) (fun pack => BelowLimit pack.txs)

theorem tidy_step (h : Tidy st) (hstep : st.step e = .ok st') : Tidy st' :=
  holds_step h.1 (fun _ _ => rfl) (fun _ _ _ => rfl) (fun s _ => fillPack_belowLimit s.txs) hstep h

/-- No entry and no pack of a peer is empty. -/
def NoneEmpty (key : Str) : State → Prop :=
  Holds (fun key' s => key' = key → s.txs ≠ []) (fun pack => pack.p = key → pack.txs ≠ [])

theorem noneEmpty_step {key : Str} (hkeyed : Keyed st)
    (harrival : ∀ s, e = .txSyncCh s → s.p = key → s.txs ≠ []) (h : NoneEmpty key st)
    (hstep : st.step e = .ok st') : NoneEmpty key st' :=
  holds_step hkeyed harrival (fun _ _ hleft _ => hleft)
    (fun _ hs hkey => fillPack_ne_nil (hs hkey)) hstep h

/-- `syncTransactions` sends no empty list. -/
theorem syncTransactions_ne_nil {p : Str} {pool : List Tx} {s : TxSync}
    (h : syncTransactions p pool = some s) : s.txs ≠ [] := by
  rw [syncTransactions] at h
  split at h
  · cases h
  · rename_i hlen
    cases h
    exact List.ne_nil_of_length_pos (Nat.pos_of_ne_zero hlen)

/-! ### One pack at a time -/

/-- The sends that have not returned, and those whose result is not received yet. -/
def inFlight (st : State) : Nat := st.running + st.done.length

/-- The loop's view of what is in flight. -/
structure Sound (st : State) : Prop where
  accounted : inFlight st = if st.sending then 1 else 0
  idle : st.sending = false → st.pending = ∅
  /-- Each call of `SendTransactions` got the pack that was filled for it. -/
  handedOver : st.filled = st.sent.map Prod.fst ++ List.replicate st.running st.pack
  /-- A result is that of a send of the current pack. -/
  results : ∀ succeeds ∈ st.done, (st.pack, succeeds) ∈ st.sent

/-- A send may start: nothing is in flight. -/
structure Ready (st : State) : Prop where
  running : st.running = 0
  done : st.done = []
  handedOver : st.filled = st.sent.map Prod.fst

theorem Ready.send (h : Ready st) (s : TxSync) : Sound (st.send s) where
  accounted := by
    change st.running + 1 + st.done.length = 1
    rw [h.running, h.done]
    rfl
  idle := fun hsending => absurd hsending Bool.noConfusion
  handedOver := by
    change st.filled ++ [_] = _ ++ List.replicate (st.running + 1) _
    rw [h.handedOver, h.running]
    rfl
  results := by
    intro succeeds hmem
    change succeeds ∈ st.done at hmem
    rw [h.done] at hmem
    cases hmem

theorem Sound.ready (h : Sound st) (hsending : st.sending = false) : Ready st := by
  have hflight := h.accounted
  rw [hsending] at hflight
  obtain ⟨hrunning, hdone⟩ := Nat.add_eq_zero_iff.mp hflight
  refine ⟨hrunning, List.eq_nil_of_length_eq_zero hdone, ?_⟩
  rw [h.handedOver, hrunning]
  exact List.append_nil _

/-- When a result is received, nothing else is in flight. -/
theorem Sound.ready_settle {done : List Bool} (h : Sound st) (hdone : st.done = succeeds :: done) :
    Ready (State.settle { st with done } succeeds) := by
  have hflight := h.accounted
  rw [inFlight, hdone, List.length_cons] at hflight
  have hone : (if st.sending then 1 else 0) ≤ 1 := by split <;> decide
  have hrunning : st.running = 0 := by omega
  have hrest : done.length = 0 := by omega
  refine ⟨hrunning, List.eq_nil_of_length_eq_zero hrest, ?_⟩
  change st.filled = _
  rw [h.handedOver, hrunning]
  exact List.append_nil _

theorem Ready.sound (h : Ready st) (hsending : st.sending = false) (hempty : st.pending = ∅) :
    Sound st where
  accounted := by
    rw [inFlight, h.running, h.done, hsending]
    rfl
  idle := fun _ => hempty
  handedOver := by
    rw [h.handedOver, h.running]
    exact (List.append_nil _).symm
  results := by
    rw [h.done]
    intro succeeds hmem
    cases hmem

theorem sound_receive (h : Sound st) (s : TxSync) : Sound (st.receive s) := by
  rw [State.receive]
  split
  · rename_i hsending
    exact ⟨h.accounted, fun hidle => absurd (hsending.symm.trans hidle) Bool.noConfusion,
      h.handedOver, h.results⟩
  · rename_i hsending
    have hready := h.ready (Bool.eq_false_iff.mpr hsending)
    have hready' : Ready (st.register s) := ⟨hready.running, hready.done, hready.handedOver⟩
    exact hready'.send s

theorem sound_sendTransactions (h : Sound st) (hrunning : st.running ≠ 0) (succeeds : Bool) :
    Sound { st with
      running := st.running - 1
      done := st.done ++ [succeeds]
      sent := st.sent ++ [(st.pack, succeeds)] } where
  accounted := by
    change st.running - 1 + (st.done ++ [succeeds]).length = _
    have hflight := h.accounted
    rw [inFlight] at hflight
    rw [← hflight, List.length_append, List.length_singleton]
    omega
  idle := h.idle
  handedOver := by
    change st.filled = (st.sent ++ [(st.pack, succeeds)]).map Prod.fst ++ _
    obtain ⟨n, hn⟩ := Nat.exists_eq_succ_of_ne_zero hrunning
    rw [h.handedOver, hn, List.map_append, List.append_assoc]
    rfl
  results := by
    intro succeeds' hmem
    rcases List.mem_append.mp hmem with hold | hnew
    · exact List.mem_append_left _ (h.results succeeds' hold)
    · rw [List.mem_singleton.mp hnew]
      exact List.mem_append_right _ List.mem_cons_self

/-- Every event keeps the number of packs under way at one or none. -/
theorem sound_step (hkeyed : Keyed st) (h : Sound st) (hstep : st.step e = .ok st') :
    Sound st' := by
  cases e with
  | txSyncCh s =>
    rw [State.step] at hstep
    cases hstep
    split
    · exact h
    · exact sound_receive h s
  | sendTransactions succeeds =>
    rw [State.step] at hstep
    cases hstep
    split
    · exact h
    · rename_i hrunning
      exact sound_sendTransactions h hrunning succeeds
  | done draw order =>
    rw [State.step] at hstep
    split at hstep
    · rename_i succeeds done _ hdone
      cases hstep
      have hready := h.ready_settle hdone
      rcases finish_cases { st with done } (hkeyed.settle succeeds) draw order with
        ⟨hfinish, hempty⟩ | ⟨s, hfinish, -⟩
      · rw [hfinish]
        exact hready.sound rfl hempty
      · rw [hfinish]
        exact hready.send s
    · cases hstep
      exact h
  | quitSync =>
    cases hstep
    exact ⟨h.accounted, h.idle, h.handedOver, h.results⟩

/-! ### What a peer gets -/

/-- The transactions for one peer in a list of syncs. -/
def ofPeer (key : Str) (l : List TxSync) : List Tx :=
  (l.filter fun s => s.p = key).flatMap TxSync.txs

def pendingOf (key : Str) (st : State) : List Tx :=
  ((st.pending.lookup key).map TxSync.txs).getD []

/-- The packs for a peer and then what is pending for it are what it arrived with. -/
def Conserved (key : Str) (st : State) : Prop :=
  ofPeer key st.filled ++ pendingOf key st = ofPeer key st.arrived

/-- The sends to a peer that have returned have succeeded. -/
def SendsSucceed (key : Str) (st : State) : Prop :=
  ∀ send ∈ st.sent, send.1.p = key → send.2 = true

instance (key : Str) (st : State) : Decidable (SendsSucceed key st) :=
  inferInstanceAs (Decidable (∀ send ∈ st.sent, send.1.p = key → send.2 = true))

/-- The peer is not registered again while it is pending. -/
def NotAgain (key : Str) (st : State) : Event → Prop
  | .txSyncCh s => st.returned = false → s.p = key → key ∉ st.pending
  | _ => True

instance (key : Str) (st : State) : ∀ e, Decidable (NotAgain key st e)
  | .txSyncCh s => inferInstanceAs (Decidable (st.returned = false → s.p = key → key ∉ st.pending))
  | .sendTransactions _ => .isTrue trivial
  | .done _ _ => .isTrue trivial
  | .quitSync => .isTrue trivial

theorem ofPeer_append (key : Str) (l : List TxSync) (s : TxSync) :
    ofPeer key (l ++ [s]) = ofPeer key l ++ if s.p = key then s.txs else [] := by
  rw [ofPeer, List.filter_append, List.flatMap_append]
  congr 1
  split
  · rename_i hkey
    simp [hkey]
  · rename_i hkey
    simp [hkey]

section
variable {key : Str} {st : State}

theorem conserved_register {s : TxSync} (hnew : s.p = key → key ∉ st.pending)
    (h : Conserved key st) : Conserved key (st.register s) := by
  rw [Conserved, pendingOf] at h ⊢
  change ofPeer key st.filled ++ (((st.pending.insert s.p s).lookup key).map TxSync.txs).getD []
    = ofPeer key (st.arrived ++ [s])
  rw [ofPeer_append, ← h]
  by_cases hkey : s.p = key
  · subst hkey
    rw [AList.lookup_insert, AList.lookup_eq_none.mpr (hnew rfl), if_pos rfl, List.append_assoc]
    rfl
  · rw [AList.lookup_insert_ne (Ne.symm hkey), if_neg hkey, List.append_nil]

theorem conserved_settle {succeeds : Bool} (hfailed : succeeds = false → st.pack.p ≠ key)
    (h : Conserved key st) : Conserved key (st.settle succeeds) := by
  cases succeeds with
  | true => exact h
  | false =>
    rw [Conserved, pendingOf] at h ⊢
    change ofPeer key st.filled
      ++ (((st.pending.erase st.pack.p).lookup key).map TxSync.txs).getD [] = _
    rw [AList.lookup_erase_ne (Ne.symm (hfailed rfl))]
    exact h

/-- A pack moves transactions from what is pending to what is sent, in order. -/
theorem conserved_send {s : TxSync} (hs : st.pending.lookup s.p = some s) (h : Conserved key st) :
    Conserved key (st.send s) := by
  rw [Conserved, pendingOf] at h ⊢
  change ofPeer key (st.filled ++ [⟨s.p, fillPack 0 s.txs⟩]) ++ _ = ofPeer key st.arrived
  rw [ofPeer_append, send_lookup, ← h]
  by_cases hkey : s.p = key
  · subst hkey
    have hleft : ((if (leftOf s).txs.length = 0 then none else some (leftOf s)).map
        TxSync.txs).getD [] = (leftOf s).txs := by
      split
      · rename_i hlen
        exact (List.eq_nil_of_length_eq_zero hlen).symm
      · rfl
    rw [if_pos rfl, if_pos rfl, hleft, hs, List.append_assoc]
    exact congrArg _ (fillPack_append_drop s.txs)
  · rw [if_neg hkey, if_neg (Ne.symm hkey), List.append_nil]

theorem sent_subset_step {st' : State} {e : Event} (hstep : st.step e = .ok st') :
    st.sent ⊆ st'.sent := by
  cases e with
  | txSyncCh s =>
    rw [State.step] at hstep
    cases hstep
    rw [State.receive]
    split
    · exact List.Subset.refl _
    · split <;> exact List.Subset.refl _
  | sendTransactions succeeds =>
    rw [State.step] at hstep
    cases hstep
    split
    · exact List.Subset.refl _
    · exact List.subset_append_left _ _
  | done draw order =>
    rw [State.step] at hstep
    split at hstep
    · cases hstep
      rw [State.finish]
      split <;> exact List.Subset.refl _
    · cases hstep
      exact List.Subset.refl _
  | quitSync =>
    cases hstep
    exact List.Subset.refl _

/-- A step moves transactions and loses none. -/
theorem conserved_step {st' : State} {e : Event} (htidy : Tidy st) (hsound : Sound st)
    (hnew : NotAgain key st e) (h : SendsSucceed key st → Conserved key st)
    (hstep : st.step e = .ok st') (hsucceed : SendsSucceed key st') : Conserved key st' := by
  have hbefore : SendsSucceed key st :=
    fun send hmem => hsucceed send (sent_subset_step hstep hmem)
  refine step_keeps htidy.1 ?_ ?_ ?_ (fun st s hs h => conserved_send hs h) hstep (h hbefore)
  · intro st₁ st₂ hpending hfilled harrived h
    rw [Conserved, pendingOf, hpending, hfilled, harrived]
    exact h
  · intro s he hreturned h
    subst he
    exact conserved_register (hnew hreturned) h
  · intro succeeds hmem h
    refine conserved_settle (fun hfailed hkey => ?_) h
    have hgood : succeeds = true := hbefore _ (hsound.results succeeds hmem) hkey
    exact absurd (hfailed.symm.trans hgood) Bool.noConfusion

end

/-! ### Whole runs -/

theorem step_ok (st : State) (e : Event) : ∃ st', st.step e = .ok st' := by
  cases e with
  | txSyncCh s => exact ⟨_, rfl⟩
  | sendTransactions succeeds => exact ⟨_, rfl⟩
  | done draw order =>
    rw [State.step]
    split
    · exact ⟨_, rfl⟩
    · exact ⟨_, rfl⟩
  | quitSync => exact ⟨_, rfl⟩

theorem run_ok (st : State) (events : List Event) : ∃ st', st.run events = .ok st' := by
  have hrun : ∃ st', st.run events = .ok st' ∧ True := foldlM_succeeds (P := fun _ => True)
    (fun st e _ _ => by
      obtain ⟨st', hstep⟩ := step_ok st e
      exact ⟨st', hstep, trivial⟩) trivial
  obtain ⟨st', hst', -⟩ := hrun
  exact ⟨st', hst'⟩

theorem holds_start (A : Str → TxSync → Prop) (B : TxSync → Prop) : Holds A B State.start := by
  constructor
  · intro key s hs
    rw [State.start, AList.lookup_empty] at hs
    cases hs
  · intro pack hmem
    cases hmem

theorem sound_start : Sound State.start where
  accounted := rfl
  idle := fun _ => rfl
  handedOver := rfl
  results := fun _ hmem => absurd hmem List.not_mem_nil

/-- What holds of the packs in every state, whatever arrives. -/
structure OnePack (st : State) : Prop where
  atMostOne : inFlight st ≤ 1
  idle : inFlight st = 0 → st.pending = ∅
  /-- The calls of `SendTransactions` and those to come get the packs as they were filled. -/
  handedOver : st.filled = st.sent.map Prod.fst ++ List.replicate st.running st.pack
  belowLimit : ∀ pack ∈ st.filled, BelowLimit pack.txs

theorem Sound.onePack (htidy : Tidy st) (h : Sound st) : OnePack st := by
  have hflight := h.accounted
  refine ⟨?_, fun hzero => h.idle ?_, h.handedOver, htidy.2⟩
  · rw [hflight]
    split <;> decide
  · rw [hzero] at hflight
    by_contra hsending
    rw [if_pos (Bool.eq_true_of_not_eq_false hsending)] at hflight
    exact absurd hflight (by decide)

/-- Transaction synchronisation over every run. No run panics, and at most one pack is in flight.
A peer that never comes with an empty list has no empty entry and gets no empty pack. As long as
the sends to a peer succeed and it does not come again while it is pending, the packs for it and
what is pending are together what it came with, in order: no transaction is lost or sent twice. -/
theorem txsync_conserves (events : List Event) :
    (∃ st, State.start.run events = .ok st) ∧
      Always State.step OnePack State.start events ∧
      ∀ key,
        ((∀ s, .txSyncCh s ∈ events → s.p = key → s.txs ≠ []) →
          Always State.step (NoneEmpty key) State.start events) ∧
        (Along State.step (NotAgain key) State.start events →
          Always State.step (fun st => SendsSucceed key st → Conserved key st)
            State.start events) := by
  have hinv : ∀ st st' e, Tidy st ∧ Sound st → State.step st e = .ok st' →
      Tidy st' ∧ Sound st' :=
    fun st st' e h hstep => ⟨tidy_step h.1 hstep, sound_step h.1.1 h.2 hstep⟩
  have hstart : Tidy State.start ∧ Sound State.start := ⟨holds_start _ _, sound_start⟩
  refine ⟨run_ok _ events, ?_, fun key => ⟨fun harrive => ?_, fun halong => ?_⟩⟩
  · exact (always_of_step (fun st st' e _ => hinv st st' e) hstart).mono
      fun st h => h.2.onePack h.1
  · refine (always_of_step (P := fun st => Tidy st ∧ NoneEmpty key st) ?_
      ⟨hstart.1, holds_start _ _⟩).mono fun st h => h.2
    intro st st' e he h hstep
    refine ⟨tidy_step h.1 hstep, noneEmpty_step h.1.1 (fun s hs => ?_) h.2 hstep⟩
    exact harrive s (hs ▸ he)
  · refine (always_of_along
      (P := fun st => (Tidy st ∧ Sound st) ∧ (SendsSucceed key st → Conserved key st)) ?_
      ⟨hstart, fun _ => rfl⟩ halong).mono fun st h => h.2
    intro st e st' h hnew hstep
    exact ⟨hinv st st' e h.1 hstep, conserved_step h.1.1 h.1.2 hnew h.2 hstep⟩

/-! ### Two peers -/

/-- A transaction of 60 KiB. -/
def wideTx (n : UInt64) : Tx where
  txData := ⟨1, 61440, n, [], []⟩
  tx := ⟨⟨1, 61440, n, []⟩, default, .empty, [], [], []⟩

/-- The peers that come, with the pool at that time. -/
def arrivals (peers : List (Str × List Tx)) : List Event :=
  peers.filterMap fun peer => (syncTransactions peer.1 peer.2).map .txSyncCh

theorem arrivals_ne_nil {peers : List (Str × List Tx)} {s : TxSync}
    (h : .txSyncCh s ∈ arrivals peers) : s.txs ≠ [] := by
  obtain ⟨peer, -, hpeer⟩ := List.mem_filterMap.mp h
  obtain ⟨s', hs', hevent⟩ := Option.map_eq_some_iff.mp hpeer
  cases hevent
  exact syncTransactions_ne_nil hs'

def sendReturns : List Event := [.sendTransactions true, .done 0 ⟨id, fun _ => .refl _⟩]

/-- The second peer comes while the first pack for the first one is in flight. -/
def twoPeers : List Event :=
  arrivals [([97], [wideTx 1, wideTx 2, wideTx 3]), ([98], [wideTx 4])] ++
    (sendReturns ++ sendReturns ++ sendReturns)

/-- The first peer gets its transactions in two packs, and the second one gets its own
in between. -/
theorem two_peers_synced :
    Along State.step (NotAgain [97]) State.start twoPeers ∧
      ∃ st, State.start.run twoPeers = .ok st ∧ SendsSucceed [97] st ∧
        st.filled.map (fun pack => (pack.p, pack.txs.map (·.txData.timeRange))) =
          [([97], [1, 2]), ([98], [4]), ([97], [3])] ∧
        pendingOf [97] st = [] ∧ NoneEmpty [97] st ∧ OnePack st ∧ Conserved [97] st := by
  have halong : Along State.step (NotAgain [97]) State.start twoPeers := by decide
  have hrun : ∃ st, State.start.run twoPeers = .ok st ∧ SendsSucceed [97] st ∧
      st.filled.map (fun pack => (pack.p, pack.txs.map (·.txData.timeRange))) =
        [([97], [1, 2]), ([98], [4]), ([97], [3])] ∧ pendingOf [97] st = [] :=
    ⟨_, rfl, by decide, by decide, rfl⟩
  obtain ⟨st, hst, hsucceed, hfilled, hpending⟩ := hrun
  obtain ⟨-, hone, hkey⟩ := txsync_conserves twoPeers
  have hnone : Always State.step (NoneEmpty [97]) State.start twoPeers := by
    refine (hkey [97]).1 fun s hs _ => ?_
    rcases List.mem_append.mp hs with harrives | hreturns
    · exact arrivals_ne_nil harrives
    · simp [sendReturns] at hreturns
  exact ⟨halong, st, hst, hsucceed, hfilled, hpending, hnone.last hst, hone.last hst,
    ((hkey [97]).2 halong).last hst hsucceed⟩

end BtmStats.Proofs.Netsync
