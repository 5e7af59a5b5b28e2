import BtmStats.Proofs.Netsync.SyncChain
import BtmStats.Proofs.Types.BlockData
import BtmStats.Spec.Netsync.DecodeMessage

/-!
# `BtmStats.Proofs.Netsync.RequestHeights`: the heights that are asked for

The loop of `BlockRequestWorker` has two counters. `num` goes up, and the guard of the loop
looks at it alone. `orphanNum` goes down with every orphan, and nothing keeps it above 0.
`BlockRequest` gives only a block of the height that was asked for (`height_of_blockRequest`),
so an iteration is described by its verdict (`requestNext_cases`).

The heights are real exactly as long as no block of height 1 is judged an orphan
(`requests_real_iff`). After one the loop asks for height 0, which the receiver takes for a
request by hash, and an orphan of height 0 leads to the height `2 ^ 64 - 1`.

The loop is left all the same. A block has a height below `2 ^ 63`, so the height that comes
after 0 gets no answer. Each other iteration brings `num` closer to its bound, or leaves it and
brings `orphanNum` closer to 0 (`requestNext_decreases`, `blockRequestWorker_returns`).
-/

set_option autoImplicit false

namespace BtmStats.Proofs.Netsync

open Lib Spec Spec.Netsync Spec.Protocol Spec.Types Proofs.Protocol Proofs.Types

/-! ### One iteration -/

section
variable {γ : Type} {api : KeeperApi γ} {peerID : Str} {maxPeerHeight : UInt64} {s s' : γ}
  {k k' : Counters} {block : Block}

theorem signal_of_blockRequest {height : UInt64}
    (h : api.blockRequest s peerID height = (.ok block, s')) :
    block.blockHeader.height = height ∧
      ∃ t, Signal.pendingResponse peerID block ∈ (api.signals t).1 := by
  rw [KeeperApi.blockRequest] at h
  dsimp only at h
  split at h
  · cases h
  · obtain ⟨hheight, hmem⟩ := awaitBlock_ok (Prod.mk.inj h).1
    exact ⟨hheight, _, hmem⟩

/-- The counters after a block that was judged without an error. -/
def Counters.after (k : Counters) (orphan : Bool) : Counters :=
  if orphan then { k with orphanNum := k.reqNum - 1, isOrphan := true }
  else { k with num := k.num + 1, isOrphan := false }

variable (api peerID s k) in
/-- The loop is left by an iteration, or the iteration got a block of the height asked for and
`ProcessBlock` judged it without an error. -/
theorem requestNext_cases :
    ((api.requestNext peerID s k).2 = none ∧
      ∀ orphan, (api.iteration peerID s k).verdict ≠ some (orphan, none)) ∨
    ∃ block orphan s', api.iteration peerID s k = ⟨k.reqNum, .ok block, some (orphan, none)⟩ ∧
      block.blockHeader.height = k.reqNum ∧
      (∃ t, Signal.pendingResponse peerID block ∈ (api.signals t).1) ∧
      api.requestNext peerID s k = (s', some (Counters.after k orphan)) := by
  rw [KeeperApi.requestNext, KeeperApi.iteration]
  rcases hrequest : api.blockRequest s peerID k.reqNum with ⟨e | block, s₁⟩
  · exact .inl ⟨rfl, fun orphan h => Option.some_ne_none _ h.symm⟩
  · obtain ⟨hheight, hsignal⟩ := signal_of_blockRequest hrequest
    rcases hprocess : api.processBlock s₁ block with ⟨⟨orphan, _ | e⟩, s₂⟩
    · refine .inr ⟨block, orphan, s₂, ?_, hheight, hsignal, ?_⟩
      · simp only [hprocess]
      · cases orphan
        · simp only [hprocess]
          rfl
        · simp only [hprocess, hheight]
          rfl
    · refine .inl ⟨?_, fun orphan' h => ?_⟩
      · cases orphan <;> simp only [hprocess]
      · simp only [hprocess, Option.some.injEq, Prod.mk.injEq] at h
        exact Option.some_ne_none _ h.2

/-! ### The heights of a run -/

/-- The height is one that a peer of the height `maxPeerHeight` has a block for, and the height
below an orphan does not underflow. -/
def IterationRecord.Real (maxPeerHeight : UInt64) (it : IterationRecord) : Prop :=
  1 ≤ it.height ∧ it.height ≤ maxPeerHeight ∧
    ∀ block, it.answer = .ok block → it.verdict = some (true, none) →
      1 ≤ block.blockHeader.height

/-- A block of height 1 is judged an orphan. -/
def IterationRecord.LowOrphan (it : IterationRecord) : Prop :=
  ∃ block, it.answer = .ok block ∧ block.blockHeader.height = 1 ∧ it.verdict = some (true, none)

/-- What the loop needs of the counters: the orphan that is asked for has a real height. -/
def Counters.Good (maxPeerHeight : UInt64) (k : Counters) : Prop :=
  k.isOrphan = true → 1 ≤ k.orphanNum ∧ k.orphanNum ≤ maxPeerHeight

theorem Counters.Good.reqNum (h : Counters.Good maxPeerHeight k) (hpos : 0 < k.num)
    (hle : k.num ≤ maxPeerHeight) : 1 ≤ k.reqNum ∧ k.reqNum ≤ maxPeerHeight := by
  rw [Counters.reqNum]
  split
  · next horphan => exact h horphan
  · exact ⟨UInt64.le_iff_toNat_le.mpr (UInt64.lt_iff_toNat_lt.mp hpos), hle⟩

/-- From a height above 1 the counter of orphans goes down to a real height. -/
theorem Counters.good_after (hlow : 1 ≤ k.reqNum) (hhigh : k.reqNum ≤ maxPeerHeight)
    {orphan : Bool} (hnot : orphan = true → k.reqNum ≠ 1) :
    Counters.Good maxPeerHeight (Counters.after k orphan) := by
  intro horphan
  cases orphan with
  | false => cases horphan
  | true =>
    have hne := hnot rfl
    show 1 ≤ k.reqNum - 1 ∧ k.reqNum - 1 ≤ maxPeerHeight
    rw [Ne, ← UInt64.toNat_inj] at hne
    rw [UInt64.le_iff_toNat_le] at hlow hhigh ⊢
    rw [UInt64.le_iff_toNat_le, UInt64.toNat_sub_of_le _ _ (UInt64.le_iff_toNat_le.mpr hlow)]
    rw [UInt64.toNat_one] at hlow hne ⊢
    omega

theorem iterations_succ (fuel : Nat) (hguard : 0 < k.num ∧ k.num ≤ maxPeerHeight)
    (hnext : api.requestNext peerID s k = (s', some k')) :
    api.iterations peerID maxPeerHeight (fuel + 1) s k =
      api.iteration peerID s k :: api.iterations peerID maxPeerHeight fuel s' k' := by
  rw [KeeperApi.iterations, if_pos hguard, hnext]

theorem iterations_last (fuel : Nat) (hguard : 0 < k.num ∧ k.num ≤ maxPeerHeight)
    (hnext : (api.requestNext peerID s k).2 = none) :
    api.iterations peerID maxPeerHeight (fuel + 1) s k = [api.iteration peerID s k] := by
  rw [KeeperApi.iterations, if_pos hguard]
  rcases hreq : api.requestNext peerID s k with ⟨t, _ | k'⟩
  · rfl
  · rw [hreq] at hnext
    cases hnext

theorem iterations_stop (fuel : Nat) (hguard : ¬ (0 < k.num ∧ k.num ≤ maxPeerHeight)) :
    api.iterations peerID maxPeerHeight fuel s k = [] := by
  cases fuel with
  | zero => rfl
  | succ fuel => exact if_neg hguard

/-- Without an orphan of height 1 all heights are real. -/
theorem real_of_not_lowOrphan (fuel : Nat) (hgood : Counters.Good maxPeerHeight k)
    (hnot : ∀ it ∈ api.iterations peerID maxPeerHeight fuel s k, ¬ IterationRecord.LowOrphan it) :
    ∀ it ∈ api.iterations peerID maxPeerHeight fuel s k, IterationRecord.Real maxPeerHeight it := by
  induction fuel generalizing s k with
  | zero => exact fun it hit => absurd hit List.not_mem_nil
  | succ fuel ih =>
    by_cases hguard : 0 < k.num ∧ k.num ≤ maxPeerHeight
    swap
    · rw [iterations_stop _ hguard]
      exact fun it hit => absurd hit List.not_mem_nil
    obtain ⟨hlow, hhigh⟩ := hgood.reqNum hguard.1 hguard.2
    rcases requestNext_cases api peerID s k with ⟨hnone, hverdict⟩ |
      ⟨block, orphan, s', hit, hheight, -, hnext⟩
    · rw [iterations_last fuel hguard hnone, List.forall_mem_singleton]
      have hreq : (api.iteration peerID s k).height = k.reqNum := by
        rw [KeeperApi.iteration]
        split <;> rfl
      rw [IterationRecord.Real, hreq]
      exact ⟨hlow, hhigh, fun _ _ h => absurd h (hverdict true)⟩
    · rw [iterations_succ fuel hguard hnext, List.forall_mem_cons] at hnot ⊢
      rw [hit] at hnot ⊢
      refine ⟨⟨hlow, hhigh, fun b hb _ => ?_⟩, ?_⟩
      · cases hb
        rw [hheight]
        exact hlow
      · refine ih (Counters.good_after hlow hhigh fun horphan hone => ?_) hnot.2
        subst horphan
        exact hnot.1 ⟨block, rfl, hheight.trans hone, rfl⟩

/-- After an orphan of height 1 the loop asks for height 0. -/
theorem zero_of_lowOrphan (fuel : Nat)
    (hlow : ∃ it ∈ api.iterations peerID maxPeerHeight fuel s k, IterationRecord.LowOrphan it) :
    ∃ it ∈ api.iterations peerID maxPeerHeight (fuel + 1) s k, it.height = 0 := by
  induction fuel generalizing s k with
  | zero =>
    obtain ⟨it, hit, -⟩ := hlow
    exact absurd hit List.not_mem_nil
  | succ fuel ih =>
    obtain ⟨it, hmem, hlow⟩ := hlow
    by_cases hguard : 0 < k.num ∧ k.num ≤ maxPeerHeight
    swap
    · rw [iterations_stop _ hguard] at hmem
      exact absurd hmem List.not_mem_nil
    rcases requestNext_cases api peerID s k with ⟨hnone, hverdict⟩ |
      ⟨block, orphan, s', hit, hheight, -, hnext⟩
    · rw [iterations_last fuel hguard hnone, List.mem_singleton] at hmem
      obtain ⟨_, -, -, hv⟩ := hlow
      rw [hmem] at hv
      exact absurd hv (hverdict true)
    · rw [iterations_succ fuel hguard hnext, List.mem_cons] at hmem
      rw [iterations_succ (fuel + 1) hguard hnext]
      rcases hmem with rfl | hmem
      · -- The guard is still met, as `num` has not changed.
        obtain ⟨b, hb, hone, hv⟩ := hlow
        rw [hit] at hb hv
        cases hb
        cases hv
        refine ⟨api.iteration peerID s' (Counters.after k true), .tail _ ?_, ?_⟩
        · have hguard' : 0 < (Counters.after k true).num ∧
              (Counters.after k true).num ≤ maxPeerHeight := hguard
          rw [KeeperApi.iterations, if_pos hguard']
          exact .head _
        · have hreq : (Counters.after k true).reqNum = 0 := by
            show k.reqNum - 1 = 0
            rw [← hheight, hone]
            rfl
          rw [KeeperApi.iteration, hreq]
          split <;> rfl
      · obtain ⟨it', hit', hzero⟩ := ih ⟨it, hmem, hlow⟩
        exact ⟨it', .tail _ hit', hzero⟩

/-- Whatever the local height, the height of the peer, its blocks and the verdicts are, all
heights are real exactly when no block of height 1 is judged an orphan. -/
theorem requests_real_iff {γ : Type} (api : KeeperApi γ) (s : γ) (peerID : Str)
    (maxPeerHeight : UInt64) :
    (∀ fuel, ∀ it ∈ api.iterations peerID maxPeerHeight fuel s
      ⟨api.bestBlockHeight s + 1, 0, false⟩, IterationRecord.Real maxPeerHeight it) ↔
    ∀ fuel, ∀ it ∈ api.iterations peerID maxPeerHeight fuel s
      ⟨api.bestBlockHeight s + 1, 0, false⟩, ¬ IterationRecord.LowOrphan it := by
  constructor
  · intro hreal fuel it hit hlow
    obtain ⟨it', hit', hzero⟩ := zero_of_lowOrphan fuel ⟨it, hit, hlow⟩
    have hone := (hreal (fuel + 1) it' hit').1
    rw [hzero] at hone
    exact absurd hone (by decide)
  · intro hnot fuel
    exact real_of_not_lowOrphan fuel (fun h => Bool.noConfusion h) (hnot fuel)

/-! ### The end of the loop -/

variable (api) in
/-- The blocks that come in have a height that `ReadVarint63` gives. -/
def Varint63Heights : Prop :=
  ∀ s id block, Signal.pendingResponse id block ∈ (api.signals s).1 →
    block.blockHeader.height.toNat < 2 ^ 63

/-- The blocks that come in were read by `GetBlock`, so it is so. -/
theorem varint63Heights_of_getBlock {entryApi : EntryApi} {sha3 : List UInt8 → FixedBytes 32}
    {commitmentReadFrom : Fill BlockCommitment}
    (h : ∀ s id block, Signal.pendingResponse id block ∈ (api.signals s).1 →
      ∃ orders m, BlockResponseMessage.getBlock commitmentReadFrom entryApi sha3 orders m =
        .ok block) : Varint63Heights api := by
  intro s id block hmem
  obtain ⟨orders, m, hblock⟩ := h s id block hmem
  obtain ⟨⟨b, err⟩, hread, hb⟩ := bind_eq_ok_iff.mp hblock
  cases hb
  exact Nat.lt_of_le_of_lt (unmarshalText_height commitmentReadFrom hread) (by decide)

/-- How far the orphans can still go down. The height that follows 0 gets no block, so it is
the lowest. -/
def Counters.rank (k : Counters) : Nat :=
  if k.isOrphan then if k.orphanNum.toNat < 2 ^ 63 then k.orphanNum.toNat + 1 else 0
  else 2 ^ 63 + 1

/-- What an iteration decreases, in the lexicographic order. -/
def Counters.potential (k : Counters) : Nat × Nat := (2 ^ 64 - k.num.toNat, Counters.rank k)

/-- An orphan leaves `num` and lowers the rank. -/
theorem Counters.rank_orphan (hreq : k.reqNum.toNat < 2 ^ 63) :
    Counters.rank (Counters.after k true) < Counters.rank k := by
  have hafter : Counters.rank (Counters.after k true) ≤ k.reqNum.toNat := by
    show (if (k.reqNum - 1).toNat < 2 ^ 63 then (k.reqNum - 1).toNat + 1 else 0) ≤ _
    split
    · next hlt =>
      rw [UInt64.toNat_sub, UInt64.toNat_one] at hlt ⊢
      omega
    · exact Nat.zero_le _
  refine Nat.lt_of_le_of_lt hafter ?_
  rw [Counters.rank]
  rw [Counters.reqNum] at hreq ⊢
  split
  · next horphan =>
    rw [if_pos horphan] at hreq
    rw [if_pos hreq]
    exact Nat.lt_succ_self _
  · next horphan =>
    rw [if_neg horphan] at hreq
    omega

/-- An iteration that does not leave the loop decreases the potential, unless the next one
finds the guard not met: then `num` has gone from its greatest value to 0. -/
theorem requestNext_decreases (hheights : Varint63Heights api)
    (hnext : api.requestNext peerID s k = (s', some k')) :
    k'.num = 0 ∨ Prod.Lex (· < ·) (· < ·) (Counters.potential k') (Counters.potential k) := by
  rcases requestNext_cases api peerID s k with ⟨hnone, -⟩ |
    ⟨block, orphan, t, -, hheight, ⟨u, hsignal⟩, hnext'⟩
  · rw [hnext] at hnone
    cases hnone
  rw [hnext] at hnext'
  obtain ⟨-, hk'⟩ := Prod.mk.inj hnext'
  cases hk'
  cases orphan with
  | true =>
    have hreq := hheights u peerID block hsignal
    rw [hheight] at hreq
    exact .inr (.right _ (Counters.rank_orphan hreq))
  | false =>
    have hlt := k.num.toNat_lt
    have hsucc : (k.num + 1).toNat = (k.num.toNat + 1) % 2 ^ 64 := UInt64.toNat_add k.num 1
    rcases Nat.lt_or_ge (k.num.toNat + 1) (2 ^ 64) with hsmall | hwrap
    · refine .inr (.left _ _ ?_)
      show 2 ^ 64 - (k.num + 1).toNat < 2 ^ 64 - k.num.toNat
      rw [hsucc, Nat.mod_eq_of_lt hsmall]
      omega
    · refine .inl (UInt64.toNat_inj.mp ?_)
      show (k.num + 1).toNat = 0
      rw [hsucc]
      omega

theorem requestLoop_stop (fuel : Nat) (hguard : ¬ (0 < k.num ∧ k.num ≤ maxPeerHeight)) :
    api.requestLoop peerID maxPeerHeight fuel s k = some s := by
  cases fuel with
  | zero => exact if_neg hguard
  | succ fuel => exact if_neg hguard

variable (peerID maxPeerHeight) in
/-- From any counters the loop is left. Induction on the potential. -/
theorem requestLoop_ends (hheights : Varint63Heights api) (s : γ) (k : Counters) :
    ∃ fuel s', api.requestLoop peerID maxPeerHeight fuel s k = some s' := by
  induction k using (InvImage.wf Counters.potential
    (WellFounded.prod_lex Nat.lt_wfRel.wf Nat.lt_wfRel.wf)).induction generalizing s with
  | _ k ih =>
    by_cases hguard : 0 < k.num ∧ k.num ≤ maxPeerHeight
    swap
    · exact ⟨0, s, requestLoop_stop 0 hguard⟩
    rcases hnext : api.requestNext peerID s k with ⟨t, _ | k'⟩
    · refine ⟨1, t, ?_⟩
      rw [KeeperApi.requestLoop, if_pos hguard, hnext]
    · rcases requestNext_decreases hheights hnext with hzero | hdec
      · refine ⟨1, t, ?_⟩
        rw [requestLoop_succ 0 hguard.1 hguard.2 hnext]
        refine requestLoop_stop 0 fun hguard' => ?_
        rw [hzero] at hguard'
        exact absurd hguard'.1 (by decide)
      · obtain ⟨fuel, s', hloop⟩ := ih k' hdec t
        exact ⟨fuel + 1, s', (requestLoop_succ fuel hguard.1 hguard.2 hnext).trans hloop⟩

/-- A loop that is left within `fuel` iterations has no more of them. -/
theorem length_iterations_le {fuel : Nat}
    (h : api.requestLoop peerID maxPeerHeight fuel s k = some s') (n : Nat) :
    (api.iterations peerID maxPeerHeight n s k).length ≤ fuel := by
  induction fuel generalizing s k n with
  | zero =>
    have hguard : ¬ (0 < k.num ∧ k.num ≤ maxPeerHeight) := by
      intro hguard
      rw [KeeperApi.requestLoop, if_pos hguard] at h
      cases h
    rw [iterations_stop n hguard]
    exact Nat.le_refl 0
  | succ fuel ih =>
    cases n with
    | zero => exact Nat.zero_le _
    | succ n =>
      by_cases hguard : 0 < k.num ∧ k.num ≤ maxPeerHeight
      swap
      · rw [iterations_stop _ hguard]
        exact Nat.zero_le _
      rcases hnext : api.requestNext peerID s k with ⟨t, _ | k'⟩
      · rw [iterations_last n hguard (by rw [hnext])]
        exact Nat.succ_le_succ (Nat.zero_le fuel)
      · rw [requestLoop_succ fuel hguard.1 hguard.2 hnext] at h
        rw [iterations_succ n hguard hnext]
        exact Nat.succ_le_succ (ih h n)

/-- Whatever the peer sends and whatever the verdicts are, the worker returns, after finitely
many calls of `BlockRequest`. -/
theorem blockRequestWorker_returns {γ : Type} (api : KeeperApi γ) (hheights : Varint63Heights api)
    (s : γ) (peerID : Str) (maxPeerHeight : UInt64) :
    ∃ fuel, (∃ res, api.blockRequestWorker fuel s peerID maxPeerHeight = some res) ∧
      ∀ n, (api.iterations peerID maxPeerHeight n s
        ⟨api.bestBlockHeight s + 1, 0, false⟩).length ≤ fuel := by
  obtain ⟨fuel, s', hloop⟩ := requestLoop_ends peerID maxPeerHeight hheights s
    ⟨api.bestBlockHeight s + 1, 0, false⟩
  refine ⟨fuel, ?_, length_iterations_le hloop⟩
  rw [KeeperApi.blockRequestWorker, hloop]
  split
  · exact ⟨_, rfl⟩
  · exact ⟨_, rfl⟩

end

/-! ### A peer with forged blocks -/

/-- A block whose parent nobody has. -/
def forgedBlock (height : UInt64) : Block := blockAt height (height + 1000) 999 0

/-- A node whose only peer answers every request with a forged block. A block of a height from
`2 ^ 63` on cannot be sent. -/
def forgingKeeper : KeeperApi SyncNode :=
  { peerKeeper with
    signals := fun s =>
      (if s.asked.toNat < 2 ^ 63 then [.pendingResponse peerID (forgedBlock s.asked)] else [], s) }

/-- A node that has only the genesis block synchronises with a peer of height 1. -/
theorem forged_orphan_underflows :
    ¬ ∀ it ∈ forgingKeeper.iterations peerID 1 3 ⟨nonceApi.genesisChain genesisBlock 1, 0⟩
      ⟨forgingKeeper.bestBlockHeight ⟨nonceApi.genesisChain genesisBlock 1, 0⟩ + 1, 0, false⟩,
      IterationRecord.Real 1 it := by
  have hheights : (forgingKeeper.iterations peerID 1 3 ⟨nonceApi.genesisChain genesisBlock 1, 0⟩
      ⟨forgingKeeper.bestBlockHeight ⟨nonceApi.genesisChain genesisBlock 1, 0⟩ + 1, 0, false⟩).map
      IterationRecord.height = [1, 0, 18446744073709551615] := by decide
  intro hreal
  have hmem : (0 : UInt64) ∈ (forgingKeeper.iterations peerID 1 3
      ⟨nonceApi.genesisChain genesisBlock 1, 0⟩
      ⟨forgingKeeper.bestBlockHeight ⟨nonceApi.genesisChain genesisBlock 1, 0⟩ + 1, 0, false⟩).map
      IterationRecord.height := by
    rw [hheights]
    decide
  obtain ⟨it, hit, hzero⟩ := List.mem_map.mp hmem
  have hone := (hreal it hit).1
  rw [hzero] at hone
  exact absurd hone (by decide)

theorem forgingKeeper_heights : Varint63Heights forgingKeeper := by
  intro s id block hmem
  change _ ∈ (if s.asked.toNat < 2 ^ 63 then _ else _) at hmem
  split at hmem
  · next hlt =>
    cases List.mem_singleton.mp hmem
    exact hlt
  · cases hmem

/-- The forging peer claims the greatest height, and the worker returns. -/
theorem forging_peer_left :
    ∃ fuel, (∃ res, forgingKeeper.blockRequestWorker fuel
      ⟨nonceApi.genesisChain genesisBlock 1, 0⟩ peerID 18446744073709551615 = some res) ∧
      ∀ n, (forgingKeeper.iterations peerID 18446744073709551615 n
        ⟨nonceApi.genesisChain genesisBlock 1, 0⟩
        ⟨forgingKeeper.bestBlockHeight ⟨nonceApi.genesisChain genesisBlock 1, 0⟩ + 1, 0,
          false⟩).length ≤ fuel :=
  blockRequestWorker_returns forgingKeeper forgingKeeper_heights _ _ _

end BtmStats.Proofs.Netsync
