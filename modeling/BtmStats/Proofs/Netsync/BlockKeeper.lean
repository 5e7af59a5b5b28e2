import Mathlib.Data.Set.Insert
import BtmStats.Spec.Netsync.BlockKeeper

/-!
# `BtmStats.Proofs.Netsync.BlockKeeper`: synchronisation with an honest peer

`BlockRequestWorker` asks for the block above the best one. While the answers are orphans it
goes down the chain of the peer, to a block whose parent is known. That block takes the kept
orphans with it (`walks_down`). From there on every parent is known, and the loop goes up to
the height of the peer (`walks_up`). So it ends, and the whole chain of the peer is known
(`syncs_with_honest_peer`).
-/

set_option autoImplicit false

namespace BtmStats.Proofs.Netsync

open Spec Spec.Netsync
open Spec.Bc (Hash)
open Spec.Types (Block)

/-- A block that `BlockRequest` takes from the signals has the height asked for. -/
theorem awaitBlock_ok {peerID : Str} {height : UInt64} {block : Block} {signals : List Signal}
    (h : awaitBlock peerID height signals = .ok block) :
    block.blockHeader.height = height ∧ .pendingResponse peerID block ∈ signals := by
  induction signals with
  | nil => cases h
  | cons signal rest ih =>
    have tail (h : awaitBlock peerID height rest = .ok block) :
        block.blockHeader.height = height ∧ .pendingResponse peerID block ∈ signal :: rest :=
      ⟨(ih h).1, .tail _ (ih h).2⟩
    cases signal with
    | pendingResponse id b =>
      rw [awaitBlock] at h
      split at h
      · exact tail h
      · next hid =>
        split at h
        · exact tail h
        · next hheight =>
          cases h
          rw [not_not] at hid hheight
          subst hid
          exact ⟨hheight, .head _⟩
    | retryTicker sent =>
      rw [awaitBlock] at h
      split at h
      · exact tail h
      · cases h
    | quitReqBlock id =>
      rw [awaitBlock] at h
      split at h
      · cases h
      · exact tail h

/-- What a chain has: the hashes of the blocks that it knows, and the orphans that it
keeps. -/
structure Store where
  known : Set Hash
  kept : Set Block

section
variable (hash : Block → Hash)

/-- A kept orphan that descends from a block, through other kept orphans. -/
inductive Descends (kept : Set Block) (b : Block) : Block → Prop where
  | child {o : Block} (hkept : o ∈ kept) (hprev : o.blockHeader.previousBlockHash = hash b) :
      Descends kept b o
  | further {o o' : Block} (h : Descends kept b o) (hkept : o' ∈ kept)
      (hprev : o'.blockHeader.previousBlockHash = hash o) : Descends kept b o'

/-- The blocks of a chain up to a height. -/
structure IsChain (chain : Nat → Block) (top : UInt64) : Prop where
  height : ∀ h, h ≤ top.toNat → (chain h).blockHeader.height.toNat = h
  parent : ∀ h, h < top.toNat → (chain (h + 1)).blockHeader.previousBlockHash = hash (chain h)

/-- Every block of the chain that is known has a known parent, except the one at height 0. -/
def ParentClosed (chain : Nat → Block) (top : UInt64) (known : Set Hash) : Prop :=
  ∀ h, 0 < h → h ≤ top.toNat → hash (chain h) ∈ known →
    (chain h).blockHeader.previousBlockHash ∈ known

end

section
variable {γ : Type} (hash : Block → Hash) (api : KeeperApi γ) (store : γ → Store)

/-- `BlockRequest` gives the block of the peer's chain at every height. The states in which
it does so are `good`. -/
def Answers (good : γ → Prop) (peerID : Str) (chain : Nat → Block) (top : UInt64) : Prop :=
  ∀ s n, good s → 0 < n → n ≤ top → ∃ s', api.blockRequest s peerID n = (.ok (chain n.toNat), s') ∧
    good s' ∧ store s' = store s

/-- What `ProcessBlock` does with the blocks of a chain: a block without a known parent is
kept as an orphan, any other is made known with the kept orphans that descend from it. -/
structure Processes (good : γ → Prop) (chain : Nat → Block) (top : UInt64) : Prop where
  orphan : ∀ s h, good s → 0 < h → h ≤ top.toNat →
    (chain h).blockHeader.previousBlockHash ∉ (store s).known →
    ∃ s', api.processBlock s (chain h) = ((true, none), s') ∧ good s' ∧
      store s' = ⟨(store s).known, insert (chain h) (store s).kept⟩
  attach : ∀ s h, good s → 0 < h → h ≤ top.toNat →
    (chain h).blockHeader.previousBlockHash ∈ (store s).known →
    ∃ s', api.processBlock s (chain h) = ((false, none), s') ∧ good s' ∧
      (store s).known ⊆ (store s').known ∧ hash (chain h) ∈ (store s').known ∧
      ∀ o, Descends hash (store s).kept (chain h) o → hash o ∈ (store s').known

end

section
variable {γ : Type} {hash : Block → Hash} {api : KeeperApi γ} {store : γ → Store} {good : γ → Prop}
  {peerID : Str} {chain : Nat → Block} {top : UInt64} {s : γ} {k : Counters} {r n : Nat}

/-- The answer to the next request. -/
theorem Answers.request (hanswers : Answers api store good peerID chain top) (hs : good s)
    (hreq : k.reqNum.toNat = r) (hpos : 0 < r) (hle : r ≤ top.toNat) :
    ∃ s', api.blockRequest s peerID k.reqNum = (.ok (chain r), s') ∧ good s' ∧
      store s' = store s := by
  subst hreq
  exact hanswers s k.reqNum hs (UInt64.lt_iff_toNat_lt.mpr hpos) (UInt64.le_iff_toNat_le.mpr hle)

theorem requestNext_orphan (hanswers : Answers api store good peerID chain top)
    (hproc : Processes hash api store good chain top) (hs : good s) (hreq : k.reqNum.toNat = r)
    (hpos : 0 < r) (hle : r ≤ top.toNat)
    (hparent : (chain r).blockHeader.previousBlockHash ∉ (store s).known) :
    ∃ s', api.requestNext peerID s k = (s', some
        { k with orphanNum := (chain r).blockHeader.height - 1, isOrphan := true }) ∧
      good s' ∧ store s' = ⟨(store s).known, insert (chain r) (store s).kept⟩ := by
  obtain ⟨s₁, hrequest, hs₁, hstore⟩ := hanswers.request hs hreq hpos hle
  rw [← hstore] at hparent ⊢
  obtain ⟨s', hprocess, hs', hstore'⟩ := hproc.orphan s₁ r hs₁ hpos hle hparent
  refine ⟨s', ?_, hs', hstore'⟩
  simp only [KeeperApi.requestNext, hrequest, hprocess]

theorem requestNext_attach (hanswers : Answers api store good peerID chain top)
    (hproc : Processes hash api store good chain top) (hs : good s) (hreq : k.reqNum.toNat = r)
    (hpos : 0 < r) (hle : r ≤ top.toNat)
    (hparent : (chain r).blockHeader.previousBlockHash ∈ (store s).known) :
    ∃ s', api.requestNext peerID s k = (s', some { k with num := k.num + 1, isOrphan := false }) ∧
      good s' ∧ (store s).known ⊆ (store s').known ∧ hash (chain r) ∈ (store s').known ∧
      ∀ o, Descends hash (store s).kept (chain r) o → hash o ∈ (store s').known := by
  obtain ⟨s₁, hrequest, hs₁, hstore⟩ := hanswers.request hs hreq hpos hle
  rw [← hstore] at hparent ⊢
  obtain ⟨s', hprocess, hs', hknown⟩ := hproc.attach s₁ r hs₁ hpos hle hparent
  refine ⟨s', ?_, hs', hknown⟩
  simp only [KeeperApi.requestNext, hrequest, hprocess]

/-- The loop goes on after an iteration. -/
theorem requestLoop_succ {s' : γ} {k' : Counters} (fuel : Nat) (hpos : 0 < k.num)
    (hle : k.num ≤ top) (hnext : api.requestNext peerID s k = (s', some k')) :
    api.requestLoop peerID top (fuel + 1) s k = api.requestLoop peerID top fuel s' k' := by
  rw [KeeperApi.requestLoop, if_pos ⟨hpos, hle⟩, hnext]

/-- The blocks of the chain up to a height are known. -/
def KnownUpTo (hash : Block → Hash) (store : Store) (chain : Nat → Block) (n : Nat) : Prop :=
  ∀ h, h ≤ n → hash (chain h) ∈ store.known

/-- With a known block its ancestors are known. -/
theorem knownUpTo_of_closed (hchain : IsChain hash chain top) {known : Set Hash}
    (hclosed : ParentClosed hash chain top known) (hle : n ≤ top.toNat)
    (hn : hash (chain n) ∈ known) : ∀ h, h ≤ n → hash (chain h) ∈ known := by
  induction n with
  | zero =>
    intro h hh
    obtain rfl : h = 0 := by omega
    exact hn
  | succ n ih =>
    have hprev := hclosed (n + 1) (Nat.succ_pos n) hle hn
    rw [hchain.parent n hle] at hprev
    intro h hh
    rcases Nat.lt_or_ge n h with hlt | hge
    · obtain rfl : h = n + 1 := by omega
      exact hn
    · exact ih (by omega) hprev h hge

/-- Consecutive kept orphans descend from the block below them. -/
theorem descends_of_kept (hchain : IsChain hash chain top) {kept : Set Block} (hle : n ≤ top.toNat)
    (hkept : ∀ j, r < j → j ≤ n → chain j ∈ kept) :
    ∀ j, r < j → j ≤ n → Descends hash kept (chain r) (chain j) := by
  intro j
  induction j with
  | zero => intro hlt _; omega
  | succ j ih =>
    intro hlt hj
    have hprev := hchain.parent j (by omega)
    rcases Nat.lt_or_ge r j with hrj | hrj
    · exact .further (ih hrj (by omega)) (hkept _ hlt hj) hprev
    · obtain rfl : j = r := by omega
      exact .child (hkept _ hlt hj) hprev

/-- A block with a known parent brings the kept orphans above it. -/
theorem knownUpTo_of_attach (hchain : IsChain hash chain top) {store store' : Store}
    (hclosed : ParentClosed hash chain top store.known) (hrn : r + 1 ≤ n) (hle : n ≤ top.toNat)
    (hparent : hash (chain r) ∈ store.known) (hkept : ∀ j, r + 1 < j → j ≤ n → chain j ∈ store.kept)
    (hsub : store.known ⊆ store'.known) (hself : hash (chain (r + 1)) ∈ store'.known)
    (hdesc : ∀ o, Descends hash store.kept (chain (r + 1)) o → hash o ∈ store'.known) :
    KnownUpTo hash store' chain n := by
  intro h hh
  rcases Nat.lt_trichotomy h (r + 1) with hlt | rfl | hgt
  · exact hsub (knownUpTo_of_closed hchain hclosed (by omega) hparent h (by omega))
  · exact hself
  · exact hdesc _ (descends_of_kept hchain hle hkept h hgt hh)

/-- The height that is asked for after an orphan. -/
theorem IsChain.height_sub_one (hchain : IsChain hash chain top) (hle : r + 1 ≤ top.toNat) :
    ((chain (r + 1)).blockHeader.height - 1).toNat = r := by
  have hheight := hchain.height (r + 1) hle
  have hone : 1 ≤ (chain (r + 1)).blockHeader.height := by
    rw [UInt64.le_iff_toNat_le, hheight]
    exact Nat.le_add_left 1 r
  rw [UInt64.toNat_sub_of_le _ _ hone, hheight]
  rfl

/-- The way down: the blocks from `r + 1` to `n` are kept as orphans, and the block at `r` is
asked for next. After at most `r` requests all blocks up to `n` are known, and the loop goes
on above them. -/
theorem walks_down (hchain : IsChain hash chain top)
    (hanswers : Answers api store good peerID chain top)
    (hproc : Processes hash api store good chain top) (hs : good s)
    (hclosed : ParentClosed hash chain top (store s).known)
    (hroot : hash (chain 0) ∈ (store s).known) (hn : k.num.toNat = n) (hle : n ≤ top.toNat)
    (hreq : k.reqNum.toNat = r) (hpos : 0 < r) (hrn : r ≤ n)
    (hkept : ∀ j, r < j → j ≤ n → chain j ∈ (store s).kept) :
    ∃ s' m k', m ≤ r ∧ good s' ∧ KnownUpTo hash (store s') chain n ∧ k'.num = k.num + 1 ∧
      k'.isOrphan = false ∧ ∀ fuel, api.requestLoop peerID top (fuel + m) s k =
        api.requestLoop peerID top fuel s' k' := by
  have hnum : 0 < k.num := by
    rw [UInt64.lt_iff_toNat_lt, hn]
    exact Nat.lt_of_lt_of_le hpos hrn
  have htop : k.num ≤ top := by
    rw [UInt64.le_iff_toNat_le, hn]
    exact hle
  induction r generalizing s k with
  | zero => omega
  | succ r ih =>
    have hprev := hchain.parent r (by omega)
    by_cases hparent : (chain (r + 1)).blockHeader.previousBlockHash ∈ (store s).known
    · -- The parent is known: the kept orphans come with the block.
      obtain ⟨s', hnext, hs', hsub, hself, hdesc⟩ :=
        requestNext_attach hanswers hproc hs hreq hpos (by omega) hparent
      rw [hprev] at hparent
      exact ⟨s', 1, _, by omega, hs',
        knownUpTo_of_attach hchain hclosed hrn hle hparent hkept hsub hself hdesc, rfl, rfl,
        fun fuel => requestLoop_succ fuel hnum htop hnext⟩
    · -- The block is kept too, and the one below it is asked for.
      obtain ⟨s₁, hnext, hs₁, hstore⟩ :=
        requestNext_orphan hanswers hproc hs hreq hpos (by omega) hparent
      have hr : 0 < r := by
        rcases Nat.eq_zero_or_pos r with rfl | hr
        · rw [hprev] at hparent
          exact absurd hroot hparent
        · exact hr
      have hkept' : ∀ j, r < j → j ≤ n → chain j ∈ (store s₁).kept := by
        intro j hj hjn
        rw [hstore]
        rcases Nat.eq_or_lt_of_le hj with rfl | hgt
        · exact Set.mem_insert _ _
        · exact Set.mem_insert_of_mem _ (hkept j hgt hjn)
      obtain ⟨s', m, k', hm, hs', hknown, hnum', horphan, hloop⟩ :=
        ih (k := { k with
          orphanNum := (chain (r + 1)).blockHeader.height - 1, isOrphan := true }) hs₁
          (by rw [hstore]; exact hclosed) (by rw [hstore]; exact hroot) hn
          (hchain.height_sub_one (by omega)) hr (by omega) hkept' hnum htop
      refine ⟨s', m + 1, k', by omega, hs', hknown, hnum', horphan, fun fuel => ?_⟩
      rw [← Nat.add_assoc, requestLoop_succ _ hnum htop hnext]
      exact hloop fuel

/-- Above the height of the peer the loop ends, also when the number is 0 again. -/
theorem requestLoop_above (hnum : k.num = UInt64.ofNat (top.toNat + 1)) (fuel : Nat) (s : γ) :
    api.requestLoop peerID top fuel s k = some s := by
  have hend : ¬ (0 < k.num ∧ k.num ≤ top) := by
    rw [hnum, UInt64.lt_iff_toNat_lt, UInt64.le_iff_toNat_le, UInt64.toNat_ofNat']
    have htop := top.toNat_lt
    rintro ⟨hpos, hle⟩
    rcases Nat.lt_or_ge (top.toNat + 1) (2 ^ 64) with hlt | hge
    · rw [Nat.mod_eq_of_lt hlt] at hle
      omega
    · obtain heq : top.toNat + 1 = 2 ^ 64 := by omega
      rw [heq, Nat.mod_self] at hpos
      exact absurd hpos (by decide)
  cases fuel with
  | zero => exact if_neg hend
  | succ fuel => exact if_neg hend

/-- The way up: all blocks up to `n` are known, and the next one is asked for. -/
theorem walks_up (hchain : IsChain hash chain top)
    (hanswers : Answers api store good peerID chain top)
    (hproc : Processes hash api store good chain top) (hs : good s) (hle : n ≤ top.toNat)
    (hknown : KnownUpTo hash (store s) chain n) (hnum : k.num = UInt64.ofNat (n + 1))
    (horphan : k.isOrphan = false) {fuel : Nat} (hfuel : top.toNat ≤ fuel + n) :
    ∃ s', api.requestLoop peerID top fuel s k = some s' ∧
      KnownUpTo hash (store s') chain top.toNat := by
  induction fuel generalizing s k n with
  | zero =>
    obtain rfl : n = top.toNat := by omega
    exact ⟨s, requestLoop_above hnum 0 s, hknown⟩
  | succ fuel ih =>
    rcases Nat.eq_or_lt_of_le hle with rfl | hlt
    · exact ⟨s, requestLoop_above hnum _ s, hknown⟩
    have hnat : k.num.toNat = n + 1 := by
      rw [hnum, UInt64.toNat_ofNat']
      exact Nat.mod_eq_of_lt (by have := top.toNat_lt; omega)
    have hreq : k.reqNum.toNat = n + 1 := by
      rw [Counters.reqNum, horphan]
      exact hnat
    have hparent : (chain (n + 1)).blockHeader.previousBlockHash ∈ (store s).known := by
      rw [hchain.parent n hlt]
      exact hknown n (Nat.le_refl n)
    obtain ⟨s₁, hnext, hs₁, hsub, hself, -⟩ :=
      requestNext_attach hanswers hproc hs hreq (Nat.succ_pos n) hlt hparent
    have hknown₁ : KnownUpTo hash (store s₁) chain (n + 1) := by
      intro h hh
      rcases Nat.eq_or_lt_of_le hh with rfl | hlt
      · exact hself
      · exact hsub (hknown h (by omega))
    rw [requestLoop_succ fuel (by rw [UInt64.lt_iff_toNat_lt, hnat]; exact Nat.succ_pos n)
      (by rw [UInt64.le_iff_toNat_le, hnat]; exact hlt) hnext]
    refine ih hs₁ hlt hknown₁ ?_ rfl (by omega)
    show k.num + 1 = UInt64.ofNat (n + 1 + 1)
    rw [hnum, UInt64.ofNat_add (n + 1) 1]
    rfl

/-- Whatever blocks were known or kept before, the loop ends after at most as many requests
as the height of the peer, and then all blocks of its chain are known. -/
theorem syncs_with_honest_peer {γ : Type} (api : KeeperApi γ) (hash : Block → Hash)
    (store : γ → Store) (good : γ → Prop) (peerID : Str) (chain : Nat → Block) (top : UInt64)
    (hchain : IsChain hash chain top) (hanswers : Answers api store good peerID chain top)
    (hproc : Processes hash api store good chain top) (s : γ) (hs : good s)
    (hroot : hash (chain 0) ∈ (store s).known)
    (hclosed : ParentClosed hash chain top (store s).known)
    (hbest : api.bestBlockHeight s < top) (hpeer : api.isRegistered s peerID = true) :
    ∃ s', api.requestLoop peerID top top.toNat s ⟨api.bestBlockHeight s + 1, 0, false⟩ = some s' ∧
      api.blockRequestWorker top.toNat s peerID top =
        some (api.finishSync (api.bestBlockHash s) s') ∧
      ∀ h, 1 ≤ h → h ≤ top.toNat → hash (chain h) ∈ (store s').known := by
  have hlt := UInt64.lt_iff_toNat_lt.mp hbest
  have hnum : api.bestBlockHeight s + 1 = UInt64.ofNat ((api.bestBlockHeight s).toNat + 1) := by
    rw [UInt64.ofNat_add, UInt64.ofNat_toNat]
    rfl
  have hnat : (api.bestBlockHeight s + 1).toNat = (api.bestBlockHeight s).toNat + 1 := by
    rw [hnum, UInt64.toNat_ofNat']
    exact Nat.mod_eq_of_lt (by have := top.toNat_lt; omega)
  -- No block is kept above the first one that is asked for.
  obtain ⟨s₁, m, k, hm, hs₁, hknown, hk, horphan, hdown⟩ :=
    walks_down (k := ⟨api.bestBlockHeight s + 1, 0, false⟩) hchain hanswers hproc hs hclosed hroot
      hnat hlt hnat (Nat.succ_pos _) (Nat.le_refl _) (fun j hj hjn => absurd hjn (by omega))
  obtain ⟨s', hup, hall⟩ := walks_up hchain hanswers hproc hs₁ hlt hknown
    (k := k) (by rw [hk, hnum, UInt64.ofNat_add (_ + 1) 1]; rfl) horphan
    (by omega : top.toNat ≤ top.toNat - m + ((api.bestBlockHeight s).toNat + 1))
  have hloop : api.requestLoop peerID top top.toNat s ⟨api.bestBlockHeight s + 1, 0, false⟩ =
      some s' := by
    have hsum := hdown (top.toNat - m)
    rw [Nat.sub_add_cancel (by omega : m ≤ top.toNat)] at hsum
    exact hsum.trans hup
  refine ⟨s', hloop, ?_, fun h _ hh => hall h hh⟩
  rw [KeeperApi.blockRequestWorker, hpeer, hloop]
  rfl

end

end BtmStats.Proofs.Netsync
