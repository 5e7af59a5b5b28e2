import BtmStats.Proofs.Netsync.BlockKeeper
import BtmStats.Proofs.Protocol.ForkChoice

/-!
# `BtmStats.Proofs.Netsync.SyncChain`: synchronisation of the chain

The chain of `protocol/block.go` keeps orphans and attaches them as the synchronisation
needs it (`processBlock_processes`). So a node with that chain, whose blocks and the blocks
of the peer are valid, gets to know the chain of an honest peer (`forked_node_syncs`).
-/

set_option autoImplicit false

namespace BtmStats.Proofs.Netsync

open Lib Spec Spec.Netsync Spec.Protocol Proofs.Protocol
open Spec.Bc (Hash)
open Spec.Types (Block)

section
variable {γ : Type} (api : ChainApi) (chainOf : γ → Chain)

/-- The blocks that a chain has a node for, and its orphans. -/
def chainStore (c : Chain) : Store where
  known := { h | (c.getNode h).isSome }
  kept := { o | ∃ h, c.orphanManage.orphan.lookup h = some o }

/-- `ProcessBlock` of the block keeper is `processBlock` on its chain. -/
def RunsProcessBlock (keeper : KeeperApi γ) : Prop :=
  ∀ s b c' orphan err, api.processBlock (chainOf s) b = .ok (c', orphan, err) →
    ∃ s', keeper.processBlock s b = ((orphan, err), s') ∧ chainOf s' = c'

end

section
variable {γ : Type} {api : ChainApi} {chainOf : γ → Chain} {keeper : KeeperApi γ}
  {work : Block → Nat} {valid : Block → Prop} {genesis : Block} {genesisWork : Nat}
  {blocks : List Block} {v v' : View Block} {c : Chain} {b : Block}

theorem mem_kept_iff (h : Sim api work genesis genesisWork blocks c v) :
    b ∈ (chainStore c).kept ↔ b ∈ v.waiting := by
  constructor
  · rintro ⟨x, hx⟩
    exact ((h.orphan_iff x b).mp hx).1
  · intro hb
    exact ⟨_, (h.orphan_iff _ b).mpr ⟨hb, rfl⟩⟩

/-- The store is what the view has. -/
theorem chainStore_eq (h : Sim api work genesis genesisWork blocks c v) :
    chainStore c = ⟨{ x | ∃ b ∈ v.known, api.hash b.blockHeader = x }, { b | b ∈ v.waiting }⟩ := by
  have hknown : (chainStore c).known = { x | ∃ b ∈ v.known, api.hash b.blockHeader = x } := by
    ext x
    constructor
    · intro hx
      obtain ⟨ref, href⟩ := Option.isSome_iff_exists.mp hx
      exact h.of_getNode href
    · rintro ⟨b, hb, rfl⟩
      obtain ⟨ref, href, -⟩ := h.node b hb
      exact Option.isSome_iff_exists.mpr ⟨ref, href⟩
  have hkept : (chainStore c).kept = { b | b ∈ v.waiting } := Set.ext fun b => mem_kept_iff h
  rw [← hknown, ← hkept]

theorem mem_known_iff (hset : Closed api valid genesis blocks)
    (h : Sim api work genesis genesisWork blocks c v) (hb : b ∈ genesis :: blocks) :
    api.hash b.blockHeader ∈ (chainStore c).known ↔ b ∈ v.known :=
  h.isSome_getNode hset hb

/-- A waiting block has the block with its parent hash as its parent. -/
theorem parentOf_of_waiting (hset : Closed api valid genesis blocks)
    (h : Sim api work genesis genesisWork blocks c v) {o : Block} (ho : o ∈ v.waiting)
    (hb : b ∈ genesis :: blocks)
    (hprev : o.blockHeader.previousBlockHash = api.hash b.blockHeader) :
    parentOf api genesis blocks o = some b := by
  obtain ⟨hmem, hne⟩ := h.mem_blocks (h.mem_cons (.inr ho)) (h.disjoint o ho)
  exact (parentOf_eq_some hset).mpr ⟨hmem, hne, hb, hprev⟩

/-- A block whose parent is not known is kept. -/
theorem deliver_orphan {t : ForkTree Block} {p : Block} (hparent : t.parent b = some p)
    (hp : p ∉ v.known) (hb : b ∉ v.known) (hstep : t.Deliver v b v') :
    v'.known = v.known ∧ v'.waiting = insert b v.waiting := by
  cases hstep with
  | seen hseen => exact ⟨rfl, (Finset.insert_eq_of_mem (hseen.resolve_left hb)).symm⟩
  | wait => exact ⟨rfl, rfl⟩
  | attach fresh a hnew hparent' hp' =>
    rw [hparent, Option.some.injEq] at hparent'
    exact absurd (hparent' ▸ hp') hp

/-- A block whose parent is known becomes known, with the waiting blocks that descend from
it. -/
theorem deliver_attach (hset : Closed api valid genesis blocks) (hwork : ∀ b, valid b → 0 < work b)
    (h : Sim api work genesis genesisWork blocks c v) {root p : Block} {all : Finset Block}
    (hinv : ForkTree.Inv (tree hset hwork genesisWork) root all v) (hb : b ∈ genesis :: blocks)
    (hparent : parentOf api genesis blocks b = some p) (hp : p ∈ v.known)
    (hstep : (tree hset hwork genesisWork).Deliver v b v') :
    v.known ⊆ v'.known ∧ b ∈ v'.known ∧
      ∀ o, Descends (fun b => api.hash b.blockHeader) (chainStore c).kept b o →
        o ∈ v'.known ∧ o ∈ genesis :: blocks := by
  cases hstep with
  | seen hseen =>
    have hknown : b ∈ v.known := by
      rcases hseen with hk | hw
      · exact hk
      · exact absurd hp (hinv.waits b hw p hparent)
    -- No block waits for a known one, so nothing descends from `b`.
    refine ⟨Finset.Subset.refl _, hknown, fun o ho => ?_⟩
    induction ho with
    | child hkept hprev =>
      have hw := (mem_kept_iff h).mp hkept
      exact absurd hknown (hinv.waits _ hw b (parentOf_of_waiting hset h hw hb hprev))
    | further _ hkept hprev ih =>
      have hw := (mem_kept_iff h).mp hkept
      exact absurd ih.1 (hinv.waits _ hw _ (parentOf_of_waiting hset h hw ih.2 hprev))
  | wait hnew hunknown => exact absurd hp (hunknown p hparent)
  | attach fresh a hnew hparent' hp' hfresh =>
    refine ⟨Finset.subset_union_left, Finset.mem_union_right _ hfresh.self_mem, fun o ho => ?_⟩
    have hmem : o ∈ fresh ∧ o ∈ genesis :: blocks := by
      induction ho with
      | child hkept hprev =>
        have hw := (mem_kept_iff h).mp hkept
        exact ⟨hfresh.complete _ hw b hfresh.self_mem (parentOf_of_waiting hset h hw hb hprev),
          h.mem_cons (.inr hw)⟩
      | further _ hkept hprev ih =>
        have hw := (mem_kept_iff h).mp hkept
        exact ⟨hfresh.complete _ hw _ ih.1 (parentOf_of_waiting hset h hw ih.2 hprev),
          h.mem_cons (.inr hw)⟩
    exact ⟨Finset.mem_union_right _ hmem.1, hmem.2⟩

/-- The states that a chain can be in: it has the blocks of some view. -/
def InView (doc : api.Documented work valid) (hset : Closed api valid genesis blocks)
    (genesisWork : Nat) (c : Chain) : Prop :=
  ∃ v, Sim api work genesis genesisWork blocks c v ∧
    ForkTree.Inv (tree hset doc.work_pos genesisWork) genesis (allBlocks genesis blocks) v

variable {chain : Nat → Block} {top : UInt64}

/-- The parent of a block of the chain is the block below it. -/
theorem parentOf_chain (hset : Closed api valid genesis blocks)
    (hchain : IsChain (fun b => api.hash b.blockHeader) chain top) (hroot : chain 0 = genesis)
    (hmem : ∀ h, 0 < h → h ≤ top.toNat → chain h ∈ blocks) {h : Nat} (hpos : 0 < h)
    (hle : h ≤ top.toNat) :
    chain (h - 1) ∈ genesis :: blocks ∧
      (chain h).blockHeader.previousBlockHash = api.hash (chain (h - 1)).blockHeader ∧
      parentOf api genesis blocks (chain h) = some (chain (h - 1)) := by
  have hall : chain (h - 1) ∈ genesis :: blocks := by
    rcases Nat.eq_zero_or_pos (h - 1) with hzero | hpos'
    · rw [hzero, hroot]
      exact List.mem_cons_self
    · exact List.mem_cons_of_mem _ (hmem _ hpos' (by omega))
  have hprev := hchain.parent (h - 1) (by omega)
  rw [Nat.sub_add_cancel hpos] at hprev
  have hne : chain h ≠ genesis := by
    intro heq
    have hheight := hchain.height h hle
    rw [heq, ← hroot, hchain.height 0 (Nat.zero_le _)] at hheight
    omega
  exact ⟨hall, hprev, (parentOf_eq_some hset).mpr ⟨hmem h hpos hle, hne, hall, hprev⟩⟩

/-- The chain keeps orphans and attaches them as the synchronisation needs it. -/
theorem processBlock_processes (doc : api.Documented work valid)
    (hset : Closed api valid genesis blocks) (hruns : RunsProcessBlock api chainOf keeper)
    (hchain : IsChain (fun b => api.hash b.blockHeader) chain top) (hroot : chain 0 = genesis)
    (hmem : ∀ h, 0 < h → h ≤ top.toNat → chain h ∈ blocks) :
    Processes (fun b => api.hash b.blockHeader) keeper (fun s => chainStore (chainOf s))
      (fun s => InView doc hset genesisWork (chainOf s)) chain top := by
  constructor
  · rintro s h ⟨v, hsim, hinv⟩ hpos hle hunknown
    obtain ⟨hall, hprev, hparent⟩ := parentOf_chain hset hchain hroot hmem hpos hle
    have hb : chain h ∈ genesis :: blocks := List.mem_cons_of_mem _ (hmem h hpos hle)
    obtain ⟨c', v', hrun, hstep, hsim'⟩ := processBlock_sim doc hset hsim hinv.waits hb
    rw [hprev] at hunknown
    have hp : chain (h - 1) ∉ v.known := fun hk => hunknown ((mem_known_iff hset hsim hall).mpr hk)
    have hnew : chain h ∉ v.known := fun hk => hp (hsim.parent_known _ hk _ hparent)
    obtain ⟨hknown, hwaiting⟩ := deliver_orphan hparent hp hnew hstep
    have hwaits : chain h ∈ v'.waiting := by
      rw [hwaiting]
      exact Finset.mem_insert_self _ _
    rw [decide_eq_true hwaits] at hrun
    obtain ⟨s', hprocess, rfl⟩ := hruns s (chain h) c' true none hrun
    refine ⟨s', hprocess, ⟨v', hsim', hstep.inv hinv (mem_allBlocks.mpr hb)⟩, ?_⟩
    rw [chainStore_eq hsim', chainStore_eq hsim, hknown, hwaiting]
    congr 1
    ext b
    exact Finset.mem_insert
  · rintro s h ⟨v, hsim, hinv⟩ hpos hle hparentKnown
    obtain ⟨hall, hprev, hparent⟩ := parentOf_chain hset hchain hroot hmem hpos hle
    have hb : chain h ∈ genesis :: blocks := List.mem_cons_of_mem _ (hmem h hpos hle)
    obtain ⟨c', v', hrun, hstep, hsim'⟩ := processBlock_sim doc hset hsim hinv.waits hb
    rw [hprev] at hparentKnown
    have hp : chain (h - 1) ∈ v.known := (mem_known_iff hset hsim hall).mp hparentKnown
    obtain ⟨hsub, hself, hdesc⟩ := deliver_attach hset doc.work_pos hsim hinv hb hparent hp hstep
    rw [decide_eq_false fun hw => hsim'.disjoint _ hw hself] at hrun
    obtain ⟨s', hprocess, rfl⟩ := hruns s (chain h) c' false none hrun
    refine ⟨s', hprocess, ⟨v', hsim', hstep.inv hinv (mem_allBlocks.mpr hb)⟩, ?_,
      (mem_known_iff hset hsim' hb).mpr hself, fun o ho => ?_⟩
    · rw [chainStore_eq hsim', chainStore_eq hsim]
      rintro x ⟨b, hbk, rfl⟩
      exact ⟨b, hsub hbk, rfl⟩
    · obtain ⟨hknown, hmem⟩ := hdesc o ho
      exact (mem_known_iff hset hsim' hmem).mpr hknown

/-- A chain that has got some of the blocks, from the genesis block on. -/
theorem inView_of_processBlocks (doc : api.Documented work valid)
    (hset : Closed api valid genesis blocks) {bs : List Block}
    (hbs : ∀ b ∈ bs, b ∈ genesis :: blocks)
    (hrun : api.processBlocks (api.genesisChain genesis genesisWork) bs = .ok c) :
    InView doc hset genesisWork c := by
  have hinv := ForkTree.inv_init (t := tree hset doc.work_pos genesisWork)
    (Finset.mem_insert_self genesis blocks.toFinset)
  obtain ⟨c', v', hrun', hruns, hsim⟩ := processBlocks_sim doc hset hbs hinv sim_genesis
  cases hrun'.symm.trans hrun
  exact ⟨v', hsim, hruns.inv hinv fun b hb => mem_allBlocks.mpr (hbs b hb)⟩

/-- The known blocks of a chain are closed under parents. -/
theorem inView_closed (doc : api.Documented work valid) (hset : Closed api valid genesis blocks)
    (h : InView doc hset genesisWork c)
    (hmem : ∀ h, 0 < h → h ≤ top.toNat → chain h ∈ blocks ∧ chain h ≠ genesis) :
    api.hash genesis.blockHeader ∈ (chainStore c).known ∧
      ParentClosed (fun b => api.hash b.blockHeader) chain top (chainStore c).known := by
  obtain ⟨v, hsim, -⟩ := h
  refine ⟨(mem_known_iff hset hsim List.mem_cons_self).mpr hsim.root_known,
    fun n hpos hle hknown => ?_⟩
  obtain ⟨hb, hne⟩ := hmem n hpos hle
  obtain ⟨p, hp, hprev, -⟩ := hset.parent _ hb hne
  have hk := (mem_known_iff hset hsim (List.mem_cons_of_mem _ hb)).mp hknown
  rw [hprev, mem_known_iff hset hsim hp]
  exact hsim.parent_known _ hk p ((parentOf_eq_some hset).mpr ⟨hb, hne, hp, hprev⟩)

end

/-! ### A node on a fork -/

/-- A chain, and the height that was asked for last. -/
structure SyncNode where
  chain : Chain
  asked : UInt64

def peerID : Str := [1]

/-- The chain of the peer: it shares the genesis block. -/
def peerBlock : Nat → Block
  | 0 => genesisBlock
  | 1 => blockAt 1 11 0 0
  | 2 => blockAt 2 12 11 0
  | _ => blockAt 3 13 12 0

/-- The node at the tip of a chain. -/
def tip (c : Chain) : Option BlockNode := c.bestNode.bind c.node?

/-- A node whose only peer sends the blocks of its chain. -/
def peerKeeper : KeeperApi SyncNode where
  string := Hash.bytes
  bestBlockHeight s := ((tip s.chain).map BlockNode.height).getD 0
  bestBlockHash s := ((tip s.chain).map BlockNode.hash).getD .zero
  getBlockByHash _ _ := none
  processBlock s b :=
    match nonceApi.processBlock s.chain b with
    | .ok (chain, orphan, err) => ((orphan, err), { s with chain })
    | .error _ => ((false, none), s)
  isRegistered _ _ := true
  requestBlockByHeight s _ height := (true, { s with asked := height })
  signals s := ([.pendingResponse peerID (peerBlock s.asked.toNat)], s)
  addBanScore s _ := (false, s)
  addBannedPeer s _ := s
  stopPeerGracefully s _ := s
  broadcastNewStatus s _ := (some [], s)

/-- The blocks that the node has got so far: two of its own, and one of the peer. -/
def ownBlocks : List Block := [blockAt 1 1 0 0, blockAt 2 2 1 0, peerBlock 2]

/-- All blocks. -/
def syncBlocks : List Block := ownBlocks ++ [peerBlock 1, peerBlock 3]

theorem syncBlocks_closed : Closed nonceApi (fun _ => True) genesisBlock syncBlocks where
  nodup := by decide
  valid _ _ _ := trivial
  hash_inj := by decide
  parent := by decide

theorem peerBlock_isChain : IsChain (fun b => nonceApi.hash b.blockHeader) peerBlock 3 where
  height := by decide
  parent := by decide

theorem peerKeeper_answers (good : SyncNode → Prop)
    (hgood : ∀ s height, good s → good { s with asked := height }) :
    Answers peerKeeper (fun s => chainStore s.chain) good peerID peerBlock 3 := by
  intro s n hs hpos hle
  refine ⟨{ s with asked := n }, ?_, hgood s n hs, rfl⟩
  have hheight : (peerBlock n.toNat).blockHeader.height = n :=
    UInt64.toNat_inj.mp (peerBlock_isChain.height n.toNat (UInt64.le_iff_toNat_le.mp hle))
  show (awaitBlock peerID n [.pendingResponse peerID (peerBlock n.toNat)], _) = _
  rw [awaitBlock, if_neg (not_not.mpr rfl), if_neg (not_not.mpr hheight)]
  rfl

theorem peerKeeper_runs : RunsProcessBlock nonceApi SyncNode.chain peerKeeper := by
  intro s b c' orphan err hrun
  refine ⟨{ s with chain := c' }, ?_, rfl⟩
  simp only [peerKeeper, hrun]

/-- A node whose own chain is a fork of height 2, and that keeps one block of the peer as an
orphan, gets to know the three blocks of the peer. -/
theorem forked_node_syncs :
    ∃ c, nonceApi.processBlocks (nonceApi.genesisChain genesisBlock 1) ownBlocks = .ok c ∧
      peerKeeper.bestBlockHeight ⟨c, 0⟩ = 2 ∧
      ∃ s', peerKeeper.requestLoop peerID 3 3 ⟨c, 0⟩ ⟨3, 0, false⟩ = some s' ∧
        ∀ h, 1 ≤ h → h ≤ 3 → (s'.chain.getNode (nonceHash (peerBlock h).blockHeader)).isSome := by
  have hrun : ∃ c, nonceApi.processBlocks (nonceApi.genesisChain genesisBlock 1) ownBlocks =
      .ok c ∧ peerKeeper.bestBlockHeight ⟨c, 0⟩ = 2 := ⟨_, rfl, by decide⟩
  obtain ⟨c, hc, hbest⟩ := hrun
  have hmem : ∀ h, 0 < h → h ≤ (3 : UInt64).toNat →
      peerBlock h ∈ syncBlocks ∧ peerBlock h ≠ genesisBlock := by
    have hall : ∀ h ≤ (3 : UInt64).toNat, 0 < h →
        peerBlock h ∈ syncBlocks ∧ peerBlock h ≠ genesisBlock := by decide
    exact fun h hpos hle => hall h hle hpos
  have hview := inView_of_processBlocks nonceApi_documented syncBlocks_closed
    (by decide : ∀ b ∈ ownBlocks, b ∈ genesisBlock :: syncBlocks) hc
  obtain ⟨hroot, hclosed⟩ := inView_closed nonceApi_documented syncBlocks_closed hview hmem
  obtain ⟨s', hloop, -, hknown⟩ := syncs_with_honest_peer peerKeeper
    (fun b => nonceApi.hash b.blockHeader) (fun s => chainStore s.chain)
    (fun s => InView nonceApi_documented syncBlocks_closed 1 s.chain) peerID peerBlock 3
    peerBlock_isChain (peerKeeper_answers _ fun _ _ hs => hs)
    (processBlock_processes nonceApi_documented syncBlocks_closed peerKeeper_runs
      peerBlock_isChain rfl fun h hpos hle => (hmem h hpos hle).1)
    ⟨c, 0⟩ hview hroot hclosed (by rw [hbest]; decide) rfl
  rw [hbest] at hloop
  exact ⟨c, hc, hbest, s', hloop, hknown⟩

end BtmStats.Proofs.Netsync
