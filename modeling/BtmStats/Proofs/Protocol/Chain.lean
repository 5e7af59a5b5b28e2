import BtmStats.Lib.ForkChoice
import BtmStats.Lib.Runs
import BtmStats.Spec.Protocol.Chain

/-!
# `BtmStats.Proofs.Protocol.Chain`: `processBlock` delivers blocks to a tree

The blocks that are given to a chain form a tree under the genesis block (`Closed`,
`tree`). `Sim` relates a `Chain` to a view of this tree: the index has a node for each
known block, with the total work of the block and a pointer to the node of its parent, the
orphans are the blocks that wait, and the best node is the node of the best block.

`processBlock_sim` is the simulation: one call of `processBlock` returns, and is one
delivery of `Lib.ForkChoice`. `processBlocks_sim` says it for a list of calls.
-/

set_option autoImplicit false

namespace BtmStats.Proofs.Protocol

open Lib Spec Spec.Protocol
open Spec.Bc (Hash)
open Spec.Types (Block BlockHeader)

/-! ### The tree of a set of blocks -/

section
variable (api : ChainApi) (work : Block → Nat) (valid : Block → Prop) (genesis : Block)
  (genesisWork : Nat) (blocks : List Block)

/-- A set of valid blocks that is closed under parents with the genesis block. A valid
block is one higher than its parent. The hash tells the blocks apart. -/
structure Closed : Prop where
  nodup : blocks.Nodup
  valid : ∀ b ∈ blocks, b ≠ genesis → valid b
  hash_inj : ∀ b ∈ genesis :: blocks, ∀ b' ∈ genesis :: blocks,
    api.hash b.blockHeader = api.hash b'.blockHeader → b = b'
  parent : ∀ b ∈ blocks, b ≠ genesis → ∃ p ∈ genesis :: blocks,
    b.blockHeader.previousBlockHash = api.hash p.blockHeader ∧
      b.blockHeader.height.toNat = p.blockHeader.height.toNat + 1

/-- The parent of a block of the set. -/
def parentOf (b : Block) : Option Block :=
  if b ∈ blocks ∧ b ≠ genesis then
    (genesis :: blocks).find? fun p => b.blockHeader.previousBlockHash = api.hash p.blockHeader
  else
    none

/-- The total work of the chain that ends at a block. -/
def workSum (b : Block) : Nat :=
  match parentOf api genesis blocks b with
  | none => genesisWork
  | some p => if p.blockHeader.height < b.blockHeader.height then workSum p + work b else 0
termination_by b.blockHeader.height.toNat
decreasing_by exact UInt64.lt_iff_toNat_lt.mp ‹_›

end

section
variable {api : ChainApi} {work : Block → Nat} {valid : Block → Prop} {genesis : Block}
  {genesisWork : Nat} {blocks : List Block} {b : Block}

/-- The parent in the tree is the block that the header names. -/
theorem parentOf_eq_some (hset : Closed api valid genesis blocks) {p : Block} :
    parentOf api genesis blocks b = some p ↔
      b ∈ blocks ∧ b ≠ genesis ∧ p ∈ genesis :: blocks ∧
        b.blockHeader.previousBlockHash = api.hash p.blockHeader := by
  unfold parentOf
  split
  · next hb =>
    constructor
    · intro hfind
      have hprev := List.find?_some hfind
      exact ⟨hb.1, hb.2, List.mem_of_find?_eq_some hfind, of_decide_eq_true hprev⟩
    · rintro ⟨-, -, hp, hprev⟩
      -- The search ends at some block with this hash, and there is one only.
      have hsome : ((genesis :: blocks).find? fun p =>
          decide (b.blockHeader.previousBlockHash = api.hash p.blockHeader)).isSome :=
        List.find?_isSome.mpr ⟨p, hp, decide_eq_true hprev⟩
      obtain ⟨q, hq⟩ := Option.isSome_iff_exists.mp hsome
      have hqprev := List.find?_some hq
      have hqp : q = p :=
        hset.hash_inj q (List.mem_of_find?_eq_some hq) p hp
          ((of_decide_eq_true hqprev).symm.trans hprev)
      exact hqp ▸ hq
  · next hb =>
    constructor
    · intro h
      cases h
    · rintro ⟨hmem, hne, -, -⟩
      exact absurd ⟨hmem, hne⟩ hb

theorem height_parentOf (hset : Closed api valid genesis blocks) {p : Block}
    (h : parentOf api genesis blocks b = some p) :
    b.blockHeader.height.toNat = p.blockHeader.height.toNat + 1 := by
  obtain ⟨hb, hne, hp, hprev⟩ := (parentOf_eq_some hset).mp h
  obtain ⟨q, hq, hqprev, hheight⟩ := hset.parent b hb hne
  rw [hset.hash_inj p hp q hq (hprev.symm.trans hqprev)]
  exact hheight

theorem workSum_child (hset : Closed api valid genesis blocks) {p : Block}
    (h : parentOf api genesis blocks b = some p) :
    workSum api work genesis genesisWork blocks b =
      workSum api work genesis genesisWork blocks p + work b := by
  have hlt : p.blockHeader.height < b.blockHeader.height := by
    rw [UInt64.lt_iff_toNat_lt, height_parentOf hset h]
    exact Nat.lt_succ_self _
  rw [workSum, h]
  exact if_pos hlt

theorem workSum_genesis : workSum api work genesis genesisWork blocks genesis = genesisWork := by
  have hroot : parentOf api genesis blocks genesis = none := if_neg fun h => h.2 rfl
  rw [workSum, hroot]

/-- The tree of the set, with the total work of each block. -/
def tree (hset : Closed api valid genesis blocks) (hwork : ∀ b, valid b → 0 < work b)
    (genesisWork : Nat) : ForkTree Block where
  parent := parentOf api genesis blocks
  height b := b.blockHeader.height.toNat
  work := workSum api work genesis genesisWork blocks
  height_child := height_parentOf hset
  work_child {b p} h := by
    obtain ⟨hb, hne, -, -⟩ := (parentOf_eq_some hset).mp h
    rw [workSum_child hset h]
    exact Nat.lt_add_of_pos_right (hwork b (hset.valid b hb hne))

/-- The blocks of the set and the genesis block. -/
def allBlocks (genesis : Block) (blocks : List Block) : Finset Block :=
  insert genesis blocks.toFinset

theorem mem_allBlocks : b ∈ allBlocks genesis blocks ↔ b ∈ genesis :: blocks := by
  rw [allBlocks, Finset.mem_insert, List.mem_toFinset, List.mem_cons]

theorem tree_rooted (hset : Closed api valid genesis blocks)
    (hwork : ∀ b, valid b → 0 < work b) :
    ForkTree.Rooted (tree hset hwork genesisWork) genesis (allBlocks genesis blocks) where
  root_mem := Finset.mem_insert_self _ _
  parent_mem b hb hne := by
    have hmem : b ∈ blocks := (List.mem_cons.mp (mem_allBlocks.mp hb)).resolve_left hne
    obtain ⟨p, hp, hprev, -⟩ := hset.parent b hmem hne
    exact ⟨p, mem_allBlocks.mpr hp, (parentOf_eq_some hset).mpr ⟨hmem, hne, hp, hprev⟩⟩

end

/-! ### The chain and its view -/

section
variable (api : ChainApi) (work : Block → Nat) (genesis : Block) (genesisWork : Nat)
  (blocks : List Block)

/-- The node of a block. -/
def nodeOf (c : Chain) (b : Block) : BlockNode where
  parent := (parentOf api genesis blocks b).bind fun p => c.getNode (api.hash p.blockHeader)
  hash := api.hash b.blockHeader
  workSum := workSum api work genesis genesisWork blocks b
  height := b.blockHeader.height

/-- The chain has the blocks of the view. -/
structure Sim (c : Chain) (v : View Block) : Prop
    extends ForkTree.Within genesis (allBlocks genesis blocks) v where
  parent_known : ∀ b ∈ v.known, ∀ p, parentOf api genesis blocks b = some p → p ∈ v.known
  disjoint : ∀ b ∈ v.waiting, b ∉ v.known
  node : ∀ b ∈ v.known, ∃ ref, c.getNode (api.hash b.blockHeader) = some ref ∧
    c.node? ref = some (nodeOf api work genesis genesisWork blocks c b)
  of_getNode : ∀ {h ref}, c.getNode h = some ref → ∃ b ∈ v.known, api.hash b.blockHeader = h
  orphan_iff : ∀ h o, c.orphanManage.orphan.lookup h = some o ↔
    o ∈ v.waiting ∧ api.hash o.blockHeader = h
  best : c.bestNode = c.getNode (api.hash v.best.blockHeader)

end

section
variable {hash : BlockHeader → Hash} {work : Block → Nat} {c : Chain} {b : Block} {ref : NodeRef}
  {parent : BlockNode}

theorem getNode_withBlock_self : (c.withBlock hash work b ref parent).getNode
    (hash b.blockHeader) = some c.index.next := AList.lookup_insert _

theorem getNode_withBlock_ne {h : Hash} (hne : h ≠ hash b.blockHeader) :
    (c.withBlock hash work b ref parent).getNode h = c.getNode h := AList.lookup_insert_ne hne

/-- The nodes that were there stay as they are. -/
theorem node?_withBlock {ref' : NodeRef} {node : BlockNode} (h : c.node? ref' = some node) :
    (c.withBlock hash work b ref parent).node? ref' = some node :=
  getElem?_concat_eq_some.mpr (.inl h)

theorem node?_withBlock_next : (c.withBlock hash work b ref parent).node? c.index.next =
    some ⟨some ref, hash b.blockHeader, parent.workSum + work b, b.blockHeader.height⟩ :=
  getElem?_concat_eq_some.mpr (.inr ⟨rfl, rfl⟩)

theorem lookup_orphan_withBlock {h : Hash} {o : Block} :
    (c.withBlock hash work b ref parent).orphanManage.orphan.lookup h = some o ↔
      h ≠ hash b.blockHeader ∧ c.orphanManage.orphan.lookup h = some o := by
  show (c.orphanManage.orphan.erase _).lookup h = some o ↔ _
  by_cases hh : h = hash b.blockHeader
  · rw [hh, AList.lookup_erase]
    simp
  · rw [AList.lookup_erase_ne hh]
    exact (and_iff_right hh).symm

end

section
variable {api : ChainApi} {work : Block → Nat} {valid : Block → Prop} {genesis : Block}
  {genesisWork : Nat} {blocks : List Block} {c c' : Chain} {v : View Block} {b : Block}

theorem nodeOf_child (hset : Closed api valid genesis blocks) {p : Block}
    (hparent : parentOf api genesis blocks b = some p) :
    nodeOf api work genesis genesisWork blocks c b =
      ⟨c.getNode (api.hash p.blockHeader), api.hash b.blockHeader,
        workSum api work genesis genesisWork blocks p + work b, b.blockHeader.height⟩ := by
  rw [nodeOf, hparent, workSum_child hset hparent]
  rfl

/-- The node of a block depends on the place of its parent only. -/
theorem nodeOf_congr
    (hplace : ∀ p, parentOf api genesis blocks b = some p → c.getNode (api.hash p.blockHeader) =
      c'.getNode (api.hash p.blockHeader)) :
    nodeOf api work genesis genesisWork blocks c b =
      nodeOf api work genesis genesisWork blocks c' b := by
  unfold nodeOf
  cases hp : parentOf api genesis blocks b with
  | none => rfl
  | some p => rw [Option.bind_some, Option.bind_some, hplace p hp]

theorem Sim.mem_cons (h : Sim api work genesis genesisWork blocks c v)
    (hb : b ∈ v.known ∨ b ∈ v.waiting) : b ∈ genesis :: blocks := by
  rcases hb with hb | hb
  · exact mem_allBlocks.mp (h.known_sub hb)
  · exact mem_allBlocks.mp (h.waiting_sub hb)

/-- A block that is not known is no genesis block. -/
theorem Sim.mem_blocks (h : Sim api work genesis genesisWork blocks c v)
    (hb : b ∈ genesis :: blocks) (hnew : b ∉ v.known) : b ∈ blocks ∧ b ≠ genesis := by
  have hne : b ≠ genesis := by
    rintro rfl
    exact hnew h.root_known
  exact ⟨(List.mem_cons.mp hb).resolve_left hne, hne⟩

/-- The index has a hash exactly when the block is known. -/
theorem Sim.isSome_getNode (hset : Closed api valid genesis blocks)
    (h : Sim api work genesis genesisWork blocks c v) (hb : b ∈ genesis :: blocks) :
    (c.getNode (api.hash b.blockHeader)).isSome ↔ b ∈ v.known := by
  constructor
  · intro hsome
    obtain ⟨ref, href⟩ := Option.isSome_iff_exists.mp hsome
    obtain ⟨d, hd, hhash⟩ := h.of_getNode href
    exact hset.hash_inj d (h.mem_cons (.inl hd)) b hb hhash ▸ hd
  · intro hknown
    obtain ⟨ref, href, -⟩ := h.node b hknown
    rw [href]
    rfl

theorem Sim.mem_orphan (hset : Closed api valid genesis blocks)
    (h : Sim api work genesis genesisWork blocks c v) (hb : b ∈ genesis :: blocks) :
    api.hash b.blockHeader ∈ c.orphanManage.orphan ↔ b ∈ v.waiting := by
  rw [← AList.lookup_isSome, Option.isSome_iff_exists]
  constructor
  · rintro ⟨o, ho⟩
    obtain ⟨hw, hhash⟩ := (h.orphan_iff _ _).mp ho
    exact hset.hash_inj o (h.mem_cons (.inr hw)) b hb hhash ▸ hw
  · intro hw
    exact ⟨b, (h.orphan_iff _ _).mpr ⟨hw, rfl⟩⟩

/-- Two known blocks with one node are one block. -/
theorem Sim.getNode_inj (hset : Closed api valid genesis blocks)
    (h : Sim api work genesis genesisWork blocks c v) {d : Block} (hb : b ∈ v.known)
    (hd : d ∈ v.known)
    (heq : c.getNode (api.hash b.blockHeader) = c.getNode (api.hash d.blockHeader)) : b = d := by
  obtain ⟨ref, href, hnode⟩ := h.node b hb
  obtain ⟨ref', href', hnode'⟩ := h.node d hd
  rw [href, href', Option.some.injEq] at heq
  rw [heq, hnode', Option.some.injEq] at hnode
  have hhash : api.hash d.blockHeader = api.hash b.blockHeader := congrArg BlockNode.hash hnode
  exact (hset.hash_inj d (h.mem_cons (.inl hd)) b (h.mem_cons (.inl hb)) hhash).symm

/-! ### Saving blocks -/

/-- A block whose parent is known is saved: it is known then, and waits no more. -/
theorem Sim.saved (hset : Closed api valid genesis blocks)
    (h : Sim api work genesis genesisWork blocks c v) {p : Block}
    (hparent : parentOf api genesis blocks b = some p) (hp : p ∈ v.known) (hb : b ∉ v.known)
    (hsaved : c.Saved api.hash work b c') :
    Sim api work genesis genesisWork blocks c' ⟨insert b v.known, v.waiting.erase b, v.best⟩ := by
  obtain ⟨hmem, hne, hpall, hprev⟩ := (parentOf_eq_some hset).mp hparent
  have hball : b ∈ genesis :: blocks := List.mem_cons_of_mem _ hmem
  -- The node that was found for the parent is the node of `p`.
  obtain ⟨ref, node, href, hnode, rfl⟩ := hsaved
  obtain ⟨ref', hget, hnode'⟩ := h.node p hp
  rw [hprev, hget, Option.some.injEq] at href
  subst href
  rw [hnode', Option.some.injEq] at hnode
  subst hnode
  have hhash : ∀ {d}, d ∈ v.known → api.hash d.blockHeader ≠ api.hash b.blockHeader :=
    fun {d} hd heq => hb (hset.hash_inj d (h.mem_cons (.inl hd)) b hball heq ▸ hd)
  refine
    { known_sub := Finset.insert_subset (mem_allBlocks.mpr hball) h.known_sub
      waiting_sub := (Finset.erase_subset _ _).trans h.waiting_sub
      root_known := Finset.mem_insert_of_mem h.root_known
      best_known := Finset.mem_insert_of_mem h.best_known
      parent_known := fun d hd q hq => ?_
      disjoint := fun d hd hd' => ?_
      node := fun d hd => ?_
      of_getNode := fun {k r} hk => ?_
      orphan_iff := fun k o => ?_
      best := h.best.trans (getNode_withBlock_ne (hhash h.best_known)).symm }
  · rcases Finset.mem_insert.mp hd with rfl | hd
    · rw [hparent, Option.some.injEq] at hq
      exact Finset.mem_insert_of_mem (hq ▸ hp)
    · exact Finset.mem_insert_of_mem (h.parent_known d hd q hq)
  · obtain ⟨hdb, hd⟩ := Finset.mem_erase.mp hd
    rcases Finset.mem_insert.mp hd' with heq | hd'
    · exact hdb heq
    · exact h.disjoint d hd hd'
  · rcases Finset.mem_insert.mp hd with rfl | hd
    · refine ⟨c.index.next, getNode_withBlock_self, ?_⟩
      rw [node?_withBlock_next, nodeOf_child hset hparent, getNode_withBlock_ne (hhash hp), hget]
      rfl
    · obtain ⟨r, hr, hnode⟩ := h.node d hd
      refine ⟨r, (getNode_withBlock_ne (hhash hd)).trans hr, ?_⟩
      -- The parent of `d` is known already, so its node is the same.
      rw [node?_withBlock hnode, nodeOf_congr fun q hq =>
        (getNode_withBlock_ne (hhash (h.parent_known d hd q hq))).symm]
  · by_cases hkb : k = api.hash b.blockHeader
    · exact ⟨b, Finset.mem_insert_self _ _, hkb.symm⟩
    · rw [getNode_withBlock_ne hkb] at hk
      obtain ⟨d, hd, hdk⟩ := h.of_getNode hk
      exact ⟨d, Finset.mem_insert_of_mem hd, hdk⟩
  · rw [lookup_orphan_withBlock, h.orphan_iff, Finset.mem_erase]
    constructor
    · rintro ⟨hkb, ho, hok⟩
      refine ⟨⟨?_, ho⟩, hok⟩
      rintro rfl
      exact hkb hok.symm
    · rintro ⟨⟨hob, ho⟩, hok⟩
      refine ⟨fun hkb => hob ?_, ho, hok⟩
      exact hset.hash_inj o (h.mem_cons (.inr ho)) b hball (hok.trans hkb)

/-- Orphans that are saved one after the other become known, and each has its parent among
the blocks that were known and those saved with it. -/
theorem Sim.savedAll (hset : Closed api valid genesis blocks) {orphans : List Block}
    (h : Sim api work genesis genesisWork blocks c v)
    (hsaved : Chain.SavedAll api.hash work c orphans c') :
    Sim api work genesis genesisWork blocks c'
        ⟨v.known ∪ orphans.toFinset, v.waiting \ orphans.toFinset, v.best⟩ ∧
      ∀ o ∈ orphans, o ∈ v.waiting ∧
        ∃ q, parentOf api genesis blocks o = some q ∧ (q ∈ v.known ∨ q ∈ orphans) := by
  induction hsaved generalizing v with
  | nil =>
    refine ⟨?_, by simp⟩
    rw [List.toFinset_nil, Finset.union_empty, Finset.sdiff_empty]
    exact h
  | @cons c c₁ c' o os horphan hone hrest ih =>
    obtain ⟨hwait, -⟩ := (h.orphan_iff _ _).mp horphan
    have hnew : o ∉ v.known := h.disjoint o hwait
    obtain ⟨hmem, hne⟩ := h.mem_blocks (h.mem_cons (.inr hwait)) hnew
    -- The parent of the orphan is known: the index has its hash.
    obtain ⟨p, hp, hprev⟩ : ∃ p ∈ v.known,
        api.hash p.blockHeader = o.blockHeader.previousBlockHash := by
      obtain ⟨ref, _, href, -⟩ := hone
      exact h.of_getNode href
    have hparent : parentOf api genesis blocks o = some p :=
      (parentOf_eq_some hset).mpr ⟨hmem, hne, h.mem_cons (.inl hp), hprev.symm⟩
    obtain ⟨hsim, hos⟩ := ih (h.saved hset hparent hp hnew hone)
    refine ⟨?_, fun d hd => ?_⟩
    · have hknown : v.known ∪ (o :: os).toFinset = insert o v.known ∪ os.toFinset := by
        rw [List.toFinset_cons, Finset.union_insert, Finset.insert_union]
      have hwaiting : v.waiting \ (o :: os).toFinset = v.waiting.erase o \ os.toFinset := by
        rw [List.toFinset_cons, Finset.sdiff_insert, Finset.erase_sdiff_comm]
      rw [hknown, hwaiting]
      exact hsim
    · rcases List.mem_cons.mp hd with rfl | hd
      · exact ⟨hwait, p, hparent, .inl hp⟩
      · obtain ⟨hw, q, hq, hqmem⟩ := hos d hd
        refine ⟨Finset.mem_of_mem_erase hw, q, hq, ?_⟩
        rcases hqmem with hqmem | hqmem
        · rcases Finset.mem_insert.mp hqmem with rfl | hqmem
          · exact .inr List.mem_cons_self
          · exact .inl hqmem
        · exact .inr (List.mem_cons_of_mem _ hqmem)

/-! ### The best node -/

/-- The node that is compared as a pointer: a block extends the tip when its parent is the
best block. -/
theorem Sim.parent_eq_best (hset : Closed api valid genesis blocks)
    (h : Sim api work genesis genesisWork blocks c v) {a : Block} (ha : a ∈ v.known) :
    (nodeOf api work genesis genesisWork blocks c a).parent = c.bestNode ↔
      parentOf api genesis blocks a = some v.best := by
  rw [h.best, nodeOf]
  cases hq : parentOf api genesis blocks a with
  | none =>
    obtain ⟨ref, href, -⟩ := h.node _ h.best_known
    simp [href]
  | some q =>
    rw [Option.bind_some, Option.some.injEq]
    constructor
    · exact h.getNode_inj hset (h.parent_known a ha q hq) h.best_known
    · rintro rfl
      rfl

theorem Sim.deref (h : Sim api work genesis genesisWork blocks c v) (hb : b ∈ v.known) :
    c.deref (c.getNode (api.hash b.blockHeader)) =
      .ok (nodeOf api work genesis genesisWork blocks c b) := by
  obtain ⟨ref, href, hnode⟩ := h.node b hb
  rw [Chain.deref, href]
  show orPanic _ (c.node? ref) = _
  rw [hnode]
  rfl

theorem Sim.withBest (h : Sim api work genesis genesisWork blocks c v) {a : Block}
    (ha : a ∈ v.known) : Sim api work genesis genesisWork blocks
      { c with bestNode := c.getNode (api.hash a.blockHeader) } { v with best := a } :=
  { h with
    best_known := ha
    best := rfl }

/-- The second half of `processBlock` is the rule of the fork choice. -/
theorem updateBest_sim (doc : api.Documented work valid)
    (hset : Closed api valid genesis blocks)
    (h : Sim api work genesis genesisWork blocks c v) {a : Block} (ha : a ∈ v.known) :
    ∃ c', api.updateBest c a = .ok (c', false, none) ∧
      Sim api work genesis genesisWork blocks c'
        { v with best := (tree hset doc.work_pos genesisWork).adopt v.best a } := by
  have hbest : c.deref c.bestNode = .ok (nodeOf api work genesis genesisWork blocks c v.best) := by
    rw [h.best]
    exact h.deref h.best_known
  -- The two conditions of the code, on the nodes, are the two conditions of the rule.
  have hchild := h.parent_eq_best hset ha
  have hhigher : v.best.blockHeader.height < a.blockHeader.height ↔
      v.best.blockHeader.height.toNat < a.blockHeader.height.toNat := UInt64.lt_iff_toNat_lt
  simp only [ChainApi.updateBest, h.deref ha, hbest, doc.connectBlock_ok, doc.reorganizeChain_ok,
    bind, Except.bind, pure, Except.pure, hchild]
  simp only [nodeOf, hhigher]
  by_cases hext : parentOf api genesis blocks a = some v.best
  · rw [if_pos hext, ForkTree.adopt_child hext]
    exact ⟨_, rfl, h.withBest ha⟩
  rw [if_neg hext]
  split
  · next hreorg =>
    rw [ForkTree.adopt_higher hreorg.1 hreorg.2]
    exact ⟨_, rfl, h.withBest ha⟩
  · next hkeep =>
    rw [ForkTree.adopt_keeps hext fun hlt => Nat.lt_of_not_le fun hle => hkeep ⟨hlt, hle⟩]
    exact ⟨_, rfl, h⟩

/-! ### The simulation -/

/-- The block is new and its parent is known: it is saved with the orphans that wait for
it, and they are a batch. -/
theorem save_sim (doc : api.Documented work valid) (hset : Closed api valid genesis blocks)
    (h : Sim api work genesis genesisWork blocks c v)
    (hwaits : ∀ w ∈ v.waiting, ∀ p, parentOf api genesis blocks w = some p → p ∉ v.known)
    {p : Block} (hnew : b ∉ v.known ∧ b ∉ v.waiting)
    (hparent : parentOf api genesis blocks b = some p) (hp : p ∈ v.known) :
    ∃ c₁ c₂ a fresh, api.saveBlock c b = (c₁, none) ∧ api.saveSubBlock c₁ b = (c₂, a) ∧
      Sim api work genesis genesisWork blocks c₂ ⟨v.known ∪ fresh, v.waiting \ fresh, v.best⟩ ∧
      (tree hset doc.work_pos genesisWork).Batch v b fresh ∧ a ∈ fresh ∧
      ∀ d ∈ fresh, d.blockHeader.height.toNat ≤ a.blockHeader.height.toNat := by
  obtain ⟨hmem, hne, hpall, hprev⟩ := (parentOf_eq_some hset).mp hparent
  obtain ⟨ref, href, hnode⟩ := h.node p hp
  have hsave := doc.saveBlock_ok c b ref _ (hset.valid b hmem hne) (hprev ▸ href) hnode
  have hsaved : c.Saved api.hash work b _ := ⟨ref, _, hprev ▸ href, hnode, rfl⟩
  have h₁ := h.saved hset hparent hp hnew.1 hsaved
  rw [Finset.erase_eq_of_notMem hnew.2] at h₁
  -- The orphans are blocks of the set, so they are valid.
  have hvalid : ∀ k o, (c.withBlock api.hash work b ref
      (nodeOf api work genesis genesisWork blocks c p)).orphanManage.orphan.lookup k = some o →
        api.hash o.blockHeader = k ∧ valid o := by
    intro k o ho
    obtain ⟨hw, hk⟩ := (h₁.orphan_iff k o).mp ho
    obtain ⟨hoblocks, hone⟩ := h.mem_blocks (h.mem_cons (.inr hw)) (h.disjoint o hw)
    exact ⟨hk, hset.valid o hoblocks hone⟩
  obtain ⟨c₂, a, orphans, hsub, hall, ha, hmax, hdone⟩ := doc.saveSubBlock_spec _ b
    ⟨_, getNode_withBlock_self, Option.isSome_of_eq_some node?_withBlock_next⟩ hvalid
  obtain ⟨h₂, horphans⟩ := h₁.savedAll hset hall
  have hsim : Sim api work genesis genesisWork blocks c₂
      ⟨v.known ∪ (b :: orphans).toFinset, v.waiting \ (b :: orphans).toFinset, v.best⟩ := by
    rw [List.toFinset_cons, Finset.union_insert, ← Finset.insert_union, Finset.sdiff_insert,
      ← Finset.erase_sdiff_comm, Finset.erase_eq_of_notMem hnew.2]
    exact h₂
  refine ⟨_, c₂, a, (b :: orphans).toFinset, hsave, hsub, hsim, ⟨?_, ?_, ?_, ?_⟩,
    List.mem_toFinset.mpr ha, fun d hd => UInt64.le_iff_toNat_le.mp
      (hmax d (List.mem_toFinset.mp hd))⟩
  · exact List.mem_toFinset.mpr List.mem_cons_self
  · intro d hd hdb
    exact (horphans d ((List.mem_cons.mp (List.mem_toFinset.mp hd)).resolve_left hdb)).1
  · -- An orphan waited, so its parent was not known before this batch.
    intro d hd hdb
    obtain ⟨hw, q, hq, hqmem⟩ :=
      horphans d ((List.mem_cons.mp (List.mem_toFinset.mp hd)).resolve_left hdb)
    refine ⟨q, List.mem_toFinset.mpr (List.mem_cons.mpr ?_), hq⟩
    rcases hqmem with hqmem | hqmem
    · rcases Finset.mem_insert.mp hqmem with rfl | hqmem
      · exact .inl rfl
      · exact absurd hqmem (hwaits d hw q hq)
    · exact .inr hqmem
  · -- An orphan that was left has no parent in the batch.
    intro w hw q hq hwq
    by_contra hwf
    have hleft : c₂.orphanManage.orphan.lookup (api.hash w.blockHeader) = some w :=
      (hsim.orphan_iff _ _).mpr ⟨Finset.mem_sdiff.mpr ⟨hw, hwf⟩, rfl⟩
    obtain ⟨-, -, -, hwprev⟩ := (parentOf_eq_some hset).mp hwq
    exact hdone _ w hleft q (List.mem_toFinset.mp hq) hwprev

/-- A block whose parent is not known is kept as an orphan. -/
theorem Sim.wait (hset : Closed api valid genesis blocks)
    (h : Sim api work genesis genesisWork blocks c v) (hb : b ∈ genesis :: blocks)
    (hnew : b ∉ v.known) : Sim api work genesis genesisWork blocks
      { c with orphanManage := ⟨c.orphanManage.orphan.insert (api.hash b.blockHeader) b⟩ }
      { v with waiting := insert b v.waiting } :=
  { h with
    waiting_sub := Finset.insert_subset (mem_allBlocks.mpr hb) h.waiting_sub
    disjoint := fun d hd => by
      rcases Finset.mem_insert.mp hd with rfl | hd
      · exact hnew
      · exact h.disjoint d hd
    orphan_iff := fun k o => by
      by_cases hk : k = api.hash b.blockHeader
      · subst hk
        rw [AList.lookup_insert, Option.some.injEq]
        constructor
        · rintro rfl
          exact ⟨Finset.mem_insert_self _ _, rfl⟩
        · rintro ⟨ho, hhash⟩
          -- The hash tells the new orphan from the others.
          have hoall : o ∈ genesis :: blocks := by
            rcases Finset.mem_insert.mp ho with rfl | ho
            · exact hb
            · exact h.mem_cons (.inr ho)
          exact hset.hash_inj b hb o hoall hhash.symm
      · rw [AList.lookup_insert_ne hk, h.orphan_iff, Finset.mem_insert]
        constructor
        · rintro ⟨ho, hhash⟩
          exact ⟨.inr ho, hhash⟩
        · rintro ⟨rfl | ho, hhash⟩
          · exact absurd hhash.symm hk
          · exact ⟨ho, hhash⟩ }

/-- One call of `processBlock` is one delivery. It answers whether the block waits. -/
theorem processBlock_sim (doc : api.Documented work valid) (hset : Closed api valid genesis blocks)
    (h : Sim api work genesis genesisWork blocks c v)
    (hwaits : ∀ w ∈ v.waiting, ∀ p, parentOf api genesis blocks w = some p → p ∉ v.known)
    (hb : b ∈ genesis :: blocks) :
    ∃ c' v', api.processBlock c b = .ok (c', decide (b ∈ v'.waiting), none) ∧
      (tree hset doc.work_pos genesisWork).Deliver v b v' ∧
      Sim api work genesis genesisWork blocks c' v' := by
  have hexist : api.blockExist c (api.hash b.blockHeader) = true ↔ b ∈ v.known ∨ b ∈ v.waiting := by
    rw [doc.blockExist_iff, h.isSome_getNode hset hb, h.mem_orphan hset hb]
  unfold ChainApi.processBlock
  by_cases hseen : b ∈ v.known ∨ b ∈ v.waiting
  · have horphan : api.orphanExist c.orphanManage (api.hash b.blockHeader) =
        decide (b ∈ v.waiting) := by
      rw [Bool.eq_iff_iff, doc.orphanExist_iff, h.mem_orphan hset hb, decide_eq_true_iff]
    refine ⟨c, v, ?_, .seen hseen, h⟩
    rw [← horphan]
    exact if_pos (hexist.mpr hseen)
  have hnew : b ∉ v.known ∧ b ∉ v.waiting := not_or.mp hseen
  obtain ⟨hmem, hne⟩ := h.mem_blocks hb hnew.1
  obtain ⟨p, hpall, hprev, -⟩ := hset.parent b hmem hne
  have hparent : parentOf api genesis blocks b = some p :=
    (parentOf_eq_some hset).mpr ⟨hmem, hne, hpall, hprev⟩
  simp only [if_neg (hexist.not.mpr hseen)]
  by_cases hp : p ∈ v.known
  · have hfound : c.getNode b.blockHeader.previousBlockHash ≠ none := by
      rw [hprev, ← Option.isSome_iff_ne_none]
      exact (h.isSome_getNode hset hpall).mpr hp
    obtain ⟨c₁, c₂, a, fresh, hsave, hsub, hsim, hbatch, ha, hmax⟩ :=
      save_sim doc hset h hwaits hnew hparent hp
    obtain ⟨c', hupdate, hsim'⟩ :=
      updateBest_sim doc hset hsim (Finset.mem_union_right v.known ha)
    refine ⟨c', _, ?_, .attach fresh a hnew hparent hp hbatch ha hmax, hsim'⟩
    have hdone : decide (b ∈ v.waiting \ fresh) = false :=
      decide_eq_false fun hmem => hnew.2 (Finset.mem_sdiff.mp hmem).1
    rw [if_neg hfound, hsave, hdone]
    simp only [hsub, hupdate]
  · have hmissing : c.getNode b.blockHeader.previousBlockHash = none := by
      rw [hprev, ← Option.not_isSome_iff_eq_none, h.isSome_getNode hset hpall]
      exact hp
    refine ⟨_, _, ?_, .wait hnew fun q hq => ?_, h.wait hset hb hnew.1⟩
    · rw [if_pos hmissing, doc.orphanAdd_eq, decide_eq_true (Finset.mem_insert_self b v.waiting)]
      rfl
    · obtain rfl : p = q := Option.some.inj (hparent.symm.trans hq)
      exact hp

/-- A list of calls is a run. -/
theorem processBlocks_sim (doc : api.Documented work valid)
    (hset : Closed api valid genesis blocks) {bs : List Block}
    (hbs : ∀ b ∈ bs, b ∈ genesis :: blocks)
    (hinv : ForkTree.Inv (tree hset doc.work_pos genesisWork) genesis (allBlocks genesis blocks) v)
    (h : Sim api work genesis genesisWork blocks c v) :
    ∃ c' v', api.processBlocks c bs = .ok c' ∧
      (tree hset doc.work_pos genesisWork).Run v bs v' ∧
      Sim api work genesis genesisWork blocks c' v' := by
  induction bs generalizing c v with
  | nil => exact ⟨c, v, rfl, .nil, h⟩
  | cons b bs ih =>
    have hb := hbs b List.mem_cons_self
    obtain ⟨c₁, v₁, hstep, hdeliver, h₁⟩ := processBlock_sim doc hset h hinv.waits hb
    obtain ⟨c', v', hrun, hruns, h'⟩ := ih (fun d hd => hbs d (List.mem_cons_of_mem b hd))
      (hdeliver.inv hinv (mem_allBlocks.mpr hb)) h₁
    refine ⟨c', v', ?_, .cons hdeliver hruns, h'⟩
    rw [ChainApi.processBlocks, List.foldlM_cons, hstep]
    exact hrun

theorem getNode_genesisChain : (api.genesisChain genesis genesisWork).getNode
    (api.hash genesis.blockHeader) = some 0 := AList.lookup_insert _

/-- The chain of a fresh store is the abstract one with the root alone. -/
theorem sim_genesis : Sim api work genesis genesisWork blocks
    (api.genesisChain genesis genesisWork) (View.init genesis) where
  toWithin := ForkTree.within_init (Finset.mem_insert_self _ _)
  parent_known b hb p hp := by
    rw [Finset.mem_singleton.mp hb, parentOf, if_neg fun h => h.2 rfl] at hp
    cases hp
  disjoint b hb := absurd hb (Finset.notMem_empty b)
  node b hb := by
    rw [Finset.mem_singleton.mp hb]
    refine ⟨0, getNode_genesisChain, ?_⟩
    rw [nodeOf, workSum_genesis, parentOf, if_neg fun h => h.2 rfl]
    rfl
  of_getNode {k ref} hk := by
    refine ⟨genesis, Finset.mem_singleton_self _, ?_⟩
    by_contra hne
    have hnone : (api.genesisChain genesis genesisWork).getNode k = none :=
      (AList.lookup_insert_ne (Ne.symm hne)).trans (AList.lookup_empty k)
    rw [hnone] at hk
    cases hk
  orphan_iff k o := by
    constructor
    · intro ho
      cases (AList.lookup_empty k).symm.trans ho
    · rintro ⟨ho, -⟩
      exact absurd ho (Finset.notMem_empty o)
  best := getNode_genesisChain.symm

end

end BtmStats.Proofs.Protocol
