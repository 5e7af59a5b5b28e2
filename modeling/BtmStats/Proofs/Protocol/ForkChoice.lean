import BtmStats.Proofs.Protocol.Chain

/-!
# `BtmStats.Proofs.Protocol.ForkChoice`: does the order of arrival matter?

`processBlock` adopts a block when it extends the tip, or when it is higher than the best
block and has no less total work. A heavier branch that is not higher is never adopted, so
what is adopted can depend on what arrived first.

`bestWork_order_independent_iff` is the exact condition: all orders end with the same total
work if and only if every highest block of the set has the most total work.
`lower_heavy_branch_depends_on_order` shows a set where two orders differ.
-/

set_option autoImplicit false

namespace BtmStats.Proofs.Protocol

open Lib Spec Spec.Protocol
open Spec.Bc (Hash)
open Spec.Types (Block BlockHeader)

/-- The total work of the best node after `processBlock` on the blocks in this order, from
the chain with the genesis block alone. -/
def bestWork (api : ChainApi) (genesis : Block) (genesisWork : Nat) (bs : List Block) :
    Except Panic Nat := do
  let c ← api.processBlocks (api.genesisChain genesis genesisWork) bs
  let bestNode ← c.deref c.bestNode
  return bestNode.workSum

section
variable {api : ChainApi} {work : Block → Nat} {valid : Block → Prop} {genesis : Block}
  {genesisWork : Nat} {blocks : List Block}

/-- Each order is a run of the tree, and it ends with the total work of its best block. -/
theorem exists_run (doc : api.Documented work valid) (hset : Closed api valid genesis blocks)
    {bs : List Block} (hbs : bs.Perm blocks) :
    ∃ v, (tree hset doc.work_pos genesisWork).Run (View.init genesis) bs v ∧
      v.best ∈ genesis :: blocks ∧ bestWork api genesis genesisWork bs =
        .ok (workSum api work genesis genesisWork blocks v.best) := by
  have hmem : ∀ b ∈ bs, b ∈ genesis :: blocks := fun b hb =>
    List.mem_cons_of_mem _ (hbs.mem_iff.mp hb)
  obtain ⟨c, v, hrun, hruns, hsim⟩ := processBlocks_sim doc hset hmem
    (ForkTree.inv_init (Finset.mem_insert_self _ _)) sim_genesis
  refine ⟨v, hruns, hsim.mem_cons (.inl hsim.best_known), ?_⟩
  have hbest := hsim.deref hsim.best_known
  rw [← hsim.best] at hbest
  rw [bestWork, hrun]
  show (c.deref c.bestNode >>= fun node => pure node.workSum) = _
  rw [hbest]
  rfl

theorem topHeavy_iff (hset : Closed api valid genesis blocks) (hwork : ∀ b, valid b → 0 < work b) :
    ForkTree.TopHeavy (tree hset hwork genesisWork) (allBlocks genesis blocks) ↔
      ∀ x ∈ genesis :: blocks,
        (∀ b ∈ genesis :: blocks, b.blockHeader.height ≤ x.blockHeader.height) →
        ∀ b ∈ genesis :: blocks, workSum api work genesis genesisWork blocks b ≤
          workSum api work genesis genesisWork blocks x := by
  simp only [ForkTree.TopHeavy, ForkTree.Top, mem_allBlocks, UInt64.le_iff_toNat_le]
  exact Iff.rfl

/-- A block of the set that no block of the set replaces is where an order ends. -/
theorem exists_order_ending_with (doc : api.Documented work valid)
    (hset : Closed api valid genesis blocks) {x : Block} (hx : x ∈ allBlocks genesis blocks)
    (hstays : ForkTree.Stays (tree hset doc.work_pos genesisWork) (allBlocks genesis blocks) x) :
    ∃ bs, bs.Perm blocks ∧ bestWork api genesis genesisWork bs =
      .ok (workSum api work genesis genesisWork blocks x) := by
  obtain ⟨bs, ⟨hnodup, hmem⟩, hends⟩ :=
    ForkTree.exists_order_ending_at (tree_rooted hset doc.work_pos) hx hstays
  have hperm : bs.Perm blocks :=
    (List.perm_ext_iff_of_nodup hnodup hset.nodup).mpr fun b => (hmem b).trans List.mem_toFinset
  obtain ⟨v, hrun, -, hwork⟩ := exists_run doc hset hperm
  exact ⟨bs, hperm, hends v hrun ▸ hwork⟩

/-- Every order ends with the total work of some block. Any two orders end with the same
one exactly when every highest block of the set, with the genesis block, has the most total
work. -/
theorem bestWork_order_independent_iff (doc : api.Documented work valid)
    (hset : Closed api valid genesis blocks) :
    (∀ bs : List Block, bs.Perm blocks → ∃ w, bestWork api genesis genesisWork bs = .ok w) ∧
    ((∀ bs₁ bs₂ : List Block, bs₁.Perm blocks → bs₂.Perm blocks →
      ∃ w, bestWork api genesis genesisWork bs₁ = .ok w ∧
        bestWork api genesis genesisWork bs₂ = .ok w) ↔
      ∀ x ∈ genesis :: blocks,
        (∀ b ∈ genesis :: blocks, b.blockHeader.height ≤ x.blockHeader.height) →
        ∀ b ∈ genesis :: blocks, workSum api work genesis genesisWork blocks b ≤
          workSum api work genesis genesisWork blocks x) := by
  have hrooted : ForkTree.Rooted (tree hset doc.work_pos genesisWork) genesis
      (allBlocks genesis blocks) := tree_rooted hset doc.work_pos
  rw [← topHeavy_iff hset doc.work_pos]
  refine ⟨fun bs hperm => ?_, ?_, ?_⟩
  · obtain ⟨v, -, -, hends⟩ := exists_run doc hset hperm
    exact ⟨_, hends⟩
  · -- One order ends at a highest block, another one at a block with the most work.
    intro hsame x hx htop b hb
    obtain ⟨y, hy, hmost, hstays⟩ := ForkTree.exists_heaviest_stays hrooted
    obtain ⟨bs₁, hperm₁, hends₁⟩ :=
      exists_order_ending_with doc hset hx (ForkTree.stays_of_top htop)
    obtain ⟨bs₂, hperm₂, hends₂⟩ := exists_order_ending_with doc hset hy hstays
    obtain ⟨w, hw₁, hw₂⟩ := hsame bs₁ bs₂ hperm₁ hperm₂
    calc workSum api work genesis genesisWork blocks b
        ≤ workSum api work genesis genesisWork blocks y := hmost b hb
      _ = w := Except.ok.inj (hends₂.symm.trans hw₂)
      _ = workSum api work genesis genesisWork blocks x := Except.ok.inj (hw₁.symm.trans hends₁)
  · intro hheavy
    -- Every order ends at a highest block, and these have the most work.
    have htop : ∀ bs : List Block, bs.Perm blocks → ∃ x ∈ allBlocks genesis blocks,
        ForkTree.Top (tree hset doc.work_pos genesisWork) (allBlocks genesis blocks) x ∧
        bestWork api genesis genesisWork bs =
          .ok (workSum api work genesis genesisWork blocks x) := by
      intro bs hperm
      obtain ⟨v, hrun, hbest, hends⟩ := exists_run doc hset hperm
      refine ⟨v.best, mem_allBlocks.mpr hbest, ?_, hends⟩
      refine hrun.best_top hrooted hheavy (fun b hb => ?_) fun b hb hne => ?_
      · exact mem_allBlocks.mpr (List.mem_cons_of_mem _ (hperm.mem_iff.mp hb))
      · exact hperm.mem_iff.mpr ((List.mem_cons.mp (mem_allBlocks.mp hb)).resolve_left hne)
    intro bs₁ bs₂ hperm₁ hperm₂
    obtain ⟨x₁, hx₁, htop₁, hends₁⟩ := htop bs₁ hperm₁
    obtain ⟨x₂, hx₂, htop₂, hends₂⟩ := htop bs₂ hperm₂
    have heq : workSum api work genesis genesisWork blocks x₁ =
        workSum api work genesis genesisWork blocks x₂ :=
      Nat.le_antisymm (hheavy x₂ hx₂ htop₂ x₁ hx₁) (hheavy x₁ hx₁ htop₁ x₂ hx₂)
    exact ⟨_, hends₁, heq ▸ hends₂⟩

end

/-! ### A chain for examples -/

section
variable (hash : BlockHeader → Hash) (work : Block → Nat)

def saveChild (c : Chain) (b : Block) : Option Chain :=
  (c.getNode b.blockHeader.previousBlockHash).bind fun ref =>
    (c.node? ref).map (c.withBlock hash work b ref)

/-- Save orphans until none has its parent among the saved blocks. The number bounds the
rounds: each one takes an orphan away. -/
def saveOrphans : Nat → Chain → List Block → Chain × List Block
  | 0, c, saved => (c, saved)
  | n + 1, c, saved =>
    match c.orphanManage.orphan.entries.find? fun e =>
      saved.any fun q => e.2.blockHeader.previousBlockHash = hash q.blockHeader with
    | none => (c, saved)
    | some ⟨_, o⟩ =>
      match saveChild hash work c o with
      | none => (c, saved)
      | some c => saveOrphans n c (o :: saved)

/-- A highest one of the blocks. -/
def highest (b : Block) : List Block → Block
  | [] => b
  | d :: ds =>
    let best := highest b ds
    if best.blockHeader.height < d.blockHeader.height then d else best

variable {hash work}

theorem saveChild_eq_some {c c' : Chain} {b : Block} :
    saveChild hash work c b = some c' ↔ c.Saved hash work b c' := by
  simp only [saveChild, Chain.Saved, Option.bind_eq_some_iff, Option.map_eq_some_iff]
  constructor
  · rintro ⟨ref, href, parent, hparent, rfl⟩
    exact ⟨ref, parent, href, hparent, rfl⟩
  · rintro ⟨ref, parent, href, hparent, rfl⟩
    exact ⟨ref, href, parent, hparent, rfl⟩

/-- The block has a node. -/
def HasNode (hash : BlockHeader → Hash) (c : Chain) (b : Block) : Prop :=
  ∃ ref ∈ c.getNode (hash b.blockHeader), (c.node? ref).isSome

theorem HasNode.saved {c c' : Chain} {b q : Block} (h : c.Saved hash work b c')
    (hq : q = b ∨ HasNode hash c q) : HasNode hash c' q := by
  obtain ⟨ref, parent, -, -, rfl⟩ := h
  by_cases hhash : hash q.blockHeader = hash b.blockHeader
  · refine ⟨c.index.next, ?_, Option.isSome_of_eq_some node?_withBlock_next⟩
    rw [hhash]
    exact getNode_withBlock_self
  · obtain ⟨ref', href', hnode⟩ := hq.resolve_left fun h => hhash (h ▸ rfl)
    obtain ⟨node, hnode⟩ := Option.isSome_iff_exists.mp hnode
    exact ⟨ref', (getNode_withBlock_ne hhash).trans href',
      Option.isSome_of_eq_some (node?_withBlock hnode)⟩

theorem length_erase_entries {m : AList (fun _ : Hash => Block)} {h : Hash} {o : Block}
    (hlookup : m.lookup h = some o) : (m.erase h).entries.length + 1 = m.entries.length := by
  have hmem : h ∈ m.keys := AList.mem_keys.mpr (AList.lookup_isSome.mp (hlookup ▸ rfl))
  have hlen := List.length_erase_of_mem hmem
  have hpos := List.length_pos_of_mem hmem
  rw [← AList.keys_erase] at hlen
  simp only [AList.keys, List.keys, List.length_map] at hlen hpos
  omega

/-- With a round for each orphan, the loop saves every orphan that descends from the blocks
it starts with. -/
theorem saveOrphans_spec (work : Block → Nat) {n : Nat} {c : Chain} {saved : List Block}
    (hsaved : ∀ q ∈ saved, HasNode hash c q)
    (hkey : ∀ h o, c.orphanManage.orphan.lookup h = some o → hash o.blockHeader = h)
    (hn : c.orphanManage.orphan.entries.length ≤ n) :
    ∃ c' orphans, saveOrphans hash work n c saved = (c', orphans.reverse ++ saved) ∧
      Chain.SavedAll hash work c orphans c' ∧
      ∀ h o, c'.orphanManage.orphan.lookup h = some o → ∀ q ∈ orphans.reverse ++ saved,
        o.blockHeader.previousBlockHash ≠ hash q.blockHeader := by
  induction n generalizing c saved with
  | zero =>
    refine ⟨c, [], rfl, .nil, fun h o ho => ?_⟩
    have hmem := AList.mem_lookup_iff.mp ho
    rw [List.eq_nil_of_length_eq_zero (Nat.le_zero.mp hn)] at hmem
    cases hmem
  | succ n ih =>
    rw [saveOrphans]
    split
    · next hnone =>
      refine ⟨c, [], rfl, .nil, fun h o ho q hq hprev => ?_⟩
      have := List.find?_eq_none.mp hnone _ (AList.mem_lookup_iff.mp ho)
      exact this (List.any_eq_true.mpr ⟨q, hq, decide_eq_true hprev⟩)
    · next h o hsome =>
      have hlookup : c.orphanManage.orphan.lookup h = some o :=
        AList.mem_lookup_iff.mpr (List.mem_of_find?_eq_some hsome)
      obtain rfl := hkey h o hlookup
      have hany := List.find?_some hsome
      obtain ⟨q, hq, hprev⟩ := List.any_eq_true.mp hany
      obtain ⟨ref, href, hnode⟩ := hsaved q hq
      obtain ⟨parent, hparent⟩ := Option.isSome_iff_exists.mp hnode
      rw [← of_decide_eq_true hprev] at href
      have hone : c.Saved hash work o (c.withBlock hash work o ref parent) :=
        ⟨ref, parent, href, hparent, rfl⟩
      -- The orphan leaves the map, so one round less is enough for the rest.
      have hlen : (c.withBlock hash work o ref parent).orphanManage.orphan.entries.length
          ≤ n := by
        have herase := length_erase_entries hlookup
        show (c.orphanManage.orphan.erase (hash o.blockHeader)).entries.length ≤ n
        omega
      have hnodes : ∀ q ∈ o :: saved,
          HasNode hash (c.withBlock hash work o ref parent) q := by
        intro q hq
        refine HasNode.saved hone ?_
        rcases List.mem_cons.mp hq with rfl | hq
        · exact .inl rfl
        · exact .inr (hsaved q hq)
      obtain ⟨c', orphans, hrun, hall, hdone⟩ := ih hnodes
        (fun k o' ho' => hkey k o' (lookup_orphan_withBlock.mp ho').2) hlen
      refine ⟨c', o :: orphans, ?_, .cons hlookup hone hall, ?_⟩
      · rw [saveChild_eq_some.mpr hone]
        simpa using hrun
      · simpa using hdone

theorem highest_spec (b : Block) (ds : List Block) :
    highest b ds ∈ b :: ds ∧
      ∀ d ∈ b :: ds, d.blockHeader.height ≤ (highest b ds).blockHeader.height := by
  induction ds with
  | nil => exact ⟨List.mem_cons_self, by simp [highest]⟩
  | cons d ds ih =>
    obtain ⟨hmem, hmax⟩ := ih
    have hcons : ∀ {x}, x ∈ b :: d :: ds → x = d ∨ x ∈ b :: ds := by
      intro x hx
      simp only [List.mem_cons] at hx ⊢
      tauto
    rw [highest]
    split
    · next hlt =>
      refine ⟨by simp, fun x hx => ?_⟩
      rcases hcons hx with rfl | hx
      · exact UInt64.le_refl _
      · exact UInt64.le_of_lt (UInt64.lt_of_le_of_lt (hmax x hx) hlt)
    · next hge =>
      refine ⟨?_, fun x hx => ?_⟩
      · simp only [List.mem_cons] at hmem ⊢
        tauto
      · rcases hcons hx with rfl | hx
        · exact UInt64.not_lt.mp hge
        · exact hmax x hx

end

/-- A chain where the hash of a block is its nonce and the work is in the bits. -/
def nonceHash (bh : BlockHeader) : Hash := ⟨bh.nonce, 0, 0, 0⟩

def bitsWork (b : Block) : Nat := b.blockHeader.bits.toNat + 1

def nonceApi : ChainApi where
  hash := nonceHash
  blockExist c h := (c.getNode h).isSome || decide (h ∈ c.orphanManage.orphan)
  orphanExist o h := decide (h ∈ o.orphan)
  orphanAdd o b := ⟨o.orphan.insert (nonceHash b.blockHeader) b⟩
  saveBlock c b :=
    match saveChild nonceHash bitsWork c b with
    | none => (c, some (RootErr.errorf "parent not found").err)
    | some c => (c, none)
  saveSubBlock c b :=
    let (c, saved) := saveOrphans nonceHash bitsWork c.orphanManage.orphan.entries.length c [b]
    (c, highest b saved)
  connectBlock c b := ({ c with bestNode := c.getNode (nonceHash b.blockHeader) }, none)
  reorganizeChain c ref := ({ c with bestNode := ref }, none)

theorem nonceApi_documented : nonceApi.Documented bitsWork fun _ => True where
  work_pos b _ := Nat.succ_pos _
  blockExist_iff c h := by
    simp only [nonceApi, Bool.or_eq_true, decide_eq_true_iff]
  orphanExist_iff o h := decide_eq_true_iff
  orphanAdd_eq o b := rfl
  saveBlock_ok c b ref parent _ href hparent := by
    have hsaved := saveChild_eq_some.mpr
      (show c.Saved nonceHash bitsWork b _ from ⟨ref, parent, href, hparent, rfl⟩)
    simp only [nonceApi, hsaved]
  saveSubBlock_spec c b hnode horphans := by
    have hnodes : ∀ q ∈ [b], HasNode nonceHash c q := by
      intro q hq
      rw [List.mem_singleton.mp hq]
      exact hnode
    obtain ⟨c', orphans, hrun, hall, hdone⟩ := saveOrphans_spec bitsWork hnodes
      (fun h o ho => (horphans h o ho).1) (Nat.le_refl _)
    have hmem : ∀ q, q ∈ orphans.reverse ++ [b] ↔ q ∈ b :: orphans := by
      intro q
      simp [or_comm]
    obtain ⟨hbest, hmax⟩ := highest_spec b (orphans.reverse ++ [b])
    refine ⟨c', highest b (orphans.reverse ++ [b]), orphans, ?_, hall, ?_, ?_, ?_⟩
    · simp only [nonceApi, hrun]
    · rcases List.mem_cons.mp hbest with heq | hbest
      · rw [heq]
        exact List.mem_cons_self
      · exact (hmem _).mp hbest
    · exact fun o ho => hmax o (List.mem_cons_of_mem _ ((hmem o).mpr ho))
    · exact fun h o ho q hq => hdone h o ho q ((hmem q).mpr hq)
  connectBlock_ok c b := rfl
  reorganizeChain_ok c ref := rfl

def blockAt (height nonce previous bits : UInt64) : Block where
  blockHeader :=
    { BlockHeader.zero with
      height := height, nonce := nonce, bits := bits, previousBlockHash := ⟨previous, 0, 0, 0⟩ }
  transactions := []

def genesisBlock : Block := blockAt 0 0 0 0

/-- Two blocks of little work on top of each other, and one block of much work beside
them. -/
def forkedBlocks (bits : UInt64) : List Block :=
  [blockAt 1 1 0 0, blockAt 2 2 1 0, blockAt 1 3 0 bits]

theorem forkedBlocks_closed (bits : UInt64) :
    Closed nonceApi (fun _ => True) genesisBlock (forkedBlocks bits) where
  nodup := by simp [forkedBlocks, blockAt]
  valid _ _ _ := trivial
  hash_inj := by simp [forkedBlocks, genesisBlock, blockAt, nonceApi, nonceHash]
  parent := by
    simp [forkedBlocks, genesisBlock, blockAt, nonceApi, nonceHash]

/-- The lower branch has more work. It is kept when it comes first, and it is not adopted
when it comes last. -/
theorem lower_heavy_branch_depends_on_order :
    nonceApi.Documented bitsWork (fun _ => True) ∧
      Closed nonceApi (fun _ => True) genesisBlock (forkedBlocks 9) ∧
      ¬ ∀ bs₁ bs₂ : List Block, bs₁.Perm (forkedBlocks 9) → bs₂.Perm (forkedBlocks 9) →
        ∃ w, bestWork nonceApi genesisBlock 1 bs₁ = .ok w ∧
          bestWork nonceApi genesisBlock 1 bs₂ = .ok w := by
  refine ⟨nonceApi_documented, forkedBlocks_closed 9, fun hsame => ?_⟩
  obtain ⟨w, hfirst, hlast⟩ := hsame _ (forkedBlocks 9).reverse (List.Perm.refl _)
    (List.reverse_perm _)
  have h₁ : bestWork nonceApi genesisBlock 1 (forkedBlocks 9) = .ok 3 := by decide
  have h₂ : bestWork nonceApi genesisBlock 1 (forkedBlocks 9).reverse = .ok 11 := by decide
  cases h₁.symm.trans hfirst
  cases h₂.symm.trans hlast

/-- With equal work in each block the higher branch has more work, and all orders agree. -/
theorem equal_work_order_independent :
    bestWork nonceApi genesisBlock 1 (forkedBlocks 0) = .ok 3 ∧
      ∀ bs₁ bs₂ : List Block, bs₁.Perm (forkedBlocks 0) → bs₂.Perm (forkedBlocks 0) →
        ∃ w, bestWork nonceApi genesisBlock 1 bs₁ = .ok w ∧
          bestWork nonceApi genesisBlock 1 bs₂ = .ok w := by
  have hset := forkedBlocks_closed 0
  have hroot : workSum nonceApi bitsWork genesisBlock 1 (forkedBlocks 0) genesisBlock = 1 :=
    workSum_genesis
  have hchild₁ : workSum nonceApi bitsWork genesisBlock 1 (forkedBlocks 0) (blockAt 1 1 0 0) = 2 :=
    (workSum_child hset (by decide)).trans (congrArg (· + 1) hroot)
  have hchild₂ : workSum nonceApi bitsWork genesisBlock 1 (forkedBlocks 0) (blockAt 2 2 1 0) = 3 :=
    (workSum_child hset (by decide)).trans (congrArg (· + 1) hchild₁)
  have hchild₃ : workSum nonceApi bitsWork genesisBlock 1 (forkedBlocks 0) (blockAt 1 3 0 0) = 2 :=
    (workSum_child hset (by decide)).trans (congrArg (· + 1) hroot)
  -- The total work is the height plus one.
  have hwork : ∀ b ∈ genesisBlock :: forkedBlocks 0,
      workSum nonceApi bitsWork genesisBlock 1 (forkedBlocks 0) b =
        b.blockHeader.height.toNat + 1 := by
    simp only [forkedBlocks, List.forall_mem_cons, List.not_mem_nil, false_implies, implies_true,
      and_true]
    exact ⟨hroot, hchild₁, hchild₂, hchild₃⟩
  refine ⟨by decide, (bestWork_order_independent_iff nonceApi_documented hset).2.mpr ?_⟩
  intro x hx htop b hb
  rw [hwork b hb, hwork x hx]
  exact Nat.succ_le_succ (UInt64.le_iff_toNat_le.mp (htop b hb))

end BtmStats.Proofs.Protocol
