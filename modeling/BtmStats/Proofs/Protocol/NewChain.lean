import BtmStats.Proofs.Config.Genesis
import BtmStats.Proofs.Database.LoadIndex
import BtmStats.Proofs.Database.SaveBlock
import BtmStats.Proofs.State.BlockIndex
import BtmStats.Spec.Protocol.NewChain

/-!
# `BtmStats.Proofs.Protocol.NewChain`: a chain starts from any database that was left behind

A history is a sequence of starts, of starts that are cut off, and of writes by a running chain.
`Next` says what each of them does to the ledger, and when a running chain writes. Two things hold
after every history (`History.spec`): the database has what the ledger says, and the ledger is a
tree of blocks over the genesis block, with the status of one of them (`Grown`).

From such a database `LoadBlockIndex` gets the headers in the order of their heights
(`listing_headers`) and makes a tree of nodes (`isTree_of_rebuilt`), over which `SetMainChain` ends
at the genesis block (`IsTree.isMainChain`). A start that was cut off has left the genesis block
without a status, and the next one saves it again.
-/

set_option autoImplicit false

namespace BtmStats.Proofs.Protocol

open Lib Spec Spec.Database Spec.Protocol Spec.Types Proofs.Database Proofs.Types
open Spec.Bc (Hash TransactionStatus)
open Spec.State (BlockTree BlockIndex)
open Proofs.State (Tracks)

/-! ### The main chain of a heap -/

/-- The nodes are a tree, and a node comes after its parent. -/
structure IsTree (heap : List BlockNode) : Prop where
  parent : ∀ {i p : Nat} {node : BlockNode}, heap[i]? = some node → node.parent = some p →
    p < i ∧ ∃ pnode, heap[p]? = some pnode ∧ node.height.toNat = pnode.height.toNat + 1
  root : ∀ {i : Nat} {node : BlockNode}, heap[i]? = some node → node.parent = none →
    node.height = 0
  height_lt : ∀ {i : Nat} {node : BlockNode}, heap[i]? = some node → node.height.toNat < 2 ^ 63

/-- The slots hold a path from a node without parent up to `ref`, which is at the given height. -/
structure IsMainChain (heap : List BlockNode) (s : Slice (Option NodeRef)) (ref : NodeRef)
    (height : Nat) : Prop where
  len : s.len = height + 1
  top : s.get? height = some (some ref)
  slot : ∀ i ≤ height, ∃ n node, s.get? i = some (some n) ∧ heap[n]? = some node ∧
    node.height.toNat = i ∧ (0 < i → ∃ p, node.parent = some p ∧ s.get? (i - 1) = some (some p))

namespace IsTree

variable {heap : List BlockNode}

/-- What the index reads at a place. There is no node past the end of the heap. -/
def nodeAt (heap : List BlockNode) (n : NodeRef) : State.BlockNode NodeRef :=
  heap[n]?.elim ⟨none, 0⟩ fun node => ⟨node.parent, node.height⟩

variable {node : BlockNode}

theorem nodeAt_eq {n : NodeRef} (hn : heap[n]? = some node) :
    nodeAt heap n = ⟨node.parent, node.height⟩ := by
  rw [nodeAt, hn]
  rfl

def tree (h : IsTree heap) : BlockTree NodeRef where
  node := nodeAt heap
  height_of_root n hroot := by
    cases hn : heap[n]? with
    | none =>
      rw [nodeAt, hn]
      rfl
    | some node =>
      rw [nodeAt_eq hn] at hroot ⊢
      exact h.root hn hroot
  height_of_child n p hp := by
    cases hn : heap[n]? with
    | none =>
      rw [nodeAt, hn] at hp
      cases hp
    | some node =>
      rw [nodeAt_eq hn] at hp ⊢
      obtain ⟨-, pnode, hpnode, hheight⟩ := h.parent hn hp
      rw [nodeAt_eq hpnode]
      exact hheight
  height_lt n := by
    cases hn : heap[n]? with
    | none =>
      rw [nodeAt, hn]
      decide
    | some node =>
      rw [nodeAt_eq hn]
      exact h.height_lt hn

theorem walkIn_none (fuel : Nat) (s : Slice (Option NodeRef)) :
    walkIn heap fuel s none = .ok (some s) := by
  cases fuel <;> rfl

/-- The loop over the heap is the walk up the tree. Each step goes to an earlier place. -/
theorem walkIn_eq (h : IsTree heap) : ∀ (fuel : Nat) (s : Slice (Option NodeRef)) (n : Nat),
    n < fuel → n < heap.length →
      walkIn heap fuel s (some n) = some <$> BlockIndex.walk h.tree s n := by
  intro fuel
  induction fuel with
  | zero => exact fun _ _ hn => absurd hn (Nat.not_lt_zero _)
  | succ fuel ih =>
    intro s n hfuel hlen
    have hn : heap[n]? = some heap[n] := List.getElem?_eq_getElem hlen
    have hheight : h.tree.height n = heap[n].height := congrArg _ (nodeAt_eq hn)
    have hparent : h.tree.parent n = heap[n].parent := congrArg _ (nodeAt_eq hn)
    rw [walkIn, hn]
    simp only [orPanic_some, bind, Except.bind]
    rw [← hheight, ← hparent]
    cases hslot : s.get? (h.tree.height n).toNat with
    | none =>
      rw [BlockIndex.walk, hslot]
      rfl
    | some slot =>
      by_cases heq : slot = some n
      · subst heq
        rw [State.walk_hit _ hslot]
        simp only [orPanic_some, if_true]
        rfl
      · simp only [orPanic_some, if_neg heq]
        have hlt : (h.tree.height n).toNat < s.len :=
          (s.get?_isSome _).mp (by rw [hslot]; rfl)
        obtain ⟨s', hset, -⟩ := s.set?_spec (some n) hlt
        rw [State.walk_miss _ hslot heq hset, hset]
        cases hp : h.tree.parent n with
        | none => exact walkIn_none fuel s'
        | some p =>
          obtain ⟨hlt, -, -⟩ := h.parent hn (hparent.symm.trans hp)
          exact ih s' p (by omega) (by omega)

/-- `SetMainChain` on a new index. -/
theorem setMainChainIn_spec (h : IsTree heap) {n : NodeRef} (hn : heap[n]? = some node) :
    ∃ bi, setMainChainIn heap .empty (some n) = .ok (some bi) ∧ Tracks h.tree bi n := by
  obtain ⟨bi, hset, htracks⟩ :=
    State.setMainChain_spec h.tree BlockIndex.empty n (State.closed_empty _)
  refine ⟨bi, ?_, htracks⟩
  have hlen : n < heap.length := (List.getElem?_eq_some_iff.mp hn).1
  have hheight : h.tree.height n = node.height := congrArg _ (nodeAt_eq hn)
  obtain ⟨s, hresize, hrest⟩ := bind_eq_ok_iff.mp hset
  obtain ⟨s', hwalk, hbi⟩ := bind_eq_ok_iff.mp hrest
  cases hbi
  rw [hheight] at hresize
  simp only [setMainChainIn, orPanic_some, bind, Except.bind, hn, hresize,
    h.walkIn_eq _ s n (Nat.lt_succ_of_lt hlen) hlen, hwalk]
  rfl

/-- A slice that tracks a node is the path to it from the root. -/
theorem isMainChain (h : IsTree heap) {bi : BlockIndex NodeRef} {ref : NodeRef}
    (hnode : heap[ref]? = some node) (htracks : Tracks h.tree bi ref) :
    IsMainChain heap bi.mainChain ref node.height.toNat := by
  have hheight : h.tree.height ref = node.height := congrArg _ (nodeAt_eq hnode)
  have hclosed := State.closed_of_tracks h.tree htracks
  obtain ⟨hlen, hget⟩ := htracks
  rw [hheight] at hlen hget
  have htop : bi.mainChain.get? node.height.toNat = some (some ref) := by
    rw [hget _ (Nat.le_refl _), ← hheight, State.ancestorAt_self]
  -- A slot above the first holds a node with a parent, and the slot below holds the parent.
  have hbelow : ∀ {i n} {m : BlockNode}, bi.mainChain.get? i = some (some n) →
      heap[n]? = some m → m.height.toNat = i → 0 < i →
      ∃ p, m.parent = some p ∧ bi.mainChain.get? (i - 1) = some (some p) := by
    intro i n m hn hm hi hpos
    cases hp : m.parent with
    | none =>
      rw [h.root hm hp] at hi
      exact absurd hi.symm (Nat.ne_of_gt hpos)
    | some p =>
      have hparent : h.tree.parent n = some p := (congrArg _ (nodeAt_eq hm)).trans hp
      exact ⟨p, rfl, (hclosed i i n (Nat.le_refl i) hn).2 p hparent⟩
  -- Induction on the distance from the top.
  have hslots : ∀ k i, i + k = node.height.toNat → ∃ n m, bi.mainChain.get? i = some (some n) ∧
      heap[n]? = some m ∧ m.height.toNat = i := by
    intro k
    induction k with
    | zero =>
      rintro i rfl
      exact ⟨ref, node, htop, hnode, rfl⟩
    | succ k ih =>
      intro i hi
      obtain ⟨n, m, hn, hm, hmi⟩ := ih (i + 1) (by omega)
      obtain ⟨p, hp, hslot⟩ := hbelow hn hm hmi (Nat.succ_pos i)
      obtain ⟨-, pnode, hpnode, hstep⟩ := h.parent hm hp
      exact ⟨p, pnode, hslot, hpnode, by omega⟩
  refine ⟨hlen, htop, fun i hi => ?_⟩
  obtain ⟨n, m, hn, hm, hmi⟩ := hslots (node.height.toNat - i) i (by omega)
  exact ⟨n, m, hn, hm, hmi, hbelow hn hm hmi⟩

end IsTree

/-! ### The headers of a database -/

section
variable {env : StoreEnv} {ledger : Ledger env}

/-- The header that is listed under a key. -/
def headerUnder (ledger : Ledger env) (k : Str) : BlockHeader :=
  ((ledger.saved.find? fun s => s.headerKey = k).map (·.block.blockHeader)).getD .zero

/-- What is listed under the prefix of the headers are the headers of the blocks that were saved,
each once, and in an order in which heights do not fall. -/
theorem listing_headers (doc : StoreDocumented env) {disk : Disk}
    (h : Represents disk.answer ledger)
    (hinj : ∀ s ∈ ledger.saved, ∀ t ∈ ledger.saved, s.hash = t.hash →
      s.block.blockHeader = t.block.blockHeader)
    {unmarshalText : Str → Except Err BlockHeader}
    (hcodec : ∀ bh text, env.marshalHeader bh = .ok text → unmarshalText text = .ok bh) :
    ∃ headers, List.Forall₂ (fun value bh => unmarshalText value = .ok bh)
        ((disk.listing blockHeaderPrefix.isPrefixOf).map Prod.snd) headers ∧
      headers.Nodup ∧ Ascending headers ∧
      ∀ bh, bh ∈ headers ↔ ∃ s ∈ ledger.saved, s.block.blockHeader = bh := by
  -- A pair that is listed is a row of a block that was saved.
  have hrow : ∀ kv ∈ disk.listing blockHeaderPrefix.isPrefixOf, ∃ s ∈ ledger.saved,
      s.headerKey = kv.1 ∧ headerUnder ledger kv.1 = s.block.blockHeader ∧
        unmarshalText kv.2 = .ok (headerUnder ledger kv.1) := by
    rintro ⟨k, v⟩ hkv
    obtain ⟨hv, hk⟩ := SortedStore.mem_listing.mp hkv
    rw [h.header k (List.isPrefixOf_iff_prefix.mp hk)] at hv
    obtain ⟨s, hfind, rfl⟩ := Option.map_eq_some_iff.mp hv
    have hunder : headerUnder ledger k = s.block.blockHeader := by
      rw [headerUnder, hfind]
      rfl
    refine ⟨s, List.mem_of_find?_eq_some hfind, ?_, hunder, ?_⟩
    · simpa using List.find?_some hfind
    · rw [hunder]
      exact hcodec _ _ s.marshal_header
  have hsorted := disk.listing_sorted blockHeaderPrefix.isPrefixOf
  refine ⟨(disk.listing blockHeaderPrefix.isPrefixOf).map fun kv => headerUnder ledger kv.1,
    ?_, ?_, ?_, fun bh => ?_⟩
  · rw [List.forall₂_map_left_iff, List.forall₂_map_right_iff, List.forall₂_same]
    intro kv hkv
    obtain ⟨s, -, -, -, hv⟩ := hrow kv hkv
    exact hv
  · refine List.Pairwise.map _ (fun _ _ hne => hne) (hsorted.imp_of_mem ?_)
    intro a b ha hb hlt heq
    obtain ⟨s, -, hsk, hsh, -⟩ := hrow a ha
    obtain ⟨t, -, htk, hth, -⟩ := hrow b hb
    -- The header gives the key.
    have hkey : s.headerKey = t.headerKey := by
      rw [SavedBlock.headerKey, SavedBlock.headerKey, SavedBlock.hash, SavedBlock.hash,
        ← hsh, ← hth, heq]
    rw [← hsk, ← htk, hkey, Std.ReflOrd.compare_self] at hlt
    cases hlt
  · refine List.Pairwise.map _ (fun _ _ hle => hle) (hsorted.imp_of_mem ?_)
    intro a b ha hb hlt
    obtain ⟨s, -, hsk, hsh, -⟩ := hrow a ha
    obtain ⟨t, -, htk, hth, -⟩ := hrow b hb
    rw [hsh, hth]
    refine UInt64.not_lt.mp fun hheight => ?_
    have hgt := doc.headerKey_lt _ _ t.hash s.hash hheight
    rw [show env.calcBlockHeaderKey _ t.hash = b.1 from htk,
      show env.calcBlockHeaderKey _ s.hash = a.1 from hsk] at hgt
    rw [Std.OrientedCmp.gt_of_lt hgt] at hlt
    cases hlt
  · constructor
    · intro hmem
      obtain ⟨kv, hkv, rfl⟩ := List.mem_map.mp hmem
      obtain ⟨s, hs, -, hsh, -⟩ := hrow kv hkv
      exact ⟨s, hs, hsh.symm⟩
    · rintro ⟨s, hs, rfl⟩
      -- The row of the block may have been written again, for the same header.
      obtain ⟨t, ht⟩ := Option.isSome_iff_exists.mp
        (List.find?_isSome (p := fun t => t.headerKey = s.headerKey) |>.mpr ⟨s, hs, by simp⟩)
      have hkey : t.headerKey = s.headerKey := by simpa using List.find?_some ht
      have heq := hinj t (List.mem_of_find?_eq_some ht) s hs (doc.headerKey_inj hkey).2
      have hstart : blockHeaderPrefix <+: s.headerKey := doc.headerKey_start _ _
      refine List.mem_map.mpr ⟨(s.headerKey, t.header), SortedStore.mem_listing.mpr ⟨?_, ?_⟩, ?_⟩
      · rw [h.header _ hstart, ht]
        rfl
      · exact List.isPrefixOf_iff_prefix.mpr hstart
      · rw [← heq]
        show headerUnder ledger s.headerKey = _
        rw [headerUnder, ht]
        rfl

end

/-! ### The nodes of the index -/

section
variable {api : IndexApi} {hash : BlockHeader → Hash} {genesis : BlockHeader}
  {headers : List BlockHeader} {st : LoadState}

/-- The loop of `LoadBlockIndex` adds nodes with the heights of the headers. -/
theorem heights_of_foldlM
    (hheight : ∀ bh parent node, api.newBlockNode bh parent = .ok node → node.height = bh.height)
    {values : List Str}
    (hvalues : List.Forall₂ (fun value bh => api.unmarshalText value = .ok bh) values headers) :
    ∀ {st st' : LoadState}, values.foldlM api.loadNext st = .ok st' →
      st'.blockIndex.heap.map BlockNode.height =
        st.blockIndex.heap.map BlockNode.height ++ headers.map BlockHeader.height := by
  induction hvalues with
  | nil =>
    intro st st' h
    cases h
    rw [List.map_nil, List.append_nil]
  | @cons value bh values headers hvalue _ ih =>
    intro st st' h
    rw [List.foldlM_cons] at h
    obtain ⟨st₁, hnext, hrest⟩ := bind_eq_ok_iff.mp h
    rw [IndexApi.loadNext, hvalue] at hnext
    obtain ⟨_, ⟨⟩, hnext⟩ := bind_eq_ok_iff.mp hnext
    obtain ⟨node, hnode, hst₁⟩ := bind_eq_ok_iff.mp hnext
    cases hst₁
    rw [ih hrest, List.map_append, List.map_singleton, hheight _ _ _ hnode, List.map_cons,
      List.append_assoc, List.singleton_append]

/-- What `LoadBlockIndex` returns. -/
theorem loadBlockIndex_spec (doc : api.Documented hash genesis)
    (hheight : ∀ bh parent node, api.newBlockNode bh parent = .ok node → node.height = bh.height)
    (tree : HeaderTree hash genesis headers) (hasc : Ascending headers) {values : List Str}
    (hvalues : List.Forall₂ (fun value bh => api.unmarshalText value = .ok bh) values headers) :
    ∃ st, api.loadBlockIndex values = .ok st.blockIndex ∧ Rebuilt hash genesis headers st ∧
      st.blockIndex.heap.map BlockNode.height = headers.map BlockHeader.height := by
  obtain ⟨st, hrun, hload, h⟩ := loadBlockIndex_rebuilt doc tree hasc hvalues
  exact ⟨st, hload, h, heights_of_foldlM hheight hvalues hrun⟩

/-- The header of a node. -/
theorem header_of_node (h : Rebuilt hash genesis headers st)
    (hheights : st.blockIndex.heap.map BlockNode.height = headers.map BlockHeader.height)
    {i : Nat} {node : BlockNode} (hnode : st.blockIndex.heap[i]? = some node) :
    ∃ bh, headers[i]? = some bh ∧ node.hash = hash bh ∧ node.height = bh.height := by
  have hhash := congrArg (·[i]?) h.hashes
  have hheight := congrArg (·[i]?) hheights
  simp only [List.getElem?_map, hnode, Option.map_some] at hhash hheight
  obtain ⟨bh, hbh, hhash⟩ := Option.map_eq_some_iff.mp hhash.symm
  rw [hbh, Option.map_some, Option.some.injEq] at hheight
  exact ⟨bh, hbh, hhash.symm, hheight⟩

/-- A node at height 0 is that of the genesis header, and has no parent. -/
theorem genesis_of_height_zero (h : Rebuilt hash genesis headers st)
    (hheights : st.blockIndex.heap.map BlockNode.height = headers.map BlockHeader.height)
    (tree : HeaderTree hash genesis headers) {i : Nat} {node : BlockNode}
    (hnode : st.blockIndex.heap[i]? = some node) (hzero : node.height.toNat = 0) :
    node.parent = none ∧ node.hash = hash genesis := by
  obtain ⟨bh, hbh, hhash, hheight⟩ := header_of_node h hheights hnode
  obtain rfl : bh = genesis := by
    by_contra hne
    obtain ⟨p, -, -, hstep⟩ := tree.parent bh (List.mem_of_getElem? hbh) hne
    rw [← hheight] at hstep
    omega
  exact ⟨(h.parents i bh node hbh hnode).1 rfl, hhash⟩

/-- The nodes that are built from a tree of headers are a tree. -/
theorem isTree_of_rebuilt (h : Rebuilt hash genesis headers st)
    (hheights : st.blockIndex.heap.map BlockNode.height = headers.map BlockHeader.height)
    (tree : HeaderTree hash genesis headers) (hasc : Ascending headers)
    (hgenesis : genesis.height = 0) (hlt : ∀ bh ∈ headers, bh.height.toNat < 2 ^ 63) :
    IsTree st.blockIndex.heap := by
  refine ⟨fun {i p node} hnode hp => ?_, fun {i node} hnode hroot => ?_, fun {i node} hnode => ?_⟩
  · obtain ⟨bh, hbh, -, hheight⟩ := header_of_node h hheights hnode
    obtain ⟨hnone, hsome⟩ := h.parents i bh node hbh hnode
    have hne : bh ≠ genesis := fun heq => by
      rw [hnone heq] at hp
      cases hp
    obtain ⟨ref, hlookup, hparent⟩ := hsome hne
    obtain rfl : p = ref := Option.some.inj (hp.symm.trans hparent)
    obtain ⟨pnode, hpnode, hkey⟩ := h.keyed.of_lookup hlookup
    obtain ⟨bp, hbp, hphash, hpheight⟩ := header_of_node h hheights hpnode
    -- The header at the place of the parent is the one that the tree has for it.
    obtain ⟨q, hq, hprev, hstep⟩ := tree.parent bh (List.mem_of_getElem? hbh) hne
    have heq : bp = q := tree.hash_inj bp (List.mem_of_getElem? hbp) q hq
      (by rw [← hphash, hkey, hprev])
    subst heq
    refine ⟨Nat.lt_of_not_le fun hle => ?_, pnode, hpnode, by rw [hheight, hpheight, hstep]⟩
    obtain ⟨hi, rfl⟩ := List.getElem?_eq_some_iff.mp hbh
    obtain ⟨hpl, rfl⟩ := List.getElem?_eq_some_iff.mp hbp
    rcases Nat.eq_or_lt_of_le hle with rfl | hlt
    · omega
    · have hle' := UInt64.le_iff_toNat_le.mp (List.pairwise_iff_getElem.mp hasc i p hi hpl hlt)
      omega
  · obtain ⟨bh, hbh, -, hheight⟩ := header_of_node h hheights hnode
    obtain ⟨-, hsome⟩ := h.parents i bh node hbh hnode
    by_cases heq : bh = genesis
    · rw [hheight, heq, hgenesis]
    · obtain ⟨ref, -, hparent⟩ := hsome heq
      rw [hroot] at hparent
      cases hparent
  · obtain ⟨bh, hbh, -, hheight⟩ := header_of_node h hheights hnode
    rw [hheight]
    exact hlt bh (List.mem_of_getElem? hbh)

end

/-! ### Histories -/

/-- What a start relies on. -/
structure ChainDocumented (env : ChainEnv) (commitmentReadFrom : Fill BlockCommitment) : Prop where
  store : StoreDocumented env.toStoreEnv
  entries : env.entryApi.Documented
  undone : Undone env.writers commitmentReadFrom env.sha3
  unmarshalHeader : ∀ bh text, env.marshalHeader bh = .ok text →
    env.index.unmarshalText text = .ok bh
  index : ∀ orders genesis, Config.genesisBlock env.entryApi env.sha3 orders = .ok genesis →
    env.index.Documented env.hash genesis.blockHeader
  nodeHeight : ∀ bh parent node, env.index.newBlockNode bh parent = .ok node →
    node.height = bh.height
  /-- The genesis block can be written and applied. -/
  genesis : ∀ orders genesis, Config.genesisBlock env.entryApi env.sha3 orders = .ok genesis →
    ∀ ts, (saved? env.toStoreEnv genesis ts).isSome ∧ ∃ view, env.applyBlock genesis ts = .ok view

/-- A start saves this block for the genesis block. -/
structure IsGenesis (env : ChainEnv) (orders : StartOrders) (s : SavedBlock env.toStoreEnv) :
    Prop where
  block : Config.genesisBlock env.entryApi env.sha3 orders.mapTx = .ok s.block
  status : genesisStatus s.block.transactions.length = .ok s.ts
  saved : saved? env.toStoreEnv s.block s.ts = some s

/-- Every start has this header for the genesis block. -/
structure GenesisHeader (env : ChainEnv) (genesis : BlockHeader) : Prop where
  height : genesis.height = 0
  index : env.index.Documented env.hash genesis
  same : ∀ orders s, IsGenesis env orders s → s.block.blockHeader = genesis

/-- What an event does to the ledger, and when a running chain writes: a block when its parent is
there and no other header has its hash, and a status for a block that is there. -/
inductive Next (env : ChainEnv) (ledger : Ledger env.toStoreEnv) :
    Event → Ledger env.toStoreEnv → Prop
  | restart {orders : StartOrders} (hrunning : ledger.status ≠ none) :
      Next env ledger (.start orders) ledger
  | first {orders : StartOrders} {s : SavedBlock env.toStoreEnv} {view : UtxoViewpoint}
      (hnew : ledger.status = none) (hs : IsGenesis env orders s)
      (hview : env.applyBlock s.block s.ts = .ok view) :
      Next env ledger (.start orders)
        ((ledger.save s).setStatus s.block.blockHeader.height s.hash view)
  | recut {orders : StartOrders} (hrunning : ledger.status ≠ none) :
      Next env ledger (.cut orders) ledger
  | cut {orders : StartOrders} {s : SavedBlock env.toStoreEnv} (hnew : ledger.status = none)
      (hs : IsGenesis env orders s) : Next env ledger (.cut orders) (ledger.save s)
  | saveBlock {block : Block} {ts : TransactionStatus} (hrunning : ledger.status ≠ none)
      (hparent : ∃ p ∈ ledger.saved, block.blockHeader.previousBlockHash = p.hash ∧
        block.blockHeader.height.toNat = p.block.blockHeader.height.toNat + 1)
      (hhash : ∀ s ∈ ledger.saved, s.hash = env.hash block.blockHeader →
        s.block.blockHeader = block.blockHeader) :
      Next env ledger (.write (.saveBlock block ts)) (ledger.step (.saveBlock block ts))
  | saveChainStatus {s : SavedBlock env.toStoreEnv} {view : UtxoViewpoint}
      {order : IterOrder (Sigma fun _ : Hash => UtxoEntry)} (hrunning : ledger.status ≠ none)
      (hs : s ∈ ledger.saved) :
      Next env ledger (.write (.saveChainStatus s.block.blockHeader.height s.hash view order))
        (ledger.setStatus s.block.blockHeader.height s.hash view)

/-- The ledger after a history. -/
inductive History (env : ChainEnv) : List Event → Ledger env.toStoreEnv → Prop
  | nil : History env [] Ledger.empty
  | snoc {events : List Event} {e : Event} {ledger ledger' : Ledger env.toStoreEnv}
      (h : History env events ledger) (hnext : Next env ledger e ledger') :
      History env (events ++ [e]) ledger'

section
variable {env : ChainEnv} {commitmentReadFrom : Fill BlockCommitment}

/-- The blocks of the ledger are a tree over the genesis block, and the status is that of one of
them. -/
structure Grown (genesis : BlockHeader) (ledger : Ledger env.toStoreEnv) : Prop where
  inj : ∀ s ∈ ledger.saved, ∀ t ∈ ledger.saved, s.hash = t.hash →
    s.block.blockHeader = t.block.blockHeader
  genesis_mem : ledger.saved ≠ [] → ∃ s ∈ ledger.saved, s.block.blockHeader = genesis
  parent : ∀ s ∈ ledger.saved, s.block.blockHeader ≠ genesis → ∃ p ∈ ledger.saved,
    s.block.blockHeader.previousBlockHash = p.hash ∧
      s.block.blockHeader.height.toNat = p.block.blockHeader.height.toNat + 1
  status : ∀ st, ledger.status = some st → ∃ s ∈ ledger.saved,
    s.block.blockHeader.height = st.1 ∧ s.hash = st.2
  young : ledger.status = none → ∀ s ∈ ledger.saved, s.block.blockHeader = genesis

namespace Grown

variable {genesis : BlockHeader} {ledger : Ledger env.toStoreEnv}

theorem empty : Grown genesis (Ledger.empty : Ledger env.toStoreEnv) where
  inj _ hs := absurd hs List.not_mem_nil
  genesis_mem hne := absurd rfl hne
  parent _ hs := absurd hs List.not_mem_nil
  status _ hst := nomatch hst
  young _ _ hs := absurd hs List.not_mem_nil

variable {s : SavedBlock env.toStoreEnv}

/-- The genesis block is saved, maybe again, before there is a status. -/
theorem saveGenesis (h : Grown genesis ledger) (hnew : ledger.status = none)
    (hs : s.block.blockHeader = genesis) : Grown genesis (ledger.save s) := by
  have hall : ∀ t ∈ (ledger.save s).saved, t.block.blockHeader = genesis :=
    List.forall_mem_cons.mpr ⟨hs, h.young hnew⟩
  exact {
    inj := fun t ht u hu _ => (hall t ht).trans (hall u hu).symm
    genesis_mem := fun _ => ⟨s, List.mem_cons_self, hs⟩
    parent := fun t ht hne => absurd (hall t ht) hne
    status := fun st hst => by
      rw [show (ledger.save s).status = none from hnew] at hst
      cases hst
    young := fun _ => hall }

/-- A block is saved after its parent. -/
theorem save (h : Grown genesis ledger) (hrunning : ledger.status ≠ none)
    (hparent : ∃ p ∈ ledger.saved, s.block.blockHeader.previousBlockHash = p.hash ∧
      s.block.blockHeader.height.toNat = p.block.blockHeader.height.toNat + 1)
    (hhash : ∀ t ∈ ledger.saved, t.hash = s.hash → t.block.blockHeader = s.block.blockHeader) :
    Grown genesis (ledger.save s) where
  inj t ht u hu heq := by
    rcases List.mem_cons.mp ht with rfl | ht'
    · rcases List.mem_cons.mp hu with rfl | hu'
      · rfl
      · exact (hhash u hu' heq.symm).symm
    · rcases List.mem_cons.mp hu with rfl | hu'
      · exact hhash t ht' heq
      · exact h.inj t ht' u hu' heq
  genesis_mem _ := by
    obtain ⟨p, hp, -⟩ := hparent
    obtain ⟨g, hg, heq⟩ := h.genesis_mem (List.ne_nil_of_mem hp)
    exact ⟨g, List.mem_cons_of_mem _ hg, heq⟩
  parent t ht hne := by
    rcases List.mem_cons.mp ht with rfl | ht
    · obtain ⟨p, hp, hprev⟩ := hparent
      exact ⟨p, List.mem_cons_of_mem _ hp, hprev⟩
    · obtain ⟨p, hp, hprev⟩ := h.parent t ht hne
      exact ⟨p, List.mem_cons_of_mem _ hp, hprev⟩
  status st hst := by
    obtain ⟨t, ht, hheight⟩ := h.status st hst
    exact ⟨t, List.mem_cons_of_mem _ ht, hheight⟩
  young hnone := absurd hnone hrunning

theorem setStatus (h : Grown genesis ledger) (hs : s ∈ ledger.saved) (view : UtxoViewpoint) :
    Grown genesis (ledger.setStatus s.block.blockHeader.height s.hash view) where
  inj := h.inj
  genesis_mem := h.genesis_mem
  parent := h.parent
  status st hst := by
    cases hst
    exact ⟨s, hs, rfl, rfl⟩
  young := nofun

end Grown

/-- The header of the genesis block is the same at each start, and a start can save the block. -/
theorem genesis_spec (doc : ChainDocumented env commitmentReadFrom) :
    ∃ genesis, GenesisHeader env genesis ∧
      ∀ orders, ∃ s view, IsGenesis env orders s ∧ env.applyBlock s.block s.ts = .ok view := by
  obtain ⟨txID, hgenesis⟩ := Config.genesisBlock_header doc.entries env.sha3
  refine ⟨Config.genesisHeader env.sha3 txID, ⟨rfl, ?_, fun orders s hs => ?_⟩, fun orders => ?_⟩
  · obtain ⟨tx, htx, -⟩ := hgenesis idOrders
    exact doc.index _ _ htx
  · obtain ⟨tx, htx, -⟩ := hgenesis orders.mapTx
    rw [Except.ok.inj (hs.block.symm.trans htx)]
  · obtain ⟨tx, htx, -⟩ := hgenesis orders.mapTx
    obtain ⟨hsaved, view, hview⟩ := doc.genesis _ _ htx ⟨1, [⟨false⟩]⟩
    rcases blockBatch_cases env.toStoreEnv ⟨Config.genesisHeader env.sha3 txID, [tx]⟩
      ⟨1, [⟨false⟩]⟩ with ⟨s, hs, hblock, hts, -⟩ | ⟨hnone, -⟩
    · rw [← hblock, ← hts] at hs hview
      refine ⟨s, view, ⟨by rw [hblock]; exact htx, ?_, hs⟩, hview⟩
      rw [hblock, hts]
      rfl
    · rw [hnone] at hsaved
      cases hsaved

/-! ### Starting -/

/-- The chain has a node for each block of the ledger. The block of the status is the tip of its
main chain, and the genesis block is at the bottom. -/
structure Restored (genesis : BlockHeader) (ledger : Ledger env.toStoreEnv) (started : Started) :
    Prop where
  nodes : ∀ k, (getNode started.chain.index k).isSome ↔ ∃ s ∈ ledger.saved, s.hash = k
  best : ∃ ref node height hash, ledger.status = some (height, hash) ∧
    started.chain.bestNode = some ref ∧ started.chain.index.heap[ref]? = some node ∧
    node.hash = hash ∧ node.height = height ∧
    IsMainChain started.chain.index.heap started.mainChain.mainChain ref height.toNat
  root : ∃ ref node, started.mainChain.mainChain.get? 0 = some (some ref) ∧
    started.chain.index.heap[ref]? = some node ∧ node.parent = none ∧
    node.hash = env.hash genesis

/-- A header that was written is read back, so its height is one that can be read. -/
theorem height_lt_of_saved (hundone : Undone env.writers commitmentReadFrom env.sha3)
    (s : SavedBlock env.toStoreEnv) : s.block.blockHeader.height.toNat < 2 ^ 63 := by
  obtain ⟨henc, -⟩ := encodable_of_marshalText s.marshal_block
  have hread := hundone.header s.block.blockHeader serBlockFull _ (.inr rfl)
    (Prod.ext rfl henc.header) []
  have hle := header_readFrom_height commitmentReadFrom (show BlockHeader.zero.height.toNat ≤ _ from
    Nat.zero_le _) ((env.writers.headerWriteTo s.block.blockHeader serBlockFull).1 ++ [])
  rw [hread] at hle
  exact Nat.lt_succ_of_le hle

variable {genesis : BlockHeader} {ledger : Ledger env.toStoreEnv} {disk : Disk}

/-- The saved headers are a tree over the genesis block. -/
theorem Grown.headerTree (hg : Grown genesis ledger) (hne : ledger.saved ≠ [])
    {headers : List BlockHeader} (hnodup : headers.Nodup)
    (hmem : ∀ bh, bh ∈ headers ↔ ∃ s ∈ ledger.saved, s.block.blockHeader = bh) :
    HeaderTree env.hash genesis headers where
  nodup := hnodup
  hash_inj a ha b hb heq := by
    obtain ⟨s, hs, rfl⟩ := (hmem a).mp ha
    obtain ⟨t, ht, rfl⟩ := (hmem b).mp hb
    exact hg.inj s hs t ht heq
  genesis_mem := (hmem genesis).mpr (hg.genesis_mem hne)
  parent bh hbh hne := by
    obtain ⟨s, hs, rfl⟩ := (hmem bh).mp hbh
    obtain ⟨p, hp, hprev, hheight⟩ := hg.parent s hs hne
    exact ⟨p.block.blockHeader, (hmem _).mpr ⟨p, hp, rfl⟩, hprev, hheight⟩

/-- `NewChain` with a status in the store. -/
theorem startFrom_spec (doc : ChainDocumented env commitmentReadFrom)
    (hgenesis : GenesisHeader env genesis) (h : Represents disk.answer ledger)
    (hg : Grown genesis ledger) (hrunning : ledger.status ≠ none) :
    ∃ started, startFrom env disk = .ok (.ok (some started)) ∧ Restored genesis ledger started := by
  obtain ⟨⟨height, hash⟩, hst⟩ := Option.ne_none_iff_exists'.mp hrunning
  obtain ⟨s, hs, hsheight, hshash⟩ := hg.status _ hst
  obtain ⟨headers, hvalues, hnodup, hasc, hmem⟩ :=
    listing_headers doc.store h hg.inj doc.unmarshalHeader
  have tree := hg.headerTree (List.ne_nil_of_mem hs) hnodup hmem
  obtain ⟨st, hload, hrebuilt, hheights⟩ :=
    loadBlockIndex_spec hgenesis.index doc.nodeHeight tree hasc hvalues
  have htree : IsTree st.blockIndex.heap :=
    isTree_of_rebuilt hrebuilt hheights tree hasc hgenesis.height fun bh hbh => by
      obtain ⟨t, -, rfl⟩ := (hmem bh).mp hbh
      exact height_lt_of_saved doc.undone t
  -- The node of the block that the status is for.
  obtain ⟨ref, href⟩ := List.mem_iff_getElem?.mp ((hmem _).mpr ⟨s, hs, rfl⟩)
  obtain ⟨node, hnode⟩ : ∃ node, st.blockIndex.heap[ref]? = some node := by
    have hlen := congrArg List.length hrebuilt.hashes
    rw [List.length_map, List.length_map] at hlen
    have hlt := (List.getElem?_eq_some_iff.mp href).1
    exact ⟨_, List.getElem?_eq_getElem (by rwa [hlen])⟩
  obtain ⟨bh, hbh, hnhash, hnheight⟩ := header_of_node hrebuilt hheights hnode
  obtain rfl : s.block.blockHeader = bh := Option.some.inj (href.symm.trans hbh)
  have hlookup := hrebuilt.lookup_hash (nodup_hashes tree) hnode
  have hnode' : node.hash = hash := hnhash.trans hshash
  have hget : getNode st.blockIndex hash = some (ref, node) :=
    getNode_eq (hnode' ▸ hlookup) hnode
  obtain ⟨bi, hset, htracks⟩ := htree.setMainChainIn_spec hnode
  have hmain := htree.isMainChain hnode htracks
  have hh : node.height = height := hnheight.trans hsheight
  rw [hh] at hmain
  refine ⟨⟨⟨st.blockIndex, ⟨∅⟩, some ref⟩, bi⟩, ?_, fun k => ?_, ?_, ?_⟩
  · have hstate : disk.getStoreStatus env.toStoreEnv = some ⟨height, some hash⟩ := by
      rw [Disk.getStoreStatus, h.state, hst]
      rfl
    simp only [startFrom, Disk.loadBlockIndex, hload, hstate, orPanic_some, bind, Except.bind, hget,
      Option.map_some, hset]
    rfl
  · rw [hrebuilt.isSome_getNode_iff]
    constructor
    · rintro ⟨bh, hbh, rfl⟩
      obtain ⟨t, ht, rfl⟩ := (hmem bh).mp hbh
      exact ⟨t, ht, rfl⟩
    · rintro ⟨t, ht, rfl⟩
      exact ⟨t.block.blockHeader, (hmem _).mpr ⟨t, ht, rfl⟩, rfl⟩
  · exact ⟨ref, node, height, hash, hst, rfl, hnode, hnode', hh, hmain⟩
  · obtain ⟨n, root, hslot, hroot, hzero, -⟩ := hmain.slot 0 (Nat.zero_le _)
    exact ⟨n, root, hslot, hroot, genesis_of_height_zero hrebuilt hheights tree hroot hzero⟩

theorem saveBlock_genesis {orders : StartOrders} {s : SavedBlock env.toStoreEnv}
    (hs : IsGenesis env orders s) (disk : Disk) :
    disk.saveBlock env.toStoreEnv s.block s.ts = (disk.write s.batch, none) := by
  rcases blockBatch_cases env.toStoreEnv s.block s.ts with ⟨t, ht, -, -, hbatch⟩ | ⟨hnone, -⟩
  · cases hs.saved.symm.trans ht
    rw [Disk.saveBlock, hbatch]
    rfl
  · cases hs.saved.symm.trans hnone

/-- The second half of `initChainStatus` succeeds. -/
theorem saveGenesisStatus_spec (doc : ChainDocumented env commitmentReadFrom)
    (hgenesis : GenesisHeader env genesis) (h : Represents disk.answer ledger)
    {s : SavedBlock env.toStoreEnv} (hs : s.block.blockHeader = genesis) {view : UtxoViewpoint}
    (hview : env.applyBlock s.block s.ts = .ok view) (orders : StartOrders) :
    ∃ disk', saveGenesisStatus env disk s.block s.ts orders = (disk', none) ∧
      Represents disk'.answer (ledger.setStatus s.block.blockHeader.height s.hash view) := by
  obtain ⟨node, hnode, -, hhash⟩ :=
    hgenesis.index.newBlockNode_ok s.block.blockHeader none (.inl hs)
  have hheight := doc.nodeHeight _ _ _ hnode
  obtain ⟨writes, bytes, hbatch, -⟩ := chainStatusBatch_spec doc.store s.block.blockHeader.height
    s.hash view orders.view
  have hstep := h.step doc.store
    (.saveChainStatus s.block.blockHeader.height s.hash view orders.view)
  refine ⟨_, ?_, hstep⟩
  simp only [saveGenesisStatus, hview, hnode, hheight, hhash, Disk.step, Disk.saveChainStatus]
  rw [show env.hash s.block.blockHeader = s.hash from rfl, hbatch]
  rfl

/-- `NewChain`, with or without a status in the store. -/
theorem newChain_spec (doc : ChainDocumented env commitmentReadFrom)
    (hgenesis : GenesisHeader env genesis)
    (h : Represents disk.answer ledger) (hg : Grown genesis ledger) {orders : StartOrders}
    {ledger' : Ledger env.toStoreEnv} (hnext : Next env ledger (.start orders) ledger') :
    ∃ disk' started, newChain env disk orders = .ok (disk', .ok (some started)) ∧
      Represents disk'.answer ledger' ∧ Grown genesis ledger' ∧
      Restored genesis ledger' started := by
  have hstate : disk.getStoreStatus env.toStoreEnv =
      ledger.status.map fun st => ⟨st.1, some st.2⟩ := h.state
  cases hnext with
  | restart hrunning =>
    obtain ⟨started, hstart, hrestored⟩ := startFrom_spec doc hgenesis h hg hrunning
    refine ⟨disk, started, ?_, h, hg, hrestored⟩
    obtain ⟨st, hst⟩ := Option.ne_none_iff_exists'.mp hrunning
    rw [hst] at hstate
    rw [newChain, hstate]
    simp only [Option.map_some, hstart]
    rfl
  | @first _ s view hnew hs hview =>
    have hheader := hgenesis.same orders s hs
    have hsave := h.save doc.store s
    rw [← SortedStore.answer_write] at hsave
    obtain ⟨disk', hinit, h'⟩ := saveGenesisStatus_spec doc hgenesis hsave hheader hview orders
    have hg' := (hg.saveGenesis hnew hheader).setStatus List.mem_cons_self view
    obtain ⟨started, hstart, hrestored⟩ := startFrom_spec doc hgenesis h' hg' nofun
    refine ⟨disk', started, ?_, h', hg', hrestored⟩
    rw [hnew] at hstate
    rw [newChain, hstate]
    simp only [Option.map_none, initChainStatus, hs.block, hs.status, saveBlock_genesis hs, hinit,
      bind, Except.bind, pure, Except.pure, hstart]

/-- One event. -/
theorem Next.step (doc : ChainDocumented env commitmentReadFrom)
    (hgenesis : GenesisHeader env genesis)
    (h : Represents disk.answer ledger) (hg : Grown genesis ledger) {e : Event}
    {ledger' : Ledger env.toStoreEnv} (hnext : Next env ledger e ledger') :
    ∃ disk', e.apply env disk = .ok disk' ∧ Represents disk'.answer ledger' ∧
      Grown genesis ledger' := by
  have hstate : disk.getStoreStatus env.toStoreEnv =
      ledger.status.map fun st => ⟨st.1, some st.2⟩ := h.state
  cases e with
  | start orders =>
    obtain ⟨disk', started, hstart, h', hg', -⟩ :=
      newChain_spec doc hgenesis h hg hnext
    refine ⟨disk', ?_, h', hg'⟩
    rw [Event.apply, hstart]
    rfl
  | cut orders =>
    cases hnext with
    | recut hrunning =>
      refine ⟨disk, ?_, h, hg⟩
      obtain ⟨st, hst⟩ := Option.ne_none_iff_exists'.mp hrunning
      rw [hst] at hstate
      rw [Event.apply, hstate]
      rfl
    | @cut _ s hnew hs =>
      have hsave := h.save doc.store s
      rw [← SortedStore.answer_write] at hsave
      refine ⟨_, ?_, hsave, hg.saveGenesis hnew (hgenesis.same orders s hs)⟩
      rw [hnew] at hstate
      rw [Event.apply, hstate]
      simp only [Option.map_none, hs.block, hs.status, saveBlock_genesis hs, bind, Except.bind]
      rfl
  | write op =>
    refine ⟨disk.step env.toStoreEnv op, rfl, ?_⟩
    have hstep := h.step doc.store op
    cases hnext with
    | @saveBlock block ts hrunning hparent hhash =>
      refine ⟨hstep, ?_⟩
      rw [Ledger.step]
      rcases blockBatch_cases env.toStoreEnv block ts with ⟨s, hs, rfl, -⟩ | ⟨hnone, -⟩
      · rw [hs]
        exact hg.save hrunning hparent hhash
      · rw [hnone]
        exact hg
    | saveChainStatus hrunning hs => exact ⟨hstep, hg.setStatus hs _⟩

/-- After every history the database is what the ledger says, and nothing has panicked. -/
theorem History.spec (doc : ChainDocumented env commitmentReadFrom)
    (hgenesis : GenesisHeader env genesis)
    {events : List Event} (hhist : History env events ledger) :
    ∃ disk, diskAfter env events = .ok disk ∧ Represents disk.answer ledger ∧
      Grown genesis ledger := by
  induction hhist with
  | nil => exact ⟨.empty, rfl, Represents.empty doc.store, Grown.empty⟩
  | snoc _ hnext ih =>
    obtain ⟨disk, hdisk, h, hg⟩ := ih
    obtain ⟨disk', happly, h', hg'⟩ := hnext.step doc hgenesis h hg
    refine ⟨disk', ?_, h', hg'⟩
    rw [diskAfter, List.foldlM_append]
    rw [diskAfter] at hdisk
    rw [hdisk]
    show ([_].foldlM (Event.apply env) disk) = _
    rw [List.foldlM_cons, happly]
    rfl

/-- A chain starts from whatever an earlier one has left behind, at whatever point it was stopped.
Nothing panics, and there is no error. The index has a node for each block that was saved. The best
node is that of the status that was saved last, or that of the genesis block, and the main chain is
the path to it from the genesis block. -/
theorem newChain_restores (doc : ChainDocumented env commitmentReadFrom) {events : List Event}
    (hhist : History env events ledger) (orders : StartOrders) :
    ∃ disk disk' started ledger' genesis, diskAfter env events = .ok disk ∧
      newChain env disk orders = .ok (disk', .ok (some started)) ∧
      Next env ledger (.start orders) ledger' ∧
      Config.genesisBlock env.entryApi env.sha3 orders.mapTx = .ok genesis ∧
      Restored genesis.blockHeader ledger' started ∧ Represents disk'.answer ledger' := by
  obtain ⟨genesis, hgenesis, hexists⟩ := genesis_spec doc
  obtain ⟨disk, hdisk, h, hg⟩ := hhist.spec doc hgenesis
  obtain ⟨s, view, hs, hview⟩ := hexists orders
  obtain ⟨ledger', hnext⟩ : ∃ ledger', Next env ledger (.start orders) ledger' := by
    by_cases hst : ledger.status = none
    · exact ⟨_, .first hst hs hview⟩
    · exact ⟨ledger, .restart hst⟩
  obtain ⟨disk', started, hstart, h', -, hrestored⟩ :=
    newChain_spec doc hgenesis h hg hnext
  refine ⟨disk, disk', started, ledger', s.block, hdisk, hstart, hnext, hs.block, ?_, h'⟩
  rwa [hgenesis.same orders s hs]

end

/-! ### A concrete history -/

/-- The genesis transaction as it is written. -/
def genesisBytes : List UInt8 :=
  [7, 1, 0, 1, 1, 75, 2, 73] ++ Config.genesisText ++ [0, 1, 1, 65] ++ List.replicate 32 0xff ++
    Blockchain.putUvarint 140700041250000000 ++ [1, 22] ++ Config.genesisContract ++ [0]

/-- Writers for the genesis transaction as well. -/
def chainWriters : BlockWriters where
  headerWriteTo := plainHeaderWriteTo
  txWriteTo tx :=
    if tx.txData = Config.genesisTxData then .ok genesisBytes else plainWriters.txWriteTo tx

theorem chainWriters_undone : Undone chainWriters readTwoHashes zeroSha3 where
  header := plainWriters_undone.header
  transaction tx htx r := by
    by_cases hgenesis : tx.txData = Config.genesisTxData
    · have hwrite : chainWriters.txWriteTo tx = .ok genesisBytes := if_pos hgenesis
      have hread : (TxData.readFrom zeroSha3).run genesisBytes = .ok ({ Config.genesisTxData with
          serializedSize := UInt64.ofNat genesisBytes.length }, []) := by
        decide +kernel
      obtain ⟨p, hp, hdata⟩ := (TxData.readFrom_reads zeroSha3).split hread
      rw [List.append_nil] at hp
      rw [resized, txBytes, hwrite, hgenesis]
      show (TxData.readFrom zeroSha3).run (genesisBytes ++ r) = _
      rw [hp]
      exact (TxData.readFrom_reads zeroSha3).append (hp ▸ hdata) r
    · have hwrite : chainWriters.txWriteTo tx = plainWriters.txWriteTo tx := if_neg hgenesis
      rw [hwrite] at htx
      have hread := plainWriters_undone.transaction tx htx r
      rw [resized, txBytes] at hread ⊢
      rw [hwrite]
      exact hread

/-- The hash of a block is its nonce. -/
def plainChain : ChainEnv where
  toStoreEnv := plainStoreEnv chainWriters sampleHash
  entryApi := tagApi
  sha3 := zeroSha3
  index := { sampleApi with unmarshalText := plainUnmarshalHeader }
  applyBlock _ _ := .ok ⟨∅⟩

theorem plainChain_documented : ChainDocumented plainChain readTwoHashes where
  store := plainStoreEnv_documented _ _
  entries := tagApi_documented
  undone := chainWriters_undone
  unmarshalHeader bh text h := by
    have hread := readFrom_plainHeader (.inl rfl) (eq_of_textOf h) []
    rw [List.append_nil] at hread
    show plainUnmarshalHeader text = _
    rw [plainUnmarshalHeader, hread]
  index orders genesis h := by
    obtain ⟨txID, hgenesis⟩ := Config.genesisBlock_header tagApi_documented zeroSha3
    obtain ⟨tx, htx, -⟩ := hgenesis orders
    obtain rfl := Except.ok.inj (htx.symm.trans h)
    refine ⟨rfl, fun bh parent hparent => ⟨_, if_neg ?_, rfl, rfl⟩, fun _ _ _ => rfl⟩
    rintro ⟨hheight, hnone⟩
    rcases hparent with rfl | hparent
    · exact hheight rfl
    · rw [Option.isNone_iff_eq_none.mp hnone] at hparent
      cases hparent
  nodeHeight bh parent node h := by
    have hnode : (if bh.height ≠ 0 ∧ parent.isNone then
        .error (RootErr.errorf "parent node can not be nil").err
      else .ok ⟨parent.map Prod.fst, sampleHash bh, parent.elim 1 fun p => p.2.workSum + 1,
        bh.height⟩ : Except Err BlockNode) = .ok node := h
    split at hnode
    · cases hnode
    · cases hnode
      rfl
  genesis orders genesis h ts := by
    obtain ⟨txID, hgenesis⟩ := Config.genesisBlock_header tagApi_documented zeroSha3
    obtain ⟨tx, htx, hdata⟩ := hgenesis orders
    obtain rfl := Except.ok.inj (htx.symm.trans h)
    refine ⟨?_, _, rfl⟩
    have henc : Encodable plainChain.writers ⟨Config.genesisHeader zeroSha3 txID, [tx]⟩ := by
      refine ⟨rfl, List.forall_mem_singleton.mpr ?_⟩
      rw [show plainChain.writers.txWriteTo tx = .ok genesisBytes from if_pos hdata]
      rfl
    have hblock := marshalText_eq henc (show 1 < 2 ^ 31 by decide)
    rw [saved?, okOf_ok hblock]
    rfl

def plainStart : StartOrders := ⟨idOrders, ⟨id, fun _ => .refl _⟩⟩

/-- A block over the genesis block. -/
def plainChild : Block := ⟨sampleHeader 5 1 9253507043297, (plainBlock coinbaseAlone).transactions⟩

/-- The first start is cut off, the second one goes through, and a block is saved. -/
def plainEvents : List Event :=
  [.cut plainStart, .start plainStart, .write (.saveBlock plainChild ⟨1, [⟨false⟩]⟩)]

/-- The next start finds the block. -/
theorem plainChain_restored : ∃ disk disk' started, diskAfter plainChain plainEvents = .ok disk ∧
    newChain plainChain disk plainStart = .ok (disk', .ok (some started)) ∧
    (getNode started.chain.index (sampleHash plainChild.blockHeader)).isSome := by
  obtain ⟨txID, hgenesis⟩ := Config.genesisBlock_header tagApi_documented zeroSha3
  obtain ⟨-, -, hexists⟩ := genesis_spec plainChain_documented
  obtain ⟨s, view, hs, hview⟩ := hexists plainStart
  obtain ⟨tx, htx, -⟩ := hgenesis idOrders
  have hblock := Except.ok.inj (hs.block.symm.trans htx)
  have hhash : s.hash = ⟨9253507043297, 0, 0, 0⟩ := by
    rw [SavedBlock.hash, hblock]
    rfl
  obtain ⟨c, hc, hchild, -⟩ | ⟨hnone, -⟩ :=
    blockBatch_cases plainChain.toStoreEnv plainChild ⟨1, [⟨false⟩]⟩
  · have hcut : History plainChain [.cut plainStart] _ := .snoc .nil (.cut rfl hs)
    have hstart : History plainChain [.cut plainStart, .start plainStart] _ :=
      .snoc hcut (.first rfl hs hview)
    have hother : ∀ t ∈ [s, s], t.hash = plainChain.hash plainChild.blockHeader →
        t.block.blockHeader = plainChild.blockHeader := by
      have hne : (⟨9253507043297, 0, 0, 0⟩ : Hash) ≠ plainChain.hash plainChild.blockHeader := by
        decide
      simp only [List.forall_mem_cons, hhash]
      exact ⟨fun heq => absurd heq hne, fun heq => absurd heq hne, List.forall_mem_nil _⟩
    have hsave : History plainChain plainEvents _ := .snoc hstart
      (.saveBlock (Option.some_ne_none _)
        ⟨s, List.mem_cons_self, hhash.symm, by rw [hblock]; rfl⟩ hother)
    obtain ⟨disk, disk', started, ledger', _, hdisk, hnew, hnext, -, hrestored, -⟩ :=
      newChain_restores plainChain_documented hsave plainStart
    refine ⟨disk, disk', started, hdisk, hnew, (hrestored.nodes _).mpr ⟨c, ?_, ?_⟩⟩
    · have hmem : c ∈ (((((Ledger.empty.save s).save s).setStatus s.block.blockHeader.height s.hash
          view).step (.saveBlock plainChild ⟨1, [⟨false⟩]⟩)).saved) := by
        rw [Ledger.step, hc]
        exact List.mem_cons_self
      cases hnext with
      | restart => exact hmem
      | first hnew =>
        rw [Ledger.step, hc] at hnew
        cases hnew
    · rw [SavedBlock.hash, hchild]
      rfl
  · have hsaved : (saved? plainChain.toStoreEnv plainChild ⟨1, [⟨false⟩]⟩).isSome = true := by
      decide
    rw [hnone] at hsaved
    cases hsaved

end BtmStats.Proofs.Protocol
