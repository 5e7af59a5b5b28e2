import BtmStats.Spec.Database.LoadIndex

/-!
# `BtmStats.Proofs.Database.LoadIndex`: the block tree is rebuilt

The headers come in an order in which heights do not fall, and every header but the genesis
header has its parent among them, one lower. So the genesis header is the first one
(`head_eq_genesis`), and the parent of every other one has been read before it
(`parent_mem_done`). `Rebuilt` says what the loop has built from the headers that it has read.
The last node has the hash of a header, so when that hash is the one that is looked for, the
index has the last node under it (`parentOf_spec`).
-/

set_option autoImplicit false

namespace BtmStats.Proofs.Database

open Lib Spec Spec.Database
open Spec.Bc (Hash)
open Spec.Protocol (BlockNode NodeRef)
open Spec.Types (BlockHeader)

variable {hash : BlockHeader → Hash} {genesis : BlockHeader}

/-! ### Headers in the order of their heights -/

/-- The headers are a tree under the genesis header, and no two of them have one hash. -/
structure HeaderTree (hash : BlockHeader → Hash) (genesis : BlockHeader)
    (headers : List BlockHeader) : Prop where
  nodup : headers.Nodup
  hash_inj : ∀ a ∈ headers, ∀ b ∈ headers, hash a = hash b → a = b
  genesis_mem : genesis ∈ headers
  parent : ∀ bh ∈ headers, bh ≠ genesis → ∃ p ∈ headers,
    bh.previousBlockHash = hash p ∧ bh.height.toNat = p.height.toNat + 1

/-- Heights do not fall. -/
def Ascending (headers : List BlockHeader) : Prop :=
  headers.Pairwise fun a b => a.height ≤ b.height

section
variable {done rest : List BlockHeader} {bh : BlockHeader}

/-- The parent of a header comes before it. -/
theorem parent_mem_done (tree : HeaderTree hash genesis (done ++ bh :: rest))
    (hasc : Ascending (done ++ bh :: rest)) (hne : bh ≠ genesis) :
    ∃ p ∈ done, bh.previousBlockHash = hash p := by
  obtain ⟨p, hp, hprev, hheight⟩ := tree.parent bh (by simp) hne
  refine ⟨p, ?_, hprev⟩
  rcases List.mem_append.mp hp with hdone | hlater
  · exact hdone
  · -- A header that comes later is not lower.
    have hle : bh.height ≤ p.height := by
      rcases List.mem_cons.mp hlater with rfl | hrest
      · exact UInt64.le_refl _
      · exact List.rel_of_pairwise_cons (List.pairwise_append.mp hasc).2.1 hrest
    have hle' := UInt64.le_iff_toNat_le.mp hle
    omega

theorem head_eq_genesis (tree : HeaderTree hash genesis (bh :: rest))
    (hasc : Ascending (bh :: rest)) : bh = genesis := by
  by_contra hne
  obtain ⟨p, hp, -⟩ := @parent_mem_done _ _ [] rest bh tree hasc hne
  exact absurd hp List.not_mem_nil

/-- Only the first header is the genesis header. -/
theorem ne_genesis (tree : HeaderTree hash genesis (done ++ bh :: rest))
    (hasc : Ascending (done ++ bh :: rest)) (hdone : done ≠ []) : bh ≠ genesis := by
  obtain ⟨first, done, rfl⟩ := List.exists_cons_of_ne_nil hdone
  have hfirst : first = genesis := head_eq_genesis tree hasc
  intro hbh
  have hnodup := List.nodup_cons.mp tree.nodup
  exact hnodup.1 (by rw [hfirst, ← hbh]; simp)

/-- The hash of a header is new. -/
theorem hash_notMem_done (tree : HeaderTree hash genesis (done ++ bh :: rest)) :
    hash bh ∉ done.map hash := by
  intro hmem
  obtain ⟨a, ha, heq⟩ := List.mem_map.mp hmem
  have hab := tree.hash_inj a (by simp [ha]) bh (by simp) heq
  have hdisj := (List.nodup_append.mp tree.nodup).2.2
  exact hdisj a ha bh List.mem_cons_self hab

theorem nodup_hashes {headers : List BlockHeader} (tree : HeaderTree hash genesis headers) :
    (headers.map hash).Nodup :=
  List.Nodup.map_on (fun a ha b hb => tree.hash_inj a ha b hb) tree.nodup

end

/-! ### The loop -/

/-- A node has no parent for the genesis header, and the node of its predecessor for every
other one. -/
def HasParent (genesis : BlockHeader) (index : NodeMap) (bh : BlockHeader) (node : BlockNode) :
    Prop :=
  (bh = genesis → node.parent = none) ∧
    (bh ≠ genesis → ∃ ref, index.lookup bh.previousBlockHash = some ref ∧ node.parent = some ref)

/-- What the loop has built from the headers `done`. -/
structure Rebuilt (hash : BlockHeader → Hash) (genesis : BlockHeader) (done : List BlockHeader)
    (st : LoadState) : Prop where
  keyed : Arena.Keyed BlockNode.hash st.blockIndex
  hashes : st.blockIndex.heap.map BlockNode.hash = done.map hash
  parents : ∀ (i : Nat) bh node, done[i]? = some bh → st.blockIndex.heap[i]? = some node →
    HasParent genesis st.blockIndex.index bh node
  last : (done = [] ∧ st.lastNode = none) ∨
    ∃ init node, st.blockIndex.heap = init ++ [node] ∧ st.lastNode = some (init.length, node)

variable {done : List BlockHeader} {st : LoadState} {node : BlockNode} {bh : BlockHeader}

/-- The place of a header that has been read. -/
theorem Rebuilt.lookup_hash (h : Rebuilt hash genesis done st) (hnodup : (done.map hash).Nodup)
    {i : Nat} (hnode : st.blockIndex.heap[i]? = some node) :
    st.blockIndex.index.lookup node.hash = some i :=
  h.keyed.lookup_key (h.hashes ▸ hnodup) hnode

theorem getNode_eq {blockIndex : Arena BlockNode Hash} {k : Hash} {ref : NodeRef}
    (hlookup : blockIndex.index.lookup k = some ref) (hnode : blockIndex.heap[ref]? = some node) :
    getNode blockIndex k = some (ref, node) := by
  simp only [getNode, hlookup, hnode, bind, Option.bind]

/-- The nodes that the index has are those of the headers. -/
theorem Rebuilt.isSome_getNode_iff (h : Rebuilt hash genesis done st) (k : Hash) :
    (getNode st.blockIndex k).isSome ↔ ∃ bh ∈ done, hash bh = k := by
  rw [← List.mem_map, ← h.hashes, ← h.keyed.isSome_find?_iff, getNode, Arena.find?]
  cases st.blockIndex.index.lookup k with
  | none => rfl
  | some ref =>
    show (st.blockIndex.heap[ref]?.bind fun node => some (ref, node)).isSome ↔
      st.blockIndex.heap[ref]?.isSome
    cases st.blockIndex.heap[ref]? with
    | none => rfl
    | some node => exact Iff.rfl

/-- The shortcut and the index agree. -/
theorem parentOf_spec (h : Rebuilt hash genesis done st) (hnodup : (done.map hash).Nodup)
    {p : BlockHeader} (hp : p ∈ done) (hprev : bh.previousBlockHash = hash p) :
    ∃ ref node, st.parentOf bh = some (ref, node) ∧
      st.blockIndex.index.lookup bh.previousBlockHash = some ref := by
  have hmem : hash p ∈ st.blockIndex.heap.map BlockNode.hash := by
    rw [h.hashes]
    exact List.mem_map_of_mem hp
  obtain ⟨node, hnode, hkey⟩ := List.mem_map.mp hmem
  obtain ⟨ref, href⟩ := List.mem_iff_getElem?.mp hnode
  have hlookup := h.lookup_hash hnodup href
  rw [hkey, ← hprev] at hlookup
  rcases h.last with ⟨hnil, -⟩ | ⟨init, lastNode, hheap, hlast⟩
  · exact absurd hp (hnil ▸ List.not_mem_nil)
  · by_cases hshort : lastNode.hash = bh.previousBlockHash
    · -- The last node is indexed under its own hash.
      have hplace : st.blockIndex.heap[init.length]? = some lastNode := by
        rw [hheap]
        exact List.getElem?_concat_length
      refine ⟨init.length, lastNode, ?_, hshort ▸ h.lookup_hash hnodup hplace⟩
      simp only [LoadState.parentOf, hlast, if_pos hshort]
    · refine ⟨ref, node, ?_, hlookup⟩
      simp only [LoadState.parentOf, hlast, if_neg hshort, getNode_eq hlookup href]

variable {api : IndexApi}

/-- Adding the node of a new header. Induction steps of the loop are of this form. -/
theorem Rebuilt.add (h : Rebuilt hash genesis done st) (hnew : hash bh ∉ done.map hash)
    (hhash : node.hash = hash bh) (hparent : HasParent genesis st.blockIndex.index bh node) :
    Rebuilt hash genesis (done ++ [bh])
      ⟨st.blockIndex.add BlockNode.hash node, some (st.blockIndex.next, node)⟩ := by
  have hlen : st.blockIndex.heap.length = done.length := by
    have := congrArg List.length h.hashes
    simpa using this
  -- The new entry does not hide an old one.
  have hkeep : ∀ {b n}, HasParent genesis st.blockIndex.index b n →
      HasParent genesis (st.blockIndex.add BlockNode.hash node).index b n := by
    rintro b n ⟨hgen, hother⟩
    refine ⟨hgen, fun hne => ?_⟩
    obtain ⟨ref, hlookup, hpar⟩ := hother hne
    refine ⟨ref, ?_, hpar⟩
    have hold : b.previousBlockHash ≠ node.hash := by
      intro heq
      obtain ⟨a, ha, hkey⟩ := h.keyed.of_lookup hlookup
      refine hnew ?_
      rw [← h.hashes, ← hhash, ← heq, ← hkey]
      exact List.mem_map_of_mem (List.mem_of_getElem? ha)
    rw [Arena.add, AList.lookup_insert_ne hold]
    exact hlookup
  refine ⟨h.keyed.add node, ?_, ?_, .inr ⟨st.blockIndex.heap, node, rfl, rfl⟩⟩
  · show (st.blockIndex.heap ++ [node]).map BlockNode.hash = (done ++ [bh]).map hash
    rw [List.map_append, List.map_append, h.hashes, List.map_singleton, List.map_singleton, hhash]
  · intro i b n hb hn
    rcases getElem?_concat_eq_some.mp hb with hb | ⟨hi, rfl⟩
    · rcases getElem?_concat_eq_some.mp hn with hn | ⟨hi, -⟩
      · exact hkeep (h.parents i b n hb hn)
      · -- A place before the end is not the end.
        obtain ⟨hlt, -⟩ := List.getElem?_eq_some_iff.mp hb
        omega
    · rcases getElem?_concat_eq_some.mp hn with hn | ⟨-, rfl⟩
      · obtain ⟨hlt, -⟩ := List.getElem?_eq_some_iff.mp hn
        omega
      · exact hkeep hparent

/-- One iteration. -/
theorem loadNext_spec (doc : api.Documented hash genesis) {rest : List BlockHeader}
    (tree : HeaderTree hash genesis (done ++ bh :: rest)) (hasc : Ascending (done ++ bh :: rest))
    (h : Rebuilt hash genesis done st) {value : Str} (hvalue : api.unmarshalText value = .ok bh) :
    ∃ st', api.loadNext st value = .ok st' ∧ Rebuilt hash genesis (done ++ [bh]) st' := by
  have hnew := hash_notMem_done tree
  have hnodup : (done.map hash).Nodup := by
    have hall := nodup_hashes tree
    rw [List.map_append] at hall
    exact (List.nodup_append.mp hall).1
  -- The parent that the iteration takes, and that a node can be made with it.
  have hparent : (bh = genesis ∨ (st.parentOf bh).isSome) ∧
      ∀ node : BlockNode, node.parent = (st.parentOf bh).map Prod.fst →
        HasParent genesis st.blockIndex.index bh node := by
    rcases h.last with ⟨rfl, hnone⟩ | ⟨init, lastNode, hheap, hlast⟩
    · have hgenesis : bh = genesis := head_eq_genesis tree hasc
      refine ⟨.inl hgenesis, fun node hnode => ⟨fun _ => ?_, ?_⟩⟩
      · rw [hnode, LoadState.parentOf, hnone]
        rfl
      · exact fun hne => absurd hgenesis hne
    · have hdone : done ≠ [] := by
        rintro rfl
        have := h.hashes
        rw [hheap] at this
        simp at this
      have hne := ne_genesis tree hasc hdone
      obtain ⟨p, hp, hprev⟩ := parent_mem_done tree hasc hne
      obtain ⟨ref, pnode, hpar, hlookup⟩ := parentOf_spec h hnodup hp hprev
      refine ⟨.inr (by rw [hpar]; rfl), fun node hnode => ⟨fun heq => absurd heq hne, fun _ => ?_⟩⟩
      refine ⟨ref, hlookup, ?_⟩
      rw [hnode, hpar]
      rfl
  obtain ⟨node, hnode, hnodeParent, hhash⟩ := doc.newBlockNode_ok bh (st.parentOf bh) hparent.1
  refine ⟨_, ?_, h.add hnew hhash (hparent.2 node hnodeParent)⟩
  simp only [IndexApi.loadNext, hvalue, hnode, doc.addNode_eq, bind, Except.bind]
  rfl

/-- The loop from any point on. Induction on the headers that are left. -/
theorem loadNext_foldlM (doc : api.Documented hash genesis) {rest : List BlockHeader} :
    ∀ {done : List BlockHeader} {st : LoadState} {values : List Str},
      HeaderTree hash genesis (done ++ rest) → Ascending (done ++ rest) →
      List.Forall₂ (fun value bh => api.unmarshalText value = .ok bh) values rest →
      Rebuilt hash genesis done st →
      ∃ st', values.foldlM api.loadNext st = .ok st' ∧ Rebuilt hash genesis (done ++ rest) st' := by
  induction rest with
  | nil =>
    intro done st values tree hasc hvalues h
    cases hvalues
    refine ⟨st, rfl, ?_⟩
    rwa [List.append_nil]
  | cons bh rest ih =>
    intro done st values tree hasc hvalues h
    cases hvalues with
    | @cons value _ values _ hvalue hvalues =>
      obtain ⟨st₁, hstep, h₁⟩ := loadNext_spec doc tree hasc h hvalue
      rw [List.append_cons] at tree hasc ⊢
      obtain ⟨st', hrun, h'⟩ := ih tree hasc hvalues h₁
      refine ⟨st', ?_, h'⟩
      rw [List.foldlM_cons, hstep]
      exact hrun

/-- The loop from the start. -/
theorem loadBlockIndex_rebuilt {headers : List BlockHeader} {values : List Str}
    (doc : api.Documented hash genesis) (tree : HeaderTree hash genesis headers)
    (hasc : Ascending headers)
    (hvalues : List.Forall₂ (fun value bh => api.unmarshalText value = .ok bh) values headers) :
    ∃ st, values.foldlM api.loadNext ⟨⟨[], api.newBlockIndex⟩, none⟩ = .ok st ∧
      api.loadBlockIndex values = .ok st.blockIndex ∧ Rebuilt hash genesis headers st := by
  have hstart : Rebuilt hash genesis [] ⟨⟨[], api.newBlockIndex⟩, none⟩ := by
    rw [doc.newBlockIndex_eq]
    exact ⟨Arena.Keyed.empty, rfl, fun _ _ _ hb => absurd hb (by simp), .inl ⟨rfl, rfl⟩⟩
  have htree : HeaderTree hash genesis ([] ++ headers) := tree
  obtain ⟨st, hrun, h⟩ := loadNext_foldlM doc htree hasc hvalues hstart
  refine ⟨st, hrun, ?_, h⟩
  rw [IndexApi.loadBlockIndex, hrun]
  rfl

/-- The index has one node for each header, and each node has the node of its predecessor as
its parent. -/
theorem loadBlockIndex_rebuilds {headers : List BlockHeader} {values : List Str}
    (doc : api.Documented hash genesis) (tree : HeaderTree hash genesis headers)
    (hasc : Ascending headers)
    (hvalues : List.Forall₂ (fun value bh => api.unmarshalText value = .ok bh) values headers) :
    ∃ blockIndex, api.loadBlockIndex values = .ok blockIndex ∧
      blockIndex.heap.map BlockNode.hash = headers.map hash ∧
      (∀ k, (getNode blockIndex k).isSome ↔ ∃ bh ∈ headers, hash bh = k) ∧
      ∀ bh ∈ headers, ∃ ref node, getNode blockIndex (hash bh) = some (ref, node) ∧
        node.hash = hash bh ∧ (bh = genesis → node.parent = none) ∧
        (bh ≠ genesis → ∃ parent, getNode blockIndex bh.previousBlockHash = some parent ∧
          node.parent = some parent.1 ∧ parent.2.hash = bh.previousBlockHash) := by
  obtain ⟨st, -, hload, h⟩ := loadBlockIndex_rebuilt doc tree hasc hvalues
  refine ⟨st.blockIndex, hload, h.hashes, h.isSome_getNode_iff, fun bh hbh => ?_⟩
  obtain ⟨i, hi⟩ := List.mem_iff_getElem?.mp hbh
  -- The node of the header stands at its place.
  have hplace : (st.blockIndex.heap.map BlockNode.hash)[i]? = some (hash bh) := by
    rw [h.hashes, List.getElem?_map, hi]
    rfl
  obtain ⟨node, hnode, hhash⟩ := Option.map_eq_some_iff.mp (List.getElem?_map.symm.trans hplace)
  have hlookup := h.lookup_hash (nodup_hashes tree) hnode
  obtain ⟨hgenesis, hother⟩ := h.parents i bh node hi hnode
  refine ⟨i, node, getNode_eq (hhash ▸ hlookup) hnode, hhash, hgenesis, fun hne => ?_⟩
  obtain ⟨ref, href, hparent⟩ := hother hne
  obtain ⟨pnode, hpnode, hkey⟩ := h.keyed.of_lookup href
  exact ⟨(ref, pnode), getNode_eq href hpnode, hparent, hkey⟩

/-! ### A fork -/

/-- A header that is told from others by its nonce. -/
def sampleHeader (nonce height previous : UInt64) : BlockHeader :=
  { BlockHeader.zero with
    nonce := nonce, height := height, previousBlockHash := ⟨previous, 0, 0, 0⟩ }

/-- Two headers at height 1, and one at height 2 over the first of them. -/
def sampleHeaders : List BlockHeader :=
  [sampleHeader 1 0 0, sampleHeader 2 1 1, sampleHeader 3 1 1, sampleHeader 4 2 2]

def sampleHash (bh : BlockHeader) : Hash := ⟨bh.nonce, 0, 0, 0⟩

/-- A value is the place of its header. -/
def sampleApi : IndexApi where
  unmarshalText value :=
    (sampleHeaders[value.length]?).elim (.error RootErr.eof.err) .ok
  newBlockIndex := ∅
  newBlockNode bh parent :=
    if bh.height ≠ 0 ∧ parent.isNone then
      .error (RootErr.errorf "parent node can not be nil").err
    else
      .ok ⟨parent.map Prod.fst, sampleHash bh, parent.elim 1 fun p => p.2.workSum + 1, bh.height⟩
  addNode index node ref := index.insert node.hash ref

theorem sampleApi_documented : sampleApi.Documented sampleHash (sampleHeader 1 0 0) where
  newBlockIndex_eq := rfl
  newBlockNode_ok bh parent h := by
    refine ⟨_, if_neg ?_, rfl, rfl⟩
    rintro ⟨hheight, hnone⟩
    rcases h with rfl | h
    · exact hheight rfl
    · rw [Option.isNone_iff_eq_none.mp hnone] at h
      cases h
  addNode_eq _ _ _ := rfl

/-- Four headers of which two have the same parent. -/
theorem loadBlockIndex_rebuilds_fork :
    ∃ blockIndex, sampleApi.loadBlockIndex [[], [0], [0, 0], [0, 0, 0]] = .ok blockIndex ∧
      blockIndex.heap.map BlockNode.hash = sampleHeaders.map sampleHash := by
  have tree : HeaderTree sampleHash (sampleHeader 1 0 0) sampleHeaders :=
    ⟨by decide, by decide, by decide, by decide⟩
  have hasc : Ascending sampleHeaders := by
    rw [Ascending]
    decide
  have hvalues : List.Forall₂ (fun value bh => sampleApi.unmarshalText value = .ok bh)
      [[], [0], [0, 0], [0, 0, 0]] sampleHeaders :=
    .cons rfl (.cons rfl (.cons rfl (.cons rfl .nil)))
  obtain ⟨blockIndex, hload, hhashes, -⟩ :=
    loadBlockIndex_rebuilds sampleApi_documented tree hasc hvalues
  exact ⟨blockIndex, hload, hhashes⟩

end BtmStats.Proofs.Database
