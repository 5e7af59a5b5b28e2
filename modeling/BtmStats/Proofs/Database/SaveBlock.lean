import BtmStats.Proofs.Database.UtxoView
import BtmStats.Proofs.Types.BlockText
import BtmStats.Spec.Database.SaveBlock

/-!
# `BtmStats.Proofs.Database.SaveBlock`: what the store has been told is what it answers

A `Ledger` is the store as its users see it: the blocks that were saved with the results of their
transactions, the outputs, and the last status. The database keeps all of this under keys that
start with different letters (`tag`), so a batch for one of the tables leaves the others alone.
`Represents` says what the database has for a ledger. `Represents.step` is the step for one call,
and `store_answers` what every read gives after every sequence of calls.
-/

set_option autoImplicit false

namespace BtmStats.Proofs.Database

open Lib Spec Spec.Database Spec.Types Proofs.Types
open Spec.Bc (Hash TransactionStatus newHash storeFront putUint64BE uint64BE)

/-- What the store relies on. The keys of headers are ordered by height first. -/
structure StoreDocumented (env : StoreEnv) : Prop where
  utxos : Documented env.toEnv
  unmarshalStatus_marshalStatus : ∀ ts data, env.marshalStatus ts = .ok data →
    env.unmarshalStatus data = .ok ts
  load_none : ∀ db : DB, db blockStoreKey = none → env.loadBlockStoreStateJSON db = none
  load_marshalState : ∀ height hash, ∃ bytes, env.marshalState height hash = .ok bytes ∧
    ∀ db : DB, db blockStoreKey = some bytes →
      env.loadBlockStoreStateJSON db = some ⟨height, some hash⟩
  load_congr : ∀ db db' : DB, db blockStoreKey = db' blockStoreKey →
    env.loadBlockStoreStateJSON db = env.loadBlockStoreStateJSON db'
  headerKey_start : ∀ height hash, blockHeaderPrefix <+: env.calcBlockHeaderKey height hash
  headerKey_inj : ∀ {height height' hash hash'},
    env.calcBlockHeaderKey height hash = env.calcBlockHeaderKey height' hash' →
    height = height' ∧ hash = hash'
  headerKey_lt : ∀ height height' hash hash', height < height' →
    compare (env.calcBlockHeaderKey height hash) (env.calcBlockHeaderKey height' hash') = .lt
  statusKey_start : ∀ hash, txStatusPrefix <+: env.calcTxStatusKey hash
  statusKey_inj : Function.Injective env.calcTxStatusKey

/-! ### Keys -/

/-- The letters that tell the tables apart. -/
def tag (k : Str) : Str := k.take 2

theorem tag_of_start {p k : Str} (h : p <+: k) (hp : 2 ≤ p.length) : tag k = tag p := by
  obtain ⟨t, rfl⟩ := h
  exact List.take_append_of_le_length hp

theorem tag_calcBlockKey (h : Hash) : tag (calcBlockKey h) = [0x42, 0x3a] := rfl

theorem tag_calcUtxoKey (env : Env) (o : Hash) : tag (calcUtxoKey env o) = [0x55, 0x54] := rfl

section
variable {env : StoreEnv}

theorem tag_headerKey (doc : StoreDocumented env) (height : UInt64) (hash : Hash) :
    tag (env.calcBlockHeaderKey height hash) = [0x42, 0x48] :=
  tag_of_start (doc.headerKey_start height hash) (by decide)

theorem tag_statusKey (doc : StoreDocumented env) (hash : Hash) :
    tag (env.calcTxStatusKey hash) = [0x42, 0x54] :=
  tag_of_start (doc.statusKey_start hash) (by decide)

theorem ne_of_tag {k k' : Str} (h : tag k ≠ tag k') : k ≠ k' := fun heq => h (congrArg tag heq)

theorem calcBlockKey_inj {h h' : Hash} (heq : calcBlockKey h = calcBlockKey h') : h = h' :=
  Bc.bytes_inj (List.append_cancel_left heq)

/-- A batch that writes to no key with this tag. -/
theorem applyBatch_of_tag {batch : Batch} {k : Str} (h : ∀ w ∈ batch, tag w.key ≠ tag k)
    (db : DB) : applyBatch db batch k = db k :=
  applyBatch_of_not_mem (fun w hw => ne_of_tag (h w hw)) db

end

/-! ### The ledger -/

/-- A block that was saved, with the texts that were stored for it. -/
structure SavedBlock (env : StoreEnv) where
  block : Block
  ts : TransactionStatus
  text : Str
  header : Str
  status : Str
  marshal_block : block.marshalText env.writers = .ok text
  marshal_header : env.marshalHeader block.blockHeader = .ok header
  marshal_status : env.marshalStatus ts = .ok status

namespace SavedBlock

variable {env : StoreEnv} (s : SavedBlock env)

def hash : Hash := env.hash s.block.blockHeader

def headerKey : Str := env.calcBlockHeaderKey s.block.blockHeader.height s.hash

/-- The batch that saves it. -/
def batch : Batch :=
  [.set (calcBlockKey s.hash) s.text, .set s.headerKey s.header,
    .set (env.calcTxStatusKey s.hash) s.status]

end SavedBlock

/-- The value of a call that has no error. -/
def okOf {α : Type} : (x : Except Err α) → Option { a : α // x = .ok a }
  | .ok a => some ⟨a, rfl⟩
  | .error _ => none

theorem okOf_error {α : Type} {x : Except Err α} {e : Err} (h : x = .error e) : okOf x = none := by
  subst h
  rfl

theorem okOf_ok {α : Type} {x : Except Err α} {a : α} (h : x = .ok a) : okOf x = some ⟨a, h⟩ := by
  subst h
  rfl

/-- The block as it is saved, if it can be written. -/
def saved? (env : StoreEnv) (block : Block) (ts : TransactionStatus) : Option (SavedBlock env) := do
  let text ← okOf (block.marshalText env.writers)
  let header ← okOf (env.marshalHeader block.blockHeader)
  let status ← okOf (env.marshalStatus ts)
  some ⟨block, ts, text.1, header.1, status.1, text.2, header.2, status.2⟩

/-- The store as its users see it. The block that was saved last comes first. -/
structure Ledger (env : StoreEnv) where
  saved : List (SavedBlock env)
  utxo : Hash → Option UtxoEntry
  status : Option (UInt64 × Hash)

namespace Ledger

variable {env : StoreEnv}

def empty : Ledger env := ⟨[], fun _ => none, none⟩

/-- The block that was saved last with this hash. -/
def find (ledger : Ledger env) (h : Hash) : Option (SavedBlock env) :=
  ledger.saved.find? fun s => s.hash = h

def save (ledger : Ledger env) (s : SavedBlock env) : Ledger env :=
  { ledger with saved := s :: ledger.saved }

/-- What is left of an entry that is flushed: one that is spent is gone, unless it is a coinbase
output. -/
def flushed (entry : UtxoEntry) : Option UtxoEntry :=
  if entry.spent && !entry.isCoinBase then none else some entry

/-- The outputs of the view replace those of the ledger. -/
def setStatus (ledger : Ledger env) (height : UInt64) (hash : Hash) (view : UtxoViewpoint) :
    Ledger env where
  saved := ledger.saved
  utxo o := (view.entries.lookup o).elim (ledger.utxo o) flushed
  status := some (height, hash)

def step (ledger : Ledger env) : StoreOp → Ledger env
  | .saveBlock block ts => (saved? env block ts).elim ledger ledger.save
  | .saveChainStatus height hash view _ => ledger.setStatus height hash view

def run (ops : List StoreOp) : Ledger env := ops.foldl step empty

end Ledger

section
variable {env : StoreEnv}

/-- `SaveBlock` writes the batch of a block that can be written, and nothing for any other. -/
theorem blockBatch_cases (env : StoreEnv) (block : Block) (ts : TransactionStatus) :
    (∃ s, saved? env block ts = some s ∧ s.block = block ∧ s.ts = ts ∧
        blockBatch env block ts = .ok s.batch) ∨
      (saved? env block ts = none ∧ ∃ e, blockBatch env block ts = .error e) := by
  cases hb : block.marshalText env.writers with
  | error e =>
    exact .inr ⟨by rw [saved?, okOf_error hb]; rfl, _, by rw [blockBatch, hb]; rfl⟩
  | ok text =>
    cases hh : env.marshalHeader block.blockHeader with
    | error e =>
      exact .inr ⟨by rw [saved?, okOf_ok hb, okOf_error hh]; rfl, _,
        by rw [blockBatch, hb, hh]; rfl⟩
    | ok header =>
      cases hs : env.marshalStatus ts with
      | error e =>
        exact .inr ⟨by rw [saved?, okOf_ok hb, okOf_ok hh, okOf_error hs]; rfl, _,
          by rw [blockBatch, hb, hh, hs]; rfl⟩
      | ok status =>
        refine .inl ⟨⟨block, ts, text, header, status, hb, hh, hs⟩, ?_, rfl, rfl, ?_⟩
        · rw [saved?, okOf_ok hb, okOf_ok hh, okOf_ok hs]
          rfl
        · rw [blockBatch, hb, hh, hs]
          rfl

/-! ### What the database has for a ledger -/

structure Represents (db : DB) (ledger : Ledger env) : Prop where
  block : ∀ h, db (calcBlockKey h) = (ledger.find h).map SavedBlock.text
  status : ∀ h, db (env.calcTxStatusKey h) = (ledger.find h).map SavedBlock.status
  header : ∀ k, blockHeaderPrefix <+: k →
    db k = (ledger.saved.find? fun s => s.headerKey = k).map SavedBlock.header
  utxo : ∀ o, getUtxo env.toEnv db o = (ledger.utxo o).elim (.error notFound) .ok
  state : env.loadBlockStoreStateJSON db = ledger.status.map fun st => ⟨st.1, some st.2⟩

theorem Represents.empty (doc : StoreDocumented env) :
    Represents (SortedStore.empty : Disk).answer (Ledger.empty : Ledger env) where
  block _ := SortedStore.answer_empty _
  status _ := SortedStore.answer_empty _
  header _ _ := SortedStore.answer_empty _
  utxo o := by
    rw [getUtxo, SortedStore.answer_empty]
    rfl
  state := doc.load_none _ (SortedStore.answer_empty _)

/-- A table with a row for each block that was saved, after one more was. -/
theorem map_find?_cons {α : Type} (p : SavedBlock env → Prop) [DecidablePred p]
    (f : SavedBlock env → α) (s : SavedBlock env) (l : List (SavedBlock env)) :
    ((s :: l).find? fun s => p s).map f =
      if p s then some (f s) else (l.find? fun s => p s).map f := by
  by_cases hp : p s
  · rw [List.find?_cons_of_pos (by simpa using hp), if_pos hp]
    rfl
  · rw [List.find?_cons_of_neg (by simpa using hp), if_neg hp]

/-- The three rows of a block that is saved, and that nothing else changes. -/
theorem answer_batch (doc : StoreDocumented env) (db : DB) (s : SavedBlock env) :
    (∀ h, applyBatch db s.batch (calcBlockKey h) =
      if s.hash = h then some s.text else db (calcBlockKey h)) ∧
    (∀ h, applyBatch db s.batch (env.calcTxStatusKey h) =
      if s.hash = h then some s.status else db (env.calcTxStatusKey h)) ∧
    (∀ k, blockHeaderPrefix <+: k → applyBatch db s.batch k =
      if s.headerKey = k then some s.header else db k) ∧
    ∀ k, tag k ∉ [[0x42, 0x3a], [0x42, 0x48], [0x42, 0x54]] → applyBatch db s.batch k = db k := by
  have hb := tag_calcBlockKey s.hash
  have hh : tag s.headerKey = [0x42, 0x48] := tag_headerKey doc _ _
  have hs := tag_statusKey doc s.hash
  -- Keys with different tags differ.
  have hne : ∀ {k k' : Str} {t t' : Str}, tag k = t → tag k' = t' → t ≠ t' → k ≠ k' :=
    fun hk hk' ht => ne_of_tag (by rwa [hk, hk'])
  refine ⟨fun h => ?_, fun h => ?_, fun k hk => ?_, fun k hk => ?_⟩
  · have hk := tag_calcBlockKey h
    rw [if_congr (show s.hash = h ↔ calcBlockKey h = calcBlockKey s.hash from
      ⟨fun heq => heq ▸ rfl, fun heq => (calcBlockKey_inj heq).symm⟩) rfl rfl]
    refine applyBatch_of_others (l := []) (List.forall_mem_nil _) ?_ db
    exact List.forall_mem_cons.mpr
      ⟨hne hh hk (by decide), List.forall_mem_singleton.mpr (hne hs hk (by decide))⟩
  · have hk := tag_statusKey doc h
    rw [if_congr (show s.hash = h ↔ env.calcTxStatusKey h = env.calcTxStatusKey s.hash from
      ⟨fun heq => heq ▸ rfl, fun heq => (doc.statusKey_inj heq).symm⟩) rfl rfl]
    refine applyBatch_of_others (l := [_, _]) ?_ (List.forall_mem_nil _) db
    exact List.forall_mem_cons.mpr
      ⟨hne hb hk (by decide), List.forall_mem_singleton.mpr (hne hh hk (by decide))⟩
  · have hk := tag_of_start hk (by decide)
    rw [if_congr (eq_comm (a := s.headerKey)) rfl rfl]
    refine applyBatch_of_others (l := [_]) ?_ ?_ db
    · exact List.forall_mem_singleton.mpr (hne hb hk (by decide))
    · exact List.forall_mem_singleton.mpr (hne hs hk (by decide))
  · refine applyBatch_of_tag (fun w hw heq => hk (heq ▸ ?_)) db
    simp only [SavedBlock.batch, List.mem_cons, List.not_mem_nil, or_false] at hw
    rcases hw with rfl | rfl | rfl
    · simp [StoreWrite.key, hb]
    · simp [StoreWrite.key, hh]
    · simp [StoreWrite.key, hs]

/-- A block that is saved adds its hash alone. -/
theorem Represents.save (doc : StoreDocumented env) {db : DB} {ledger : Ledger env}
    (h : Represents db ledger) (s : SavedBlock env) :
    Represents (applyBatch db s.batch) (ledger.save s) := by
  obtain ⟨hblock, hstatus, hheader, hother⟩ := answer_batch doc db s
  refine ⟨fun k => ?_, fun k => ?_, fun k hk => ?_, fun o => ?_, ?_⟩
  · rw [hblock, h.block]
    exact (map_find?_cons (·.hash = k) _ s _).symm
  · rw [hstatus, h.status]
    exact (map_find?_cons (·.hash = k) _ s _).symm
  · rw [hheader k hk, h.header k hk]
    exact (map_find?_cons (·.headerKey = k) _ s _).symm
  · refine Eq.trans ?_ (h.utxo o)
    rw [getUtxo, getUtxo, hother _ (by rw [tag_calcUtxoKey]; decide)]
  · exact (doc.load_congr _ _ (hother _ (by decide))).trans h.state

/-- A view is flushed as a whole, and its status is stored with it. -/
theorem chainStatusBatch_spec (doc : StoreDocumented env) (height : UInt64) (hash : Hash)
    (view : UtxoViewpoint) (order : IterOrder (Sigma fun _ : Hash => UtxoEntry)) :
    ∃ writes bytes, chainStatusBatch env height hash view order =
        .ok (writes ++ [.set blockStoreKey bytes]) ∧
      List.Forall₂ (Flushes env.toEnv) (order.apply view.entries.entries) writes ∧
      ∀ db : DB, db blockStoreKey = some bytes →
        env.loadBlockStoreStateJSON db = some ⟨height, some hash⟩ := by
  obtain ⟨writes, hsave, hall⟩ := saveUtxoView_spec doc.utxos (order.apply view.entries.entries) []
  obtain ⟨bytes, hbytes, hload⟩ := doc.load_marshalState height hash
  refine ⟨writes, bytes, ?_, hall, hload⟩
  simp only [chainStatusBatch, hsave, hbytes, List.nil_append]
  rfl

/-- A flushed view and a new status, in one batch. -/
theorem Represents.setStatus (doc : StoreDocumented env) {db : DB} {ledger : Ledger env}
    (h : Represents db ledger) {height : UInt64} {hash : Hash} {view : UtxoViewpoint}
    {entries : List (Sigma fun _ : Hash => UtxoEntry)} (hperm : entries.Perm view.entries.entries)
    {writes : Batch} (hall : List.Forall₂ (Flushes env.toEnv) entries writes) {bytes : Str}
    (hload : ∀ db : DB, db blockStoreKey = some bytes →
      env.loadBlockStoreStateJSON db = some ⟨height, some hash⟩) :
    Represents (applyBatch db (writes ++ [.set blockStoreKey bytes]))
      (ledger.setStatus height hash view) := by
  -- The keys of the batch are those of outputs and the key of the status.
  have hkeys : ∀ w ∈ writes, tag w.key = [0x55, 0x54] := by
    intro w hw
    have hmem : w.key ∈ writes.map StoreWrite.key := List.mem_map_of_mem hw
    rw [keys_of_flushes hall] at hmem
    obtain ⟨o, -, ho⟩ := List.mem_map.mp hmem
    rw [← ho]
    exact tag_calcUtxoKey _ o
  have hother : ∀ k, tag k ∉ [[0x55, 0x54], [0x62, 0x6c]] →
      applyBatch db (writes ++ [.set blockStoreKey bytes]) k = db k := by
    intro k hk
    refine applyBatch_of_tag (fun w hw heq => hk (heq ▸ ?_)) db
    rcases List.mem_append.mp hw with hw | hw
    · rw [hkeys w hw]
      decide
    · rw [List.mem_singleton.mp hw]
      exact List.mem_of_elem_eq_true rfl
  refine ⟨fun k => ?_, fun k => ?_, fun k hk => ?_, fun o => ?_, hload _ ?_⟩
  · rw [hother _ (by rw [tag_calcBlockKey]; decide)]
    exact h.block k
  · rw [hother _ (by rw [tag_statusKey doc]; decide)]
    exact h.status k
  · rw [hother _ (by rw [tag_of_start hk (by decide)]; decide)]
    exact h.header k hk
  · rw [getUtxo_applyBatch doc.utxos hperm hall (fun w hw o => by
      rw [List.mem_singleton.mp hw]; exact blockStoreKey_ne o), overlay]
    show _ = ((view.entries.lookup o).elim (ledger.utxo o) Ledger.flushed).elim _ _
    cases view.entries.lookup o with
    | none => exact h.utxo o
    | some entry =>
      show (if entry.spent && !entry.isCoinBase then .error notFound
          else .ok entry : Except Err UtxoEntry) =
        (if entry.spent && !entry.isCoinBase then none else some entry).elim _ _
      split <;> rfl
  · exact applyBatch_of_others (l := writes) (fun w hw => ne_of_tag (by
      rw [hkeys w hw]; decide)) (List.forall_mem_nil _) db

/-- One call. -/
theorem Represents.step (doc : StoreDocumented env) {disk : Disk} {ledger : Ledger env}
    (h : Represents disk.answer ledger) (op : StoreOp) :
    Represents (disk.step env op).answer (ledger.step op) := by
  cases op with
  | saveBlock block ts =>
    rcases blockBatch_cases env block ts with ⟨s, hs, -, -, hbatch⟩ | ⟨hs, e, hbatch⟩
    · rw [Disk.step, Disk.saveBlock, hbatch, Ledger.step, hs]
      show Represents (disk.write s.batch).answer (ledger.save s)
      rw [SortedStore.answer_write]
      exact h.save doc s
    · rw [Disk.step, Disk.saveBlock, hbatch, Ledger.step, hs]
      exact h
  | saveChainStatus height hash view order =>
    obtain ⟨writes, bytes, hbatch, hall, hload⟩ :=
      chainStatusBatch_spec doc height hash view order
    rw [Disk.step, Disk.saveChainStatus, hbatch]
    show Represents (disk.write _).answer _
    rw [SortedStore.answer_write]
    exact h.setStatus doc (order.perm _) hall hload

theorem Represents.run (doc : StoreDocumented env) (ops : List StoreOp) :
    ∀ {disk : Disk} {ledger : Ledger env}, Represents disk.answer ledger →
      Represents (disk.run env ops).answer (ops.foldl Ledger.step ledger) := by
  induction ops with
  | nil => exact id
  | cons op ops ih => exact fun h => ih (h.step doc op)

/-! ### Every read -/

section
variable {api : EntryApi} {sha3 : List UInt8 → FixedBytes 32}
  {commitmentReadFrom : Fill BlockCommitment}

/-- `GetBlock` reads a block back from the text that was saved for it. -/
theorem getBlock_saved (doc : api.Documented)
    (hundone : Undone env.writers commitmentReadFrom sha3) (orders : Nat → MapTxOrders) {db : DB}
    {h : Hash} (s : SavedBlock env) (hdb : db (calcBlockKey h) = some s.text) :
    ((∀ tx ∈ s.block.transactions, Mappable tx.txData) →
      ∃ b, getBlock commitmentReadFrom api sha3 orders db h = .ok (some b) ∧
        b.blockHeader = s.block.blockHeader ∧
        b.transactions.map Tx.txData = s.block.transactions.map (resized env.writers) ∧
        ∀ i tx, b.transactions[i]? = some tx → newTx api sha3 (orders i) tx.txData = .ok tx) ∧
    ((¬ ∀ tx ∈ s.block.transactions, Mappable tx.txData) →
      ∃ p, getBlock commitmentReadFrom api sha3 orders db h = .error p) := by
  obtain ⟨henc, hcount⟩ := encodable_of_marshalText s.marshal_block
  have htext : s.text = Hex.encode (blockBytes env.writers s.block) :=
    Except.ok.inj (s.marshal_block.symm.trans (marshalText_eq henc hcount))
  rw [htext] at hdb
  refine ⟨fun hmap => ?_, fun hmap => ?_⟩
  · obtain ⟨b, hread, hb⟩ := unmarshalText_written doc hundone orders henc hcount hmap
    refine ⟨b, ?_, hb⟩
    rw [getBlock, hdb]
    simp only [hread]
    rfl
  · obtain ⟨p, hread⟩ := unmarshalText_written_panics doc hundone orders henc hcount hmap
    refine ⟨p, ?_⟩
    rw [getBlock, hdb]
    simp only [hread]
    rfl

/-- The error of `GetTransactionStatus` for a hash without value. -/
def statusNotFound : Err :=
  (RootErr.errorf "can't find the transaction status by given hash").err

/-- After every sequence of calls, of which some may have failed, the store answers with what it was
told. A block comes with the results of its transactions, or not at all. It is given back as it was
saved, with the sizes that its transactions have in the text and mapped anew, unless one of them
cannot be mapped: then `GetBlock` panics. -/
theorem store_answers (storeDoc : StoreDocumented env) (doc : api.Documented)
    (hundone : Undone env.writers commitmentReadFrom sha3) (orders : Nat → MapTxOrders)
    (ops : List StoreOp) :
    let disk := Disk.run env .empty ops
    let ledger : Ledger env := Ledger.run ops
    (∀ h, ledger.find h = none →
      getBlock commitmentReadFrom api sha3 orders disk.answer h = .ok none ∧
      getTransactionStatus env disk.answer h = .error statusNotFound) ∧
    (∀ h s, ledger.find h = some s →
      getTransactionStatus env disk.answer h = .ok s.ts ∧
      ((∀ tx ∈ s.block.transactions, Mappable tx.txData) →
        ∃ b, getBlock commitmentReadFrom api sha3 orders disk.answer h = .ok (some b) ∧
          b.blockHeader = s.block.blockHeader ∧
          b.transactions.map Tx.txData = s.block.transactions.map (resized env.writers) ∧
          ∀ i tx, b.transactions[i]? = some tx → newTx api sha3 (orders i) tx.txData = .ok tx) ∧
      ((¬ ∀ tx ∈ s.block.transactions, Mappable tx.txData) →
        ∃ p, getBlock commitmentReadFrom api sha3 orders disk.answer h = .error p)) ∧
    (∀ o, getUtxo env.toEnv disk.answer o = (ledger.utxo o).elim (.error notFound) .ok) ∧
    disk.getStoreStatus env = ledger.status.map fun st => ⟨st.1, some st.2⟩ := by
  intro disk ledger
  have h : Represents disk.answer ledger := (Represents.empty storeDoc).run storeDoc ops
  refine ⟨fun k hk => ⟨?_, ?_⟩, fun k s hk => ⟨?_, ?_⟩, h.utxo, h.state⟩
  · have hdb := h.block k
    rw [hk] at hdb
    rw [getBlock, hdb]
    rfl
  · have hdb := h.status k
    rw [hk] at hdb
    rw [getTransactionStatus, hdb]
    rfl
  · have hdb := h.status k
    rw [hk] at hdb
    rw [getTransactionStatus, hdb]
    show wrapped _ (env.unmarshalStatus s.status) = _
    rw [storeDoc.unmarshalStatus_marshalStatus _ _ s.marshal_status]
    rfl
  · have hdb := h.block k
    rw [hk] at hdb
    exact getBlock_saved doc hundone orders s hdb

end

end

/-! ### A concrete store -/

/-- Read a header back. -/
def plainUnmarshalHeader (text : Str) : Except Err BlockHeader :=
  match BlockHeader.readFrom readTwoHashes .zero text with
  | (bh, .ok _) => .ok bh
  | (_, .error e) => .error e

/-- The text that was written, if there was no error. -/
def textOf (out : Blockchain.Written) : Except Err Str :=
  match out.2 with
  | none => .ok out.1
  | some e => .error e

theorem eq_of_textOf {out : Blockchain.Written} {text : Str} (h : textOf out = .ok text) :
    out = (text, none) := by
  obtain ⟨t, _ | e⟩ := out
  · cases h
    rfl
  · cases h

/-- Headers are written as they are in front of a block, heights and hashes with their bytes. -/
def plainStoreEnv (writers : BlockWriters) (hash : BlockHeader → Hash) : StoreEnv where
  toEnv := { plainEnv with
    marshalState := fun height hash => .ok (putUint64BE height ++ hash.bytes) }
  hash := hash
  writers := writers
  marshalHeader bh := textOf (plainHeaderWriteTo bh serBlockHeader)
  calcBlockHeaderKey height hash := blockHeaderPrefix ++ (toBytesBE 8 height.toNat ++ hash.bytes)
  calcTxStatusKey hash := txStatusPrefix ++ hash.bytes
  marshalStatus ts := .ok (putUint64BE ts.version ++ ts.verifyStatus.map (·.statusFail.toUInt8))
  unmarshalStatus data := .ok ⟨uint64BE data, (data.drop 8).map fun b => ⟨decide (b = 1)⟩⟩
  loadBlockStoreStateJSON db := (db blockStoreKey).map fun data =>
    ⟨uint64BE data, some (newHash (storeFront 32 (data.drop 8)))⟩

theorem plainStoreEnv_documented (writers : BlockWriters) (hash : BlockHeader → Hash) :
    StoreDocumented (plainStoreEnv writers hash) where
  utxos := ⟨plainEnv_documented.unmarshal_marshal, plainEnv_documented.hashString_inj⟩
  unmarshalStatus_marshalStatus ts data h := by
    cases h
    have hflag : ∀ b : Bool, decide (b.toUInt8 = 1) = b := by decide
    have hlen : (putUint64BE ts.version).length = 8 := length_toBytesBE 8 _
    show Except.ok (TransactionStatus.mk _ _) = _
    rw [Bc.uint64BE_putUint64BE, List.drop_left' hlen, List.map_map]
    simp [Function.comp_def, hflag]
  load_none db h := by
    show (db blockStoreKey).map _ = none
    rw [h]
    rfl
  load_marshalState height hash := by
    refine ⟨_, rfl, fun db h => ?_⟩
    have hlen : (putUint64BE height).length = 8 := length_toBytesBE 8 _
    show (db blockStoreKey).map _ = _
    rw [h, Option.map_some, Bc.uint64BE_putUint64BE, List.drop_left' hlen, Hash.bytes,
      show storeFront 32 hash.byte32.1 = hash.byte32 from
        Subtype.ext (Bc.storeFront_of_length hash.byte32.2), Bc.newHash_byte32]
  load_congr db db' h := by
    show (db blockStoreKey).map _ = (db' blockStoreKey).map _
    rw [h]
  headerKey_start height hash := List.prefix_append _ _
  headerKey_inj := by
    intro height height' hash hash' h
    have htail := List.append_cancel_left h
    obtain ⟨hheight, hhash⟩ := List.append_inj htail (by simp)
    refine ⟨UInt64.toNat_inj.mp ?_, Bc.bytes_inj hhash⟩
    have hnum := congrArg ofBytesBE hheight
    rwa [ofBytesBE_toBytesBE_of_lt (UInt64.toNat_lt height),
      ofBytesBE_toBytesBE_of_lt (UInt64.toNat_lt height')] at hnum
  headerKey_lt height height' hash hash' h := by
    refine (compare_append_left _ _ _).trans (compare_toBytesBE _ _ ?_ (UInt64.toNat_lt height'))
    exact UInt64.lt_iff_toNat_lt.mp h
  statusKey_start hash := List.prefix_append _ _
  statusKey_inj _ _ h := Bc.bytes_inj (List.append_cancel_left h)

/-- A block is saved, and then a status with outputs of which one is spent. -/
def plainOps : List StoreOp :=
  [.saveBlock (plainBlock coinbaseAlone) ⟨1, [⟨true⟩]⟩,
    .saveChainStatus 7 (outputOf 3) spentView ⟨id, .refl⟩]

/-- The hash of a block is its height. -/
def plainStore : StoreEnv := plainStoreEnv plainWriters fun bh => ⟨bh.height, 0, 0, 0⟩

/-- The store has the block with its results, the outputs and the status. -/
theorem plainOps_answers :
    let disk := Disk.run plainStore .empty plainOps
    getTransactionStatus plainStore disk.answer Hash.zero = .ok ⟨1, [⟨true⟩]⟩ ∧
      getUtxo plainStore.toEnv disk.answer (outputOf 1) = .error notFound ∧
      getUtxo plainStore.toEnv disk.answer (outputOf 2) = .ok ⟨true, 8, true⟩ ∧
      disk.getStoreStatus plainStore = some ⟨7, some (outputOf 3)⟩ := by
  obtain ⟨s, hs, hblock, hts, -⟩ | ⟨hnone, -⟩ :=
    blockBatch_cases plainStore (plainBlock coinbaseAlone) ⟨1, [⟨true⟩]⟩
  · have hfind : (Ledger.run plainOps : Ledger plainStore).find Hash.zero = some s := by
      simp only [Ledger.run, plainOps, List.foldl_cons, Ledger.step, hs]
      refine List.find?_cons_of_pos ?_
      rw [SavedBlock.hash, hblock]
      decide
    obtain ⟨-, hsome, hutxo, hstatus⟩ := store_answers
      (plainStoreEnv_documented plainWriters plainStore.hash) tagApi_documented plainWriters_undone
      (fun _ => idOrders) plainOps
    refine ⟨?_, (hutxo _).trans ?_, (hutxo _).trans ?_, hstatus⟩
    · rw [← hts]
      exact (hsome Hash.zero s hfind).1
    · rfl
    · rfl
  · have hsaved : (saved? plainStore (plainBlock coinbaseAlone) ⟨1, [⟨true⟩]⟩).isSome = true := by
      decide
    rw [hnone] at hsaved
    cases hsaved

end BtmStats.Proofs.Database
