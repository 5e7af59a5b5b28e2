import BtmStats.Proofs.Encoding.Writers
import BtmStats.Proofs.Types.BlockData

/-!
# `BtmStats.Proofs.Types.BlockText`: the text of a block is read back

`MarshalText` writes the flags and the header, the number of transactions and the
transactions one after the other, in hexadecimal digits. Each part is read back whatever
follows it, so `UnmarshalText` gives the block back and refuses the text with anything
appended to it (`blockText_roundTrip`).

The one way in which this fails is `NewTx`: a transaction that can be written and read
but not mapped makes `UnmarshalText` panic. The theorem says so in both directions.
-/

set_option autoImplicit false

namespace BtmStats.Proofs.Types

open Lib Spec Spec.Blockchain Spec.Types Proofs.Blockchain Proofs.Hex
open Spec.Bc (Hash)

/-! ### Writing -/

variable (writers : BlockWriters)

def txBytes (tx : Tx) : List UInt8 := (writers.txWriteTo tx).1

/-- A block whose header and transactions can be written. -/
structure Encodable (b : Block) : Prop where
  header : (writers.headerWriteTo b.blockHeader serBlockFull).2 = none
  transactions : ∀ tx ∈ b.transactions, (writers.txWriteTo tx).2 = none

/-- The bytes of a block. -/
def blockBytes (b : Block) : List UInt8 :=
  (writers.headerWriteTo b.blockHeader serBlockFull).1 ++
    (putUvarint b.transactions.length ++ b.transactions.flatMap (txBytes writers))

/-- A buffer takes everything, so the sticky writer has no error. -/
theorem put_buffer (buf : List UInt8) (n : Nat) (out : Written) :
    (Writer.mk buf n none).put bufferWrite out =
      (⟨buf ++ out.1, n + out.1.length, none⟩, out.2) := rfl

variable {writers}

theorem writeTransactions_buffer {txs : List Tx} (h : ∀ tx ∈ txs, (writers.txWriteTo tx).2 = none) :
    ∀ (buf : List UInt8) (n : Nat),
      writeTransactions writers bufferWrite txs ⟨buf, n, none⟩ =
        (⟨buf ++ txs.flatMap (txBytes writers),
          n + (txs.flatMap (txBytes writers)).length, none⟩, none) := by
  induction txs with
  | nil =>
    intro buf n
    simp [writeTransactions]
  | cons tx txs ih =>
    intro buf n
    obtain ⟨htx, htxs⟩ := List.forall_mem_cons.mp h
    simp only [writeTransactions, put_buffer, htx, ih htxs]
    simp [txBytes, Nat.add_assoc]

theorem marshalText_eq {b : Block} (h : Encodable writers b)
    (hcount : b.transactions.length < 2 ^ 31) :
    b.marshalText writers = .ok (Hex.encode (blockBytes writers b)) := by
  have hvarint : writeVarint31 b.transactions.length =
      .ok (putUvarint b.transactions.length) := writeVarint31_of_le (Nat.le_pred_of_lt hcount)
  have hflags : ¬ serBlockFull = serBlockHeader := by decide
  have hwrite : b.WriteTo writers bufferWrite [] =
      (blockBytes writers b, (blockBytes writers b).length, none) := by
    simp only [Block.WriteTo, Block.writeTo, Writer.new, put_buffer, h.header, if_neg hflags,
      hvarint, Written.ok, writeTransactions_buffer h.transactions, blockBytes, List.nil_append,
      List.append_assoc, List.length_append, Nat.zero_add, Nat.add_assoc]
  rw [Block.marshalText, hwrite]

/-- The loop over the transactions ends without an error only if each of them was written. -/
theorem written_of_writeTransactions {txs : List Tx} :
    ∀ {buf : List UInt8} {n : Nat} {w : Writer (List UInt8)},
      writeTransactions writers bufferWrite txs ⟨buf, n, none⟩ = (w, none) →
      ∀ tx ∈ txs, (writers.txWriteTo tx).2 = none := by
  induction txs with
  | nil => exact fun _ _ hmem => absurd hmem List.not_mem_nil
  | cons tx txs ih =>
    intro buf n w h
    cases htx : (writers.txWriteTo tx).2 with
    | some err =>
      simp only [writeTransactions, put_buffer, htx] at h
      cases h
    | none =>
      simp only [writeTransactions, put_buffer, htx] at h
      exact List.forall_mem_cons.mpr ⟨htx, ih h⟩

/-- A block with a text can be written. -/
theorem encodable_of_marshalText {b : Block} {text : List UInt8}
    (h : b.marshalText writers = .ok text) :
    Encodable writers b ∧ b.transactions.length < 2 ^ 31 := by
  have hflags : ¬ serBlockFull = serBlockHeader := by decide
  rw [Block.marshalText] at h
  cases hheader : (writers.headerWriteTo b.blockHeader serBlockFull).2 with
  | some err =>
    simp only [Block.WriteTo, Block.writeTo, Writer.new, put_buffer, hheader] at h
    cases h
  | none =>
    simp only [Block.WriteTo, Block.writeTo, Writer.new, put_buffer, hheader, if_neg hflags] at h
    cases hcount : (writeVarint31 b.transactions.length).2 with
    | some err =>
      simp only [hcount] at h
      cases h
    | none =>
      simp only [hcount] at h
      have hlt : b.transactions.length < 2 ^ 31 :=
        Nat.lt_succ_of_le (writeVarint31_spec (Prod.ext rfl hcount)).2
      generalize hwrite : writeTransactions writers bufferWrite b.transactions _ = res at h
      obtain ⟨w, _ | err⟩ := res
      · exact ⟨⟨hheader, written_of_writeTransactions hwrite⟩, hlt⟩
      · cases h
/-! ### Reading back -/

variable (writers) in
/-- The data of a transaction with the size of its encoding. -/
def resized (tx : Tx) : TxData :=
  { tx.txData with serializedSize := UInt64.ofNat (txBytes writers tx).length }

/-- What is assumed of the missing functions: what they write without an error is undone
by the corresponding `readFrom`, whatever follows. -/
structure Undone (writers : BlockWriters) (commitmentReadFrom : Fill BlockCommitment)
    (sha3 : List UInt8 → FixedBytes 32) : Prop where
  header : ∀ bh flags out, (flags = serBlockHeader ∨ flags = serBlockFull) →
    writers.headerWriteTo bh flags = (out, none) →
    ∀ r, BlockHeader.readFrom commitmentReadFrom .zero (out ++ r) = (bh, .ok (flags, r))
  transaction : ∀ tx, (writers.txWriteTo tx).2 = none →
    ∀ r, (TxData.readFrom sha3).run (txBytes writers tx ++ r) = .ok (resized writers tx, r)

section
variable {api : EntryApi} {sha3 : List UInt8 → FixedBytes 32}
  {commitmentReadFrom : Fill BlockCommitment}

theorem newTx_data {orders : MapTxOrders} {data : TxData} {tx : Tx}
    (h : newTx api sha3 orders data = .ok tx) : tx.txData = data := by
  obtain ⟨t, -, ht⟩ := bind_eq_ok_iff.mp h
  cases ht
  rfl

theorem parsedTransactions_written (hundone : Undone writers commitmentReadFrom sha3)
    {txs : List Tx} (h : ∀ tx ∈ txs, (writers.txWriteTo tx).2 = none) (r : List UInt8) :
    parsedTransactions sha3 txs.length (txs.flatMap (txBytes writers) ++ r) =
      txs.map (resized writers) := by
  induction txs with
  | nil => rfl
  | cons tx txs ih =>
    obtain ⟨htx, htxs⟩ := List.forall_mem_cons.mp h
    rw [List.flatMap_cons, List.append_assoc, List.length_cons, parsedTransactions,
      hundone.transaction tx htx]
    show resized writers tx :: _ = _
    rw [ih htxs, List.map_cons]

/-- The loop over the transactions gives them back, each mapped anew. -/
theorem readTransactions_written (doc : api.Documented)
    (hundone : Undone writers commitmentReadFrom sha3) (orders : Nat → MapTxOrders)
    {txs : List Tx} (h : ∀ tx ∈ txs, (writers.txWriteTo tx).2 = none)
    (hmap : ∀ tx ∈ txs, Mappable tx.txData) (r : List UInt8) :
    ∀ b : Block, ∃ txs',
      Block.readTransactions api sha3 orders txs.length b (txs.flatMap (txBytes writers) ++ r) =
        .ok ({ b with transactions := b.transactions ++ txs' }, .ok r) ∧
      txs'.map Tx.txData = txs.map (resized writers) ∧
      ∀ i tx, txs'[i]? = some tx →
        newTx api sha3 (orders (b.transactions.length + i)) tx.txData = .ok tx := by
  induction txs with
  | nil =>
    intro b
    refine ⟨[], ?_, rfl, fun i tx hi => ?_⟩
    · rw [List.append_nil]
      rfl
    · rw [List.getElem?_nil] at hi
      cases hi
  | cons tx txs ih =>
    intro b
    obtain ⟨htx, htxs⟩ := List.forall_mem_cons.mp h
    obtain ⟨hmap₁, hmaps⟩ := List.forall_mem_cons.mp hmap
    have hread := hundone.transaction tx htx (txs.flatMap (txBytes writers) ++ r)
    obtain ⟨t, ht⟩ := (newTx_ok_iff doc hread (orders b.transactions.length)).mpr hmap₁
    obtain ⟨txs', hrest, hdata, hnew⟩ := ih htxs hmaps { b with
      transactions := b.transactions ++ [t] }
    refine ⟨t :: txs', ?_, ?_, fun i tx' hi => ?_⟩
    · rw [List.flatMap_cons, List.append_assoc, List.length_cons, Block.readTransactions, hread]
      show newTx api sha3 (orders b.transactions.length) (resized writers tx) >>= _ = _
      rw [ht]
      show Block.readTransactions api sha3 orders txs.length _ _ = _
      rw [hrest, List.append_assoc]
      rfl
    · rw [List.map_cons, List.map_cons, newTx_data ht, hdata]
    · cases i with
      | zero =>
        cases hi
        rw [newTx_data ht]
        exact ht
      | succ i =>
        have hrest := hnew i tx' hi
        rw [List.length_append, List.length_singleton, Nat.add_assoc, Nat.add_comm 1 i] at hrest
        exact hrest

/-- `readFrom` on the bytes of a block and anything after them. -/
theorem readFrom_written (hundone : Undone writers commitmentReadFrom sha3)
    (orders : Nat → MapTxOrders) {b : Block} (h : Encodable writers b)
    (hcount : b.transactions.length < 2 ^ 31) (r : List UInt8) :
    Block.readFrom commitmentReadFrom api sha3 orders .zero (blockBytes writers b ++ r) =
      Block.readTransactions api sha3 orders b.transactions.length ⟨b.blockHeader, []⟩
        (b.transactions.flatMap (txBytes writers) ++ r) := by
  have hheader := hundone.header b.blockHeader serBlockFull _ (.inr rfl) (Prod.ext rfl h.header)
    (putUvarint b.transactions.length ++ (b.transactions.flatMap (txBytes writers) ++ r))
  have hvarint : IsVarint31 (putUvarint b.transactions.length) b.transactions.length :=
    writeVarint31_spec (writeVarint31_of_le (Nat.le_pred_of_lt hcount))
  have hflags : ¬ serBlockFull = serBlockHeader := by decide
  rw [blockBytes, List.append_assoc, List.append_assoc, Block.readFrom,
    show Block.zero.blockHeader = BlockHeader.zero from rfl, hheader]
  simp only [if_neg hflags, readVarint31_reads.append hvarint]
  rfl

/-- What `UnmarshalText` returns when `readFrom` succeeds. -/
theorem unmarshalText_of_readFrom {orders : Nat → MapTxOrders} {text decoded r : List UInt8}
    {b : Block} (hdec : Hex.decode text = (decoded, none))
    (hread : Block.readFrom commitmentReadFrom api sha3 orders .zero decoded = .ok (b, .ok r)) :
    Block.unmarshalText commitmentReadFrom api sha3 orders .zero text =
      .ok (b, if r.length > 0 then
        some (RootErr.errorf s!"trailing garbage ({r.length} bytes)").err else none) := by
  simp only [Block.unmarshalText, hdec, hread, bind, Except.bind]
  split <;> rfl

/-- The text of a block with an unmappable transaction. -/
theorem unmarshalText_written_panics (doc : api.Documented)
    (hundone : Undone writers commitmentReadFrom sha3) (orders : Nat → MapTxOrders) {b : Block}
    (h : Encodable writers b) (hcount : b.transactions.length < 2 ^ 31)
    (hmap : ¬ ∀ tx ∈ b.transactions, Mappable tx.txData) :
    ∃ p, Block.unmarshalText commitmentReadFrom api sha3 orders .zero
      (Hex.encode (blockBytes writers b)) = .error p := by
  have hdec := decode_encode_append (blockBytes writers b) []
  rw [List.append_nil] at hdec
  cases hres : Block.unmarshalText commitmentReadFrom api sha3 orders .zero
      (Hex.encode (blockBytes writers b)) with
  | error p => exact ⟨p, rfl⟩
  | ok res =>
    obtain ⟨res', hread⟩ :=
      (unmarshalText_ok_iff commitmentReadFrom orders _).mp ⟨res, hres⟩ _ hdec
    rw [Hex.decode, readFrom_written hundone orders h hcount] at hread
    -- The transactions that are read are those of the block, so all of them can be mapped.
    have hall := (readTransactions_ok_iff doc orders _ _ _).mp ⟨res', hread⟩
    rw [parsedTransactions_written hundone h.transactions] at hall
    exact absurd (fun tx htx => hall _ (List.mem_map_of_mem htx)) hmap

/-- The text of a block whose transactions can be mapped is read back. The transactions are mapped
anew. -/
theorem unmarshalText_written (doc : api.Documented)
    (hundone : Undone writers commitmentReadFrom sha3) (orders : Nat → MapTxOrders) {b : Block}
    (h : Encodable writers b) (hcount : b.transactions.length < 2 ^ 31)
    (hmap : ∀ tx ∈ b.transactions, Mappable tx.txData) :
    ∃ b', Block.unmarshalText commitmentReadFrom api sha3 orders .zero
        (Hex.encode (blockBytes writers b)) = .ok (b', none) ∧
      b'.blockHeader = b.blockHeader ∧
      b'.transactions.map Tx.txData = b.transactions.map (resized writers) ∧
      ∀ i tx, b'.transactions[i]? = some tx → newTx api sha3 (orders i) tx.txData = .ok tx := by
  have hdec := decode_encode_append (blockBytes writers b) []
  rw [List.append_nil, Hex.decode] at hdec
  obtain ⟨txs, htxs, hdata, hnew⟩ := readTransactions_written doc hundone orders h.transactions
    hmap [] ⟨b.blockHeader, []⟩
  have hread := (readFrom_written hundone orders h hcount []).trans htxs
  refine ⟨_, unmarshalText_of_readFrom hdec hread, rfl, hdata, fun i tx hi => ?_⟩
  have hi' := hnew i tx hi
  rw [List.length_nil, Nat.zero_add] at hi'
  exact hi'

/-- The text of a block. `MarshalText` succeeds. If every transaction can be mapped,
`UnmarshalText` into a fresh block gives back the header and the transactions, with their
sizes and mapped anew, and refuses the text with anything appended. If a transaction
cannot be mapped, `UnmarshalText` panics. -/
theorem blockText_roundTrip (doc : api.Documented)
    (hundone : Undone writers commitmentReadFrom sha3) (orders : Nat → MapTxOrders) {b : Block}
    (h : Encodable writers b) (hcount : b.transactions.length < 2 ^ 31) :
    ∃ text, b.marshalText writers = .ok text ∧
      ((∀ tx ∈ b.transactions, Mappable tx.txData) →
        (∃ b', Block.unmarshalText commitmentReadFrom api sha3 orders .zero text = .ok (b', none) ∧
          b'.blockHeader = b.blockHeader ∧
          b'.transactions.map Tx.txData = b.transactions.map (resized writers) ∧
          ∀ i tx, b'.transactions[i]? = some tx →
            newTx api sha3 (orders i) tx.txData = .ok tx) ∧
        ∀ more ≠ [], ∃ b' err, Block.unmarshalText commitmentReadFrom api sha3 orders .zero
          (text ++ more) = .ok (b', some err)) ∧
      (¬ (∀ tx ∈ b.transactions, Mappable tx.txData) →
        ∃ p, Block.unmarshalText commitmentReadFrom api sha3 orders .zero text = .error p) := by
  refine ⟨_, marshalText_eq h hcount, fun hmap => ⟨?_, fun more hmore => ?_⟩, fun hmap => ?_⟩
  · exact unmarshalText_written doc hundone orders h hcount hmap
  · have hdec := decode_encode_append (blockBytes writers b) more
    rcases hmore' : Hex.decode more with ⟨extra, _ | err⟩
    · rw [hmore'] at hdec
      obtain ⟨txs, htxs, -⟩ := readTransactions_written doc hundone orders h.transactions hmap
        extra ⟨b.blockHeader, []⟩
      have hread := (readFrom_written hundone orders h hcount extra).trans htxs
      have hextra : extra.length > 0 := List.length_pos_of_ne_nil (decode_ne_nil hmore hmore')
      have hres := unmarshalText_of_readFrom hdec hread
      rw [if_pos hextra] at hres
      exact ⟨_, _, hres⟩
    · rw [hmore'] at hdec
      refine ⟨.zero, err, ?_⟩
      simp only [Block.unmarshalText, hdec]
  · exact unmarshalText_written_panics doc hundone orders h hcount hmap

end

/-! ### Writers -/

/-- A coinbase without outputs. -/
def coinbaseBarren : TxData := ⟨1, 11, 0, [coinbaseInput], []⟩

def plainHeaderWriteTo (bh : BlockHeader) (flags : UInt8) : Written :=
  (Written.ok [flags]).andThen <| (writeVarint63 bh.version.toNat).andThen <|
  (writeVarint63 bh.height.toNat).andThen <| (Written.ok bh.previousBlockHash.bytes).andThen <|
  (writeVarint63 bh.timestamp.toNat).andThen <|
  (writeVarstr31 (bh.blockCommitment.transactionsMerkleRoot.bytes ++
    bh.blockCommitment.transactionStatusHash.bytes)).andThen <|
  (writeVarint63 bh.nonce.toNat).andThen (writeVarint63 bh.bits.toNat)

/-- Writers that go with `readTwoHashes`: one for every header, and one for two
transactions. -/
def plainWriters : BlockWriters where
  headerWriteTo := plainHeaderWriteTo
  txWriteTo tx :=
    if tx.txData = coinbaseAlone then .ok [7, 1, 0, 1, 1, 3, 2, 1, 8, 0, 1, 2, 0, 0]
    else if tx.txData = coinbaseBarren then .ok [7, 1, 0, 1, 1, 3, 2, 1, 8, 0, 0]
    else ([], some RootErr.errRange.err)

theorem readTwoHashes_bytes (c : BlockCommitment) (root status : Hash) :
    readTwoHashes c (root.bytes ++ status.bytes) = (⟨root, status⟩, .ok []) := by
  have hroot : readHash.run (root.bytes ++ status.bytes) = .ok (root, status.bytes) :=
    readHash_reads.append rfl status.bytes
  have hstatus : readHash.run (status.bytes ++ []) = .ok (status, []) :=
    readHash_reads.append rfl []
  rw [List.append_nil] at hstatus
  rw [readTwoHashes, andThen_store_ok hroot, Fill.store, hstatus]

theorem readFrom_plainHeader {bh : BlockHeader} {flags : UInt8} {out : List UInt8}
    (hflags : flags = serBlockHeader ∨ flags = serBlockFull)
    (hout : plainHeaderWriteTo bh flags = (out, none)) (r : List UInt8) :
    BlockHeader.readFrom readTwoHashes .zero (out ++ r) = (bh, .ok (flags, r)) := by
  obtain ⟨_, _, rfl, hflag, h₁⟩ := andThen_eq_ok_iff.mp hout
  obtain ⟨version, _, rfl, hversion, h₂⟩ := andThen_eq_ok_iff.mp h₁
  obtain ⟨height, _, rfl, hheight, h₃⟩ := andThen_eq_ok_iff.mp h₂
  obtain ⟨_, _, rfl, hprev, h₄⟩ := andThen_eq_ok_iff.mp h₃
  obtain ⟨timestamp, _, rfl, htimestamp, h₅⟩ := andThen_eq_ok_iff.mp h₄
  obtain ⟨commitment, _, rfl, hcommitment, h₆⟩ := andThen_eq_ok_iff.mp h₅
  obtain ⟨nonce, bits, rfl, hnonce, hbits⟩ := andThen_eq_ok_iff.mp h₆
  cases hflag
  cases hprev
  have hfields : BlockHeader.readFields readTwoHashes .zero (version ++ (height ++
      (bh.previousBlockHash.bytes ++ (timestamp ++ (commitment ++ (nonce ++ (bits ++ r))))))) =
      (bh, .ok r) := by
    rw [BlockHeader.readFields,
      andThen_store_ok (readVarint63_reads.append (writeVarint63_spec hversion) _),
      andThen_store_ok (readVarint63_reads.append (writeVarint63_spec hheight) _),
      andThen_store_ok (readHash_reads.append rfl _),
      andThen_store_ok (readVarint63_reads.append (writeVarint63_spec htimestamp) _),
      Fill.andThen, BlockHeader.readCommitment,
      readVarstr31_reads.append (writeVarstr31_spec hcommitment)]
    simp only [readTwoHashes_bytes]
    rw [andThen_store_ok (readVarint63_reads.append (writeVarint63_spec hnonce) _), Fill.store,
      readVarint63_reads.append (writeVarint63_spec hbits)]
  have hdrop : ([flags] ++ (version ++ (height ++ (bh.previousBlockHash.bytes ++ (timestamp ++
      (commitment ++ (nonce ++ bits)))))) ++ r).drop 1 = version ++ (height ++
      (bh.previousBlockHash.bytes ++ (timestamp ++ (commitment ++ (nonce ++ (bits ++ r)))))) := by
    simp
  rw [BlockHeader.readFrom, hdrop, hfields]
  exact if_pos hflags

theorem plainWriters_undone : Undone plainWriters readTwoHashes zeroSha3 where
  header bh flags out hflags hout r := readFrom_plainHeader hflags hout r
  transaction tx htx r := by
    have hall : ∀ {p : List UInt8} {data : TxData},
        (TxData.readFrom zeroSha3).run p = .ok (data, []) →
          (TxData.readFrom zeroSha3).run (p ++ r) = .ok (data, r) := by
      intro p data hrun
      obtain ⟨p', hp, hdata⟩ := (TxData.readFrom_reads zeroSha3).split hrun
      rw [List.append_nil] at hp
      rw [hp]
      exact (TxData.readFrom_reads zeroSha3).append hdata r
    by_cases halone : tx.txData = coinbaseAlone
    · have hwrite : plainWriters.txWriteTo tx =
          .ok [7, 1, 0, 1, 1, 3, 2, 1, 8, 0, 1, 2, 0, 0] := if_pos halone
      rw [resized, txBytes, hwrite, halone]
      exact hall rfl
    · by_cases hbarren : tx.txData = coinbaseBarren
      · have hwrite : plainWriters.txWriteTo tx = .ok [7, 1, 0, 1, 1, 3, 2, 1, 8, 0, 0] :=
          (if_neg halone).trans (if_pos hbarren)
        rw [resized, txBytes, hwrite, hbarren]
        exact hall rfl
      · have hwrite : plainWriters.txWriteTo tx = ([], some RootErr.errRange.err) :=
          (if_neg halone).trans (if_neg hbarren)
        rw [hwrite] at htx
        cases htx

/-- A block with one transaction that was not mapped. -/
def plainBlock (data : TxData) : Block :=
  ⟨⟨1, 0, Hash.zero, 0, 0, 0, ⟨Hash.zero, Hash.zero⟩⟩,
    [⟨data, ⟨⟨0, 0, 0, []⟩, Hash.zero, .empty, [], [], []⟩⟩]⟩

theorem plainBlock_encodable {data : TxData}
    (hdata : data = coinbaseAlone ∨ data = coinbaseBarren) :
    Encodable plainWriters (plainBlock data) := by
  rcases hdata with rfl | rfl
  · exact ⟨by decide, by decide⟩
  · exact ⟨by decide, by decide⟩

/-- A block with a coinbase that has an output. -/
theorem blockText_roundTrip_coinbase :
    ∃ text, (plainBlock coinbaseAlone).marshalText plainWriters = .ok text ∧
      (∃ b', Block.unmarshalText readTwoHashes tagApi zeroSha3 (fun _ => idOrders) .zero text =
          .ok (b', none) ∧ b'.blockHeader = (plainBlock coinbaseAlone).blockHeader ∧
        b'.transactions.map Tx.txData = [coinbaseAlone]) ∧
      ∃ b' err, Block.unmarshalText readTwoHashes tagApi zeroSha3 (fun _ => idOrders) .zero
        (text ++ [0x30, 0x30]) = .ok (b', some err) := by
  obtain ⟨text, htext, hmapped, -⟩ := blockText_roundTrip tagApi_documented plainWriters_undone
    (fun _ => idOrders) (plainBlock_encodable (.inl rfl)) (by decide)
  obtain ⟨⟨b', hb', hheader, hdata, -⟩, hmore⟩ := hmapped (by
    intro tx htx input hmem _
    obtain rfl := List.mem_singleton.mp htx
    exact ⟨by decide, coinbaseInput, rfl, by decide⟩)
  exact ⟨text, htext, ⟨b', hb', hheader, hdata⟩, hmore [0x30, 0x30] (by decide)⟩

/-- A block with a coinbase that has no output. Its text is written, and reading it
panics. -/
theorem barren_text_panics :
    let b := plainBlock coinbaseBarren
    let text := blockText "010701000101030201080000"
    Undone plainWriters readTwoHashes zeroSha3 ∧ Encodable plainWriters b ∧
      b.transactions.length < 2 ^ 31 ∧ b.marshalText plainWriters = .ok text ∧
      Block.unmarshalText readTwoHashes tagApi zeroSha3 (fun _ => idOrders) .zero text =
        .error .indexOutOfRange := by
  intro b text
  exact ⟨plainWriters_undone, plainBlock_encodable (.inr rfl), by decide, by decide +kernel,
    by rfl⟩

end BtmStats.Proofs.Types
