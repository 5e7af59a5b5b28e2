import BtmStats.Proofs.Types.InputIDs
import BtmStats.Spec.Types.Block

/-!
# `BtmStats.Proofs.Types.Block`: which texts `UnmarshalText` survives

A block text that comes from the network is decoded, and each transaction in it is
mapped to entries as soon as it is read. The parser accepts transactions that
`mapTx` panics on: a coinbase without outputs, and a coinbase behind a first input
of an unknown asset version. `unmarshalText_returns_iff` says that there are no
other texts on which `UnmarshalText` panics.
-/

set_option autoImplicit false

namespace BtmStats.Proofs.Types

open Lib Spec Spec.Bc Spec.Blockchain Spec.Types

section
variable {api : EntryApi} {sha3 : List UInt8 → FixedBytes 32}

/-- `NewTx` on a transaction that was read returns exactly when `mapTx` does. -/
theorem newTx_ok_iff (doc : api.Documented) {b r : List UInt8} {tx : TxData}
    (hread : (TxData.readFrom sha3).run b = .ok (tx, r)) (orders : MapTxOrders) :
    (∃ t, newTx api sha3 orders tx = .ok t) ↔ Mappable tx := by
  obtain ⟨p, -, htx⟩ := (TxData.readFrom_reads sha3).split hread
  rw [← mapTx_ok_iff sha3 doc tx]
  constructor
  · rintro ⟨t, ht⟩
    cases hx : mapTx api sha3 tx with
    | ok x => exact ⟨x, rfl⟩
    | error err => simp [newTx, MapTx, hx, bind, Except.bind] at ht
  · rintro ⟨x, hx⟩
    obtain ⟨btx, hbtx, -⟩ := MapTx_ok doc htx hx orders
    exact ⟨⟨tx, btx⟩, by simp [newTx, hbtx, bind, Except.bind, pure, Except.pure]⟩

variable (sha3) in
/-- The transactions that are read from `r` when `n` are expected, up to the first
one that cannot be read. -/
def parsedTransactions : Nat → List UInt8 → List TxData
  | 0, _ => []
  | n + 1, r =>
    match (TxData.readFrom sha3).run r with
    | .error _ => []
    | .ok (tx, r) => tx :: parsedTransactions n r

/-- The loop over the transactions panics exactly when one of them cannot be mapped.
Induction on the number of transactions left. -/
theorem readTransactions_ok_iff (doc : api.Documented) (orders : Nat → MapTxOrders) :
    ∀ (n : Nat) (b : Block) (r : List UInt8),
      (∃ res, Block.readTransactions api sha3 orders n b r = .ok res) ↔
        ∀ tx ∈ parsedTransactions sha3 n r, Mappable tx := by
  intro n
  induction n with
  | zero =>
    intro b r
    simp [Block.readTransactions, parsedTransactions]
  | succ n ih =>
    intro b r
    rw [Block.readTransactions, parsedTransactions]
    cases hread : (TxData.readFrom sha3).run r with
    | error err => simp
    | ok y =>
      obtain ⟨tx, r'⟩ := y
      -- The transaction is mapped before the next one is read.
      have hnew := newTx_ok_iff doc hread (orders b.transactions.length)
      simp only [List.forall_mem_cons]
      rw [← hnew]
      cases ht : newTx api sha3 (orders b.transactions.length) tx with
      | error err => simp [bind, Except.bind]
      | ok t =>
        simp only [bind, Except.bind, Except.ok.injEq, exists_eq', true_and]
        exact ih _ r'

variable (commitmentReadFrom : Fill BlockCommitment)

variable (sha3) in
/-- The transactions that are read from a block text. -/
def parsedOfText (text : List UInt8) : List TxData :=
  match Hex.decode text with
  | (_, some _) => []
  | (decoded, none) =>
    match BlockHeader.readFrom commitmentReadFrom .zero decoded with
    | (_, .error _) => []
    | (_, .ok (serflags, r)) =>
      if serflags = serBlockHeader then []
      else
        match readVarint31.run r with
        | .error _ => []
        | .ok (n, r) => parsedTransactions sha3 n r

/-- `UnmarshalText` on a fresh block panics exactly when `readFrom` does. -/
theorem unmarshalText_ok_iff (orders : Nat → MapTxOrders) (text : List UInt8) :
    (∃ res, Block.unmarshalText commitmentReadFrom api sha3 orders .zero text = .ok res) ↔
      ∀ decoded, Hex.decode text = (decoded, none) →
        ∃ res, Block.readFrom commitmentReadFrom api sha3 orders .zero decoded = .ok res := by
  rw [Block.unmarshalText]
  rcases hdec : Hex.decode text with ⟨decoded, _ | err⟩
  · simp only [Prod.mk.injEq, and_true, forall_eq']
    cases hres : Block.readFrom commitmentReadFrom api sha3 orders .zero decoded with
    | error err => simp [bind, Except.bind]
    | ok res =>
      obtain ⟨b, _ | r⟩ := res
      · simp [bind, Except.bind, pure, Except.pure]
      · by_cases hr : r.length > 0
        · simp [bind, Except.bind, pure, Except.pure, hr]
        · simp [bind, Except.bind, pure, Except.pure, hr]
  · simp

/-- For which transactions that were read `NewTx` returns, and for which texts
`UnmarshalText` on a fresh block returns: a coinbase must come with an output and
with a first input that is typed. -/
theorem unmarshalText_returns_iff (doc : api.Documented) :
    (∀ (orders : MapTxOrders) (b r : List UInt8) (tx : TxData),
      (TxData.readFrom sha3).run b = .ok (tx, r) →
        ((∃ t, newTx api sha3 orders tx = .ok t) ↔ Mappable tx)) ∧
    ∀ (orders : Nat → MapTxOrders) (text : List UInt8),
      (∃ res, Block.unmarshalText commitmentReadFrom api sha3 orders .zero text = .ok res) ↔
        ∀ tx ∈ parsedOfText sha3 commitmentReadFrom text, Mappable tx := by
  refine ⟨fun orders b r tx hread => newTx_ok_iff doc hread orders, fun orders text => ?_⟩
  rw [unmarshalText_ok_iff, parsedOfText]
  rcases Hex.decode text with ⟨decoded, _ | err⟩
  · simp only [Prod.mk.injEq, and_true, forall_eq']
    rw [Block.readFrom, show Block.zero.blockHeader = BlockHeader.zero from rfl]
    rcases BlockHeader.readFrom commitmentReadFrom .zero decoded with ⟨bh, err | ⟨serflags, r⟩⟩
    · simp
    · -- A text with a header alone has no transactions to map.
      by_cases hflags : serflags = serBlockHeader
      · simp [hflags]
      · simp only [hflags, if_false]
        cases readVarint31.run r with
        | error err => simp
        | ok y => exact readTransactions_ok_iff doc orders y.1 _ y.2
  · simp

end

/-! ### Texts that panic -/

/-- A `BlockCommitment.readFrom` that reads the two hashes. -/
def readTwoHashes : Fill BlockCommitment :=
  .andThen (.store readHash (fun c h => { c with transactionsMerkleRoot := h }) id)
    (.store readHash (fun c h => { c with transactionStatusHash := h }) id)

/-- The text of a full block with an all-zero header and the given transactions: a
count in hexadecimal and their bytes. -/
def blockText (transactions : String) : List UInt8 :=
  "030100".toUTF8.data.toList ++ List.replicate 64 0x30 ++ "0040".toUTF8.data.toList ++
    List.replicate 128 0x30 ++ "0000".toUTF8.data.toList ++ transactions.toUTF8.data.toList

/-- A block with one transaction, which has a coinbase input and no output. And a
block with one transaction, which has an input of asset version 2, a coinbase input
and one output. -/
theorem unmarshalText_panics :
    Block.unmarshalText readTwoHashes tagApi zeroSha3 (fun _ => idOrders) .zero
        (blockText "010701000101030201080000") = .error .indexOutOfRange ∧
      Block.unmarshalText readTwoHashes tagApi zeroSha3 (fun _ => idOrders) .zero
        (blockText "010701000202000001030201080001020000") = .error .nilDereference := by
  exact ⟨by rfl, by rfl⟩

/-- A block with one transaction, a coinbase with one output. -/
theorem unmarshalText_returns_coinbase :
    tagApi.Documented ∧ ∃ res, Block.unmarshalText readTwoHashes tagApi zeroSha3
      (fun _ => idOrders) .zero (blockText "010701000101030201080001020000") = .ok res := by
  have hparsed : parsedOfText zeroSha3 readTwoHashes
      (blockText "010701000101030201080001020000") = [coinbaseAlone] := by rfl
  refine ⟨tagApi_documented,
    ((unmarshalText_returns_iff readTwoHashes tagApi_documented).2 _ _).mpr ?_⟩
  rw [hparsed]
  -- The only input is the coinbase, and it is the first one.
  rintro tx htx input hmem -
  obtain rfl := List.mem_singleton.mp htx
  exact ⟨by decide, coinbaseInput, rfl, by decide⟩

end BtmStats.Proofs.Types
