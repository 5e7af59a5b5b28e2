import BtmStats.Spec.Types.Map

/-!
# `BtmStats.Spec.Types.Block`: blocks and how they are read and written

The model of the reading side of `block.go`, `block_header.go` and
`block_commitment.go` in `protocol/bc/types`. A block is filled in place, and some
callers use it although an error came back. So a read that fills a receiver returns
the receiver in both cases (`Fill`).

`BlockCommitment.readFrom` is called by `BlockHeader.readFrom` and is not in the
repository. It is a parameter.
-/

set_option autoImplicit false

namespace BtmStats.Spec.Types

open Lib Spec Spec.Blockchain
open Spec.Bc (Hash)

/-- The two Merkle roots of a block. -/
structure BlockCommitment where
  transactionsMerkleRoot : Hash
  transactionStatusHash : Hash
  deriving DecidableEq, Repr

/-- `BlockHeader` -/
structure BlockHeader where
  version : UInt64
  height : UInt64
  previousBlockHash : Hash
  timestamp : UInt64
  nonce : UInt64
  bits : UInt64
  blockCommitment : BlockCommitment
  deriving DecidableEq, Repr

/-- A read that fills a receiver: the receiver after it, and the rest of the reader
or an error. -/
abbrev Fill (σ : Type) := σ → List UInt8 → σ × Except Err (List UInt8)

/-- Go on without an error. -/
def Fill.andThen {σ : Type} (f g : Fill σ) : Fill σ := fun s r =>
  match f s r with
  | (s, .ok r) => g s r
  | (s, .error err) => (s, .error err)

/-- Read a value and store it. A failed read stores what `onError` makes of the
receiver. -/
def Fill.store {σ α : Type} (p : ReaderM α) (set : σ → α → σ) (onError : σ → σ) : Fill σ :=
  fun s r =>
    match p.run r with
    | .ok (a, r) => (set s a, .ok r)
    | .error err => (onError s, .error err)

/-- The flags of a header alone and of a whole block. -/
def serBlockHeader : UInt8 := 1

def serBlockFull : UInt8 := 3

/-- The zero value of a `BlockHeader`. -/
def BlockHeader.zero : BlockHeader := ⟨0, 0, Hash.zero, 0, 0, 0, ⟨Hash.zero, Hash.zero⟩⟩

/-- The verb `%x` on an array of one byte. -/
def formatByte (b : UInt8) : String :=
  (if b < 16 then "0" else "") ++ hexDigits b.toNat

section
variable (commitmentReadFrom : Fill BlockCommitment)

/-- `ReadExtensibleString(r, bh.BlockCommitment.readFrom)`. The suffix is dropped. -/
def BlockHeader.readCommitment : Fill BlockHeader := fun bh r =>
  match readVarstr31.run r with
  | .error err => (bh, .error err)
  | .ok (s, r) =>
    match commitmentReadFrom bh.blockCommitment s with
    | (c, .ok _) => ({ bh with blockCommitment := c }, .ok r)
    -- The commitment keeps what the closure stored before its error.
    | (c, .error err) => ({ bh with blockCommitment := c }, .error err)

/-- `BlockHeader.readFrom` after the serialization flags. -/
def BlockHeader.readFields : Fill BlockHeader :=
  .andThen (.store readVarint63 (fun bh v => { bh with version := v }) fun bh =>
    { bh with version := 0 }) <|
  .andThen (.store readVarint63 (fun bh v => { bh with height := v }) fun bh =>
    { bh with height := 0 }) <|
  -- `PreviousBlockHash.ReadFrom` sets the hash only when it succeeds, the assignments of
  -- the other fields store the 0 that comes with an error.
  .andThen (.store readHash (fun bh v => { bh with previousBlockHash := v }) id) <|
  .andThen (.store readVarint63 (fun bh v => { bh with timestamp := v }) fun bh =>
    { bh with timestamp := 0 }) <|
  .andThen (BlockHeader.readCommitment commitmentReadFrom) <|
  .andThen (.store readVarint63 (fun bh v => { bh with nonce := v }) fun bh =>
    { bh with nonce := 0 }) <|
  .store readVarint63 (fun bh v => { bh with bits := v }) fun bh => { bh with bits := 0 }

/-- `BlockHeader.readFrom`, with the serialization flags. The error of the first
read is ignored, so that an empty reader gives the flags 0. -/
def BlockHeader.readFrom (bh : BlockHeader) (r : List UInt8) :
    BlockHeader × Except Err (UInt8 × List UInt8) :=
  let serflag := r.headD 0
  if serflag = serBlockHeader ∨ serflag = serBlockFull then
    match BlockHeader.readFields commitmentReadFrom bh (r.drop 1) with
    | (bh, .ok r) => (bh, .ok (serflag, r))
    | (bh, .error err) => (bh, .error err)
  else
    (bh, .error (RootErr.errorf
      ("unsupported serialization flags 0x" ++ formatByte serflag)).err)

/-! ### Blocks -/

/-- A header and its transactions. -/
structure Block where
  blockHeader : BlockHeader
  transactions : List Tx

/-- A fresh `Block`. -/
def Block.zero : Block := ⟨.zero, []⟩

variable (api : EntryApi) (sha3 : List UInt8 → FixedBytes 32) (orders : Nat → MapTxOrders)

/-- The loop over the transactions of a block: `n` of them are left to read. Each
call of `MapTx` has its own orders of iteration. -/
def Block.readTransactions : Nat → Block → List UInt8 →
    Except Panic (Block × Except Err (List UInt8))
  | 0, b, r => .ok (b, .ok r)
  | n + 1, b, r =>
    match (TxData.readFrom sha3).run r with
    | .error err =>
      .ok (b, .error (err.wrap s!"reading transaction {b.transactions.length}"))
    | .ok (data, r) => do
        let tx ← newTx api sha3 (orders b.transactions.length) data
        Block.readTransactions n { b with transactions := b.transactions ++ [tx] } r

/-- `Block.readFrom`: the flag decides whether transactions follow. -/
def Block.readFrom (b : Block) (r : List UInt8) :
    Except Panic (Block × Except Err (List UInt8)) :=
  match BlockHeader.readFrom commitmentReadFrom b.blockHeader r with
  | (bh, .error err) => .ok ({ b with blockHeader := bh }, .error err)
  | (bh, .ok (serflags, r)) =>
    let b := { b with blockHeader := bh }
    -- A header alone ends here, and leaves the transactions of the receiver.
    if serflags = serBlockHeader then .ok (b, .ok r)
    else
      match readVarint31.run r with
      | .error err => .ok (b, .error (err.wrap "reading number of transactions"))
      | .ok (n, r) => Block.readTransactions api sha3 orders n b r

/-- `Block.UnmarshalText`: the receiver after it, and its error. -/
def Block.unmarshalText (b : Block) (text : List UInt8) : Except Panic (Block × Option Err) :=
  match Hex.decode text with
  | (_, some err) => .ok (b, some err)
  | (decoded, none) => do
      let (b, rest) ← Block.readFrom commitmentReadFrom api sha3 orders b decoded
      match rest with
      | .error err => pure (b, some err)
      | .ok r =>
        if r.length > 0 then
          pure (b, some (RootErr.errorf s!"trailing garbage ({r.length} bytes)").err)
        else pure (b, none)

end

/-! ### Writing

The model of the writing side of `block.go` in `protocol/bc/types`, and of the sticky
writer of `errors/writer.go` that it writes through.

`BlockHeader.writeTo` and `Tx.WriteTo` are not in the repository. They are parameters,
each with the bytes that it writes as long as its writer takes them, and the error that
it returns then.
-/

/-! ### The sticky writer -/

/-- `errors.Writer`: the state of the underlying writer, the number of bytes written and
the first error. -/
structure Writer (σ : Type) where
  w : σ
  n : Nat
  err : Option Err

namespace Writer
variable {σ : Type} (under : IoWriter σ)

/-- `errors.NewWriter` -/
def new (w : σ) : Writer σ := ⟨w, 0, none⟩

/-- `errors.Writer.Write`: after the first error nothing is written. -/
def write (ew : Writer σ) (buf : List UInt8) : Writer σ × Nat × Option Err :=
  match ew.err with
  | some err => (ew, 0, some err)
  | none =>
    let (w, n, err) := under ew.w buf
    (⟨w, ew.n + n, err⟩, n, err)

/-- A function that writes some bytes and then returns. An error of the writer comes
first. -/
def put (ew : Writer σ) (out : Written) : Writer σ × Option Err :=
  match ew.write under out.1 with
  | (ew, _, some err) => (ew, some err)
  | (ew, _, none) => (ew, out.2)

end Writer

/-! ### Blocks -/

/-- The functions that are not in the repository. -/
structure BlockWriters where
  /-- `BlockHeader.writeTo` -/
  headerWriteTo : BlockHeader → UInt8 → Written
  /-- `Tx.WriteTo` -/
  txWriteTo : Tx → Written

section
variable {σ : Type} (writers : BlockWriters) (under : IoWriter σ)

/-- The loop of `writeTo` over the transactions. -/
def writeTransactions : List Tx → Writer σ → Writer σ × Option Err
  | [], w => (w, none)
  | tx :: rest, w =>
    match w.put under (writers.txWriteTo tx) with
    | (w, some err) => (w, some err)
    | (w, none) => writeTransactions rest w

/-- `Block.writeTo` -/
def Block.writeTo (b : Block) (w : Writer σ) (serflags : UInt8) : Writer σ × Option Err :=
  match w.put under (writers.headerWriteTo b.blockHeader serflags) with
  | (w, some err) => (w, some err)
  | (w, none) =>
    if serflags = serBlockHeader then (w, none)
    else
      match w.put under (writeVarint31 b.transactions.length) with
      | (w, some err) => (w, some err)
      | (w, none) => writeTransactions writers under b.transactions w

/-- `Block.WriteTo`: the writer after it, the number of bytes and the error. -/
def Block.WriteTo (b : Block) (w : σ) : σ × Nat × Option Err :=
  match b.writeTo writers under (.new w) serBlockFull with
  | (ew, some err) => (ew.w, 0, some err)
  | (ew, none) => (ew.w, ew.n, ew.err)

end

/-- `Block.MarshalText`, with an empty buffer from the pool. -/
def Block.marshalText (writers : BlockWriters) (b : Block) : Except Err (List UInt8) :=
  match b.WriteTo writers bufferWrite [] with
  | (_, _, some err) => .error err
  | (buf, _, none) => .ok (Hex.encode buf)

end BtmStats.Spec.Types
