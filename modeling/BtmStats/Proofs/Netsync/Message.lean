import BtmStats.Proofs.Types.BlockData
import BtmStats.Spec.Database.SaveBlock
import BtmStats.Spec.Netsync.DecodeMessage

/-!
# `BtmStats.Proofs.Netsync.Message`: three readers of one block text

`GetMineBlock` hands the error of `UnmarshalText` on. `BlockResponseMessage.GetBlock` and
the `GetBlock` of the store drop it and return the block as far as it was filled. So the
three agree on a text that is accepted and on one that is refused before the version is
read, and on no other (`block_readers_agree`).
-/

set_option autoImplicit false

namespace BtmStats.Proofs.Netsync

open Lib Spec Spec.Types Spec.Netsync Proofs.Types
open Spec.Bc (Hash)
open Spec.Database (DB calcBlockKey)

section
variable {api : EntryApi} {sha3 : List UInt8 → FixedBytes 32}
  (commitmentReadFrom : Fill BlockCommitment) {orders : Nat → MapTxOrders} {raw : List UInt8}
  {err : Option Err}

theorem getMineBlock_eq_ok_iff {res : Except Err Block} :
    MineBlockMessage.getMineBlock commitmentReadFrom api sha3 orders ⟨raw⟩ = .ok res ↔
      ∃ b err, Block.unmarshalText commitmentReadFrom api sha3 orders .zero raw = .ok (b, err) ∧
        res = err.elim (.ok b) .error := by
  rw [MineBlockMessage.getMineBlock, bind_eq_ok_iff]
  constructor
  · rintro ⟨⟨b, _ | err⟩, hb, hres⟩
    · exact ⟨b, none, hb, (Except.ok.inj hres).symm⟩
    · exact ⟨b, some err, hb, (Except.ok.inj hres).symm⟩
  · rintro ⟨b, _ | err, hb, rfl⟩
    · exact ⟨(b, none), hb, rfl⟩
    · exact ⟨(b, some err), hb, rfl⟩

theorem getBlock_eq {b : Block}
    (h : Block.unmarshalText commitmentReadFrom api sha3 orders .zero raw = .ok (b, err)) :
    BlockResponseMessage.getBlock commitmentReadFrom api sha3 orders ⟨raw⟩ = .ok b := by
  rw [BlockResponseMessage.getBlock, h]
  rfl

theorem store_getBlock_eq {b : Block} {db : DB} {hash : Hash}
    (hdb : db (calcBlockKey hash) = some raw)
    (h : Block.unmarshalText commitmentReadFrom api sha3 orders .zero raw = .ok (b, err)) :
    Database.getBlock commitmentReadFrom api sha3 orders db hash = .ok (some b) := by
  simp only [Database.getBlock, hdb, h]
  rfl

/-- What one call of `UnmarshalText` returned, another returns up to the mapped parts. -/
theorem unmarshalText_again (doc : api.Documented) {b : Block}
    (h : Block.unmarshalText commitmentReadFrom api sha3 orders .zero raw = .ok (b, err))
    (orders' : Nat → MapTxOrders) :
    ∃ b', Block.unmarshalText commitmentReadFrom api sha3 orders' .zero raw = .ok (b', err) ∧
      SameData b b' ∧ (orders' = orders → b' = b) := by
  have hsame : SameOutcome (Block.unmarshalText commitmentReadFrom api sha3 orders .zero raw)
      (Block.unmarshalText commitmentReadFrom api sha3 orders' .zero raw) :=
    unmarshalText_same commitmentReadFrom doc orders orders' .zero raw
  rw [h] at hsame
  cases h' : Block.unmarshalText commitmentReadFrom api sha3 orders' .zero raw with
  | error p =>
    rw [h'] at hsame
    exact hsame.elim
  | ok res =>
    obtain ⟨b', err'⟩ := res
    rw [h'] at hsame
    obtain ⟨hdata, rfl⟩ := hsame
    refine ⟨b', rfl, hdata, fun horders => ?_⟩
    rw [horders, h] at h'
    cases h'
    rfl

/-- The three readers of a block text. When `GetMineBlock` returns a block, the other two
return it as well. When it returns an error, the other two return a fresh block if the
version was not read, and a block that holds the version otherwise. -/
theorem block_readers_agree (doc : api.Documented) (mine response stored : Nat → MapTxOrders)
    {raw : List UInt8} {db : DB} {hash : Hash} (hdb : db (calcBlockKey hash) = some raw) :
    (∀ block, MineBlockMessage.getMineBlock commitmentReadFrom api sha3 mine ⟨raw⟩ =
        .ok (.ok block) →
      (∃ b, BlockResponseMessage.getBlock commitmentReadFrom api sha3 response ⟨raw⟩ = .ok b ∧
        SameData block b ∧ (response = mine → b = block)) ∧
      ∃ b, Database.getBlock commitmentReadFrom api sha3 stored db hash = .ok (some b) ∧
        SameData block b ∧ (stored = mine → b = block)) ∧
    (∀ err, MineBlockMessage.getMineBlock commitmentReadFrom api sha3 mine ⟨raw⟩ =
        .ok (.error err) →
      (textVersion raw = none →
        BlockResponseMessage.getBlock commitmentReadFrom api sha3 response ⟨raw⟩ = .ok .zero ∧
        Database.getBlock commitmentReadFrom api sha3 stored db hash = .ok (some .zero)) ∧
      ∀ v, textVersion raw = some v →
        (∃ b, BlockResponseMessage.getBlock commitmentReadFrom api sha3 response ⟨raw⟩ = .ok b ∧
          b.blockHeader.version = v) ∧
        ∃ b, Database.getBlock commitmentReadFrom api sha3 stored db hash = .ok (some b) ∧
          b.blockHeader.version = v) := by
  constructor
  · intro block hmine
    obtain ⟨b, err, hb, hres⟩ := (getMineBlock_eq_ok_iff commitmentReadFrom).mp hmine
    obtain rfl : b = block := by
      cases err with
      | none => exact (Except.ok.inj hres).symm
      | some err => cases hres
    obtain ⟨b₁, hb₁, hsame₁, heq₁⟩ := unmarshalText_again commitmentReadFrom doc hb response
    obtain ⟨b₂, hb₂, hsame₂, heq₂⟩ := unmarshalText_again commitmentReadFrom doc hb stored
    exact ⟨⟨b₁, getBlock_eq commitmentReadFrom hb₁, hsame₁, heq₁⟩,
      b₂, store_getBlock_eq commitmentReadFrom hdb hb₂, hsame₂, heq₂⟩
  · intro err hmine
    obtain ⟨b, err', hb, -⟩ := (getMineBlock_eq_ok_iff commitmentReadFrom).mp hmine
    constructor
    · intro hv
      obtain ⟨e₁, he₁⟩ := unmarshalText_untouched api sha3 commitmentReadFrom response hv
      obtain ⟨e₂, he₂⟩ := unmarshalText_untouched api sha3 commitmentReadFrom stored hv
      exact ⟨getBlock_eq commitmentReadFrom he₁, store_getBlock_eq commitmentReadFrom hdb he₂⟩
    · intro v hv
      obtain ⟨b₁, hb₁, -⟩ := unmarshalText_again commitmentReadFrom doc hb response
      obtain ⟨b₂, hb₂, -⟩ := unmarshalText_again commitmentReadFrom doc hb stored
      exact ⟨⟨b₁, getBlock_eq commitmentReadFrom hb₁,
          unmarshalText_version commitmentReadFrom hv hb₁⟩,
        b₂, store_getBlock_eq commitmentReadFrom hdb hb₂,
        unmarshalText_version commitmentReadFrom hv hb₂⟩

end

/-- A text with an unsupported flag is refused by `GetMineBlock`, and the other two return
a fresh block. -/
theorem block_readers_agree_flag :
    let raw := "02".toUTF8.data.toList
    let orders := fun _ : Nat => idOrders
    let mined := MineBlockMessage.getMineBlock readTwoHashes tagApi zeroSha3 orders ⟨raw⟩
    mined = .ok (.error (RootErr.errorf "unsupported serialization flags 0x02").err) ∧
      BlockResponseMessage.getBlock readTwoHashes tagApi zeroSha3 orders ⟨raw⟩ = .ok .zero ∧
      Database.getBlock readTwoHashes tagApi zeroSha3 orders (fun _ => some raw) Hash.zero =
        .ok (some .zero) := by
  intro raw orders mined
  have hmined : mined =
      .ok (.error (RootErr.errorf "unsupported serialization flags 0x02").err) := by rfl
  have hdb : (fun _ => some raw : DB) (calcBlockKey Hash.zero) = some raw := rfl
  exact ⟨hmined, ((block_readers_agree readTwoHashes tagApi_documented orders orders orders
    hdb).2 _ hmined).1 (by rfl)⟩

/-- A block text with one more byte. `GetMineBlock` refuses it, and the other two return
the block with the header and the transaction. -/
theorem trailing_byte_dropped :
    let raw := blockText "01070100010103020108000102000000"
    let orders := fun _ : Nat => idOrders
    MineBlockMessage.getMineBlock readTwoHashes tagApi zeroSha3 orders ⟨raw⟩ =
        .ok (.error (RootErr.errorf "trailing garbage (1 bytes)").err) ∧
      ∃ b, BlockResponseMessage.getBlock readTwoHashes tagApi zeroSha3 orders ⟨raw⟩ = .ok b ∧
        Database.getBlock readTwoHashes tagApi zeroSha3 orders (fun _ => some raw) Hash.zero =
          .ok (some b) ∧
        b.blockHeader.version = 1 ∧ b.transactions.map Tx.txData = [coinbaseAlone] := by
  exact ⟨by rfl, _, by rfl, by rfl, by rfl, by rfl⟩

end BtmStats.Proofs.Netsync
