import BtmStats.Lib.Runs
import BtmStats.Proofs.Types.InputIDs
import BtmStats.Spec.Config.Genesis

/-!
# `BtmStats.Proofs.Config.Genesis`: there is one genesis header

The genesis transaction is mapped anew at each start, and `MapTx` iterates over maps. Its ID does
not depend on the order, so the header of the genesis block is the same at each start.
-/

set_option autoImplicit false

namespace BtmStats.Proofs.Config

open Lib Spec Spec.Bc Spec.Config Spec.Types Proofs.Types

theorem genesisTxData_mappable : Mappable genesisTxData := by
  exact fun _ _ _ => ⟨List.cons_ne_nil _ _, _, rfl, nofun⟩

/-- The header of the genesis block, given the ID of its transaction. -/
def genesisHeader (sha3 : List UInt8 → FixedBytes 32) (txID : Hash) : BlockHeader where
  version := 1
  height := 0
  previousBlockHash := Hash.zero
  timestamp := 1524549600
  nonce := 9253507043297
  bits := 2161727821137910632
  blockCommitment :=
    ⟨merkleRoot sha3 [⟨txID.bytes⟩], txStatusMerkleRoot sha3 [⟨false⟩]⟩

/-- The genesis block has a fixed header, whatever the orders are. -/
theorem genesisBlock_header {api : EntryApi} (doc : api.Documented)
    (sha3 : List UInt8 → FixedBytes 32) :
    ∃ txID, ∀ orders, ∃ tx, genesisBlock api sha3 orders = .ok ⟨genesisHeader sha3 txID, [tx]⟩ ∧
      tx.txData = genesisTxData := by
  obtain ⟨x, hx⟩ := (mapTx_ok_iff sha3 doc genesisTxData).mpr genesisTxData_mappable
  refine ⟨x.1, fun orders => ?_⟩
  have hasset : ∀ inp, SpendInputOf genesisTxData inp →
      ∃ assetId, inp.spendCommitment.assetAmount.assetId = some assetId := by
    rintro inp ⟨input, hmem, hinp⟩
    obtain rfl := List.mem_singleton.mp hmem
    cases hinp
  obtain ⟨btx, hbtx, -⟩ := MapTx_ok_of_assets doc hasset hx orders
  have hid : btx.id = x.1 := by
    rw [MapTx, hx] at hbtx
    obtain ⟨_, ⟨⟩, hloop⟩ := bind_eq_ok_iff.mp hbtx
    obtain ⟨s, -, hs⟩ := bind_eq_ok_iff.mp hloop
    cases hs
    rfl
  refine ⟨⟨genesisTxData, btx⟩, ?_, rfl⟩
  simp only [genesisBlock, genesisTx, newTx, hbtx]
  rw [genesisHeader, ← hid]
  rfl

end BtmStats.Proofs.Config
