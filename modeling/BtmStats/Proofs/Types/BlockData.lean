import BtmStats.Lib.Runs
import BtmStats.Proofs.Types.Block

/-!
# `BtmStats.Proofs.Types.BlockData`: what `UnmarshalText` leaves in a fresh block

`NewTx` iterates over maps, so two calls of `UnmarshalText` on one text may give blocks
that differ in the mapped part of a transaction. `unmarshalText_same` says that this is
the only difference: the header, the data of the transactions, the error and a panic are
the same.

A text that is refused leaves the receiver as far as it was filled. The version is the
first field that is stored (`unmarshalText_version`), and nothing is stored before it
(`unmarshalText_untouched`). The height is always one that `ReadVarint63` gives
(`unmarshalText_height`).
-/

set_option autoImplicit false

namespace BtmStats.Proofs.Types

open Lib Spec Spec.Bc Spec.Blockchain Spec.Types Proofs.Blockchain

/-! ### Two calls on one text -/

/-- The same header and the same data in the transactions. -/
structure SameData (b b' : Block) : Prop where
  header_eq : b.blockHeader = b'.blockHeader
  data_eq : b.transactions.map Tx.txData = b'.transactions.map Tx.txData

theorem SameData.refl (b : Block) : SameData b b := ⟨rfl, rfl⟩

theorem SameData.length_eq {b b' : Block} (h : SameData b b') :
    b.transactions.length = b'.transactions.length := by
  rw [← List.length_map Tx.txData, h.data_eq, List.length_map]

/-- The same panic, or the same data and the same result. -/
def SameOutcome {ρ : Type} : Except Panic (Block × ρ) → Except Panic (Block × ρ) → Prop
  | .error p, .error p' => p = p'
  | .ok (b, res), .ok (b', res') => SameData b b' ∧ res = res'
  | _, _ => False

theorem SameOutcome.bind {ρ ρ' : Type} {x y : Except Panic (Block × ρ)}
    {f : Block × ρ → Except Panic (Block × ρ')} (h : SameOutcome x y)
    (hf : ∀ b b' res, SameData b b' → SameOutcome (f (b, res)) (f (b', res))) :
    SameOutcome (x >>= f) (y >>= f) := by
  cases x with
  | error p =>
    cases y with
    | error p' => exact h
    | ok res' => exact h.elim
  | ok res =>
    cases y with
    | error p' => exact h.elim
    | ok res' =>
      obtain ⟨hsame, hres⟩ := h
      obtain ⟨b, res⟩ := res
      obtain ⟨b', res'⟩ := res'
      cases hres
      exact hf b b' res hsame

section
variable {api : EntryApi} {sha3 : List UInt8 → FixedBytes 32} {r text decoded : List UInt8}
  {σ : Type} {orders : Nat → MapTxOrders} {b : Block} {err : Option Err}

/-- The order of iteration does not decide whether `NewTx` panics. -/
theorem newTx_same (doc : api.Documented) {b : List UInt8} {data : TxData}
    (hread : (TxData.readFrom sha3).run b = .ok (data, r)) (orders orders' : MapTxOrders) :
    (∃ p, newTx api sha3 orders data = .error p ∧ newTx api sha3 orders' data = .error p) ∨
    (∃ t t', newTx api sha3 orders data = .ok ⟨data, t⟩ ∧
      newTx api sha3 orders' data = .ok ⟨data, t'⟩) := by
  obtain ⟨s, -, htx⟩ := (TxData.readFrom_reads sha3).split hread
  cases hx : mapTx api sha3 data with
  | error p =>
    have herr : ∀ o, newTx api sha3 o data = .error p := by
      intro o
      simp [newTx, MapTx, hx, bind, Except.bind]
    exact .inl ⟨p, herr orders, herr orders'⟩
  | ok x =>
    have hok : ∀ o, ∃ t, newTx api sha3 o data = .ok ⟨data, t⟩ := by
      intro o
      obtain ⟨t, ht, -⟩ := MapTx_ok doc htx hx o
      exact ⟨t, by simp [newTx, ht, bind, Except.bind, pure, Except.pure]⟩
    obtain ⟨t, ht⟩ := hok orders
    obtain ⟨t', ht'⟩ := hok orders'
    exact .inr ⟨t, t', ht, ht'⟩

theorem readTransactions_same (doc : api.Documented) (orders orders' : Nat → MapTxOrders)
    (n : Nat) :
    ∀ (b b' : Block) (r : List UInt8), SameData b b' →
      SameOutcome (Block.readTransactions api sha3 orders n b r)
        (Block.readTransactions api sha3 orders' n b' r) := by
  induction n with
  | zero =>
    intro b b' r h
    exact ⟨h, rfl⟩
  | succ n ih =>
    intro b b' r h
    rw [Block.readTransactions, Block.readTransactions]
    cases hread : (TxData.readFrom sha3).run r with
    | error err =>
      rw [h.length_eq]
      exact ⟨h, rfl⟩
    | ok y =>
      obtain ⟨data, r'⟩ := y
      rcases newTx_same doc hread (orders b.transactions.length)
        (orders' b'.transactions.length) with ⟨p, hp, hp'⟩ | ⟨t, t', ht, ht'⟩
      · simp only [hp, hp', bind, Except.bind]
        rfl
      · simp only [ht, ht', bind, Except.bind]
        refine ih _ _ r' ⟨h.header_eq, ?_⟩
        rw [List.map_append, List.map_append, h.data_eq]
        rfl

variable (commitmentReadFrom : Fill BlockCommitment)

theorem readFrom_same (doc : api.Documented) (orders orders' : Nat → MapTxOrders) (b : Block)
    (r : List UInt8) :
    SameOutcome (Block.readFrom commitmentReadFrom api sha3 orders b r)
      (Block.readFrom commitmentReadFrom api sha3 orders' b r) := by
  rw [Block.readFrom, Block.readFrom]
  rcases BlockHeader.readFrom commitmentReadFrom b.blockHeader r with ⟨bh, err | ⟨serflags, r'⟩⟩
  · exact ⟨.refl _, rfl⟩
  · by_cases hflags : serflags = serBlockHeader
    · simp only [hflags, if_true]
      exact ⟨.refl _, rfl⟩
    · simp only [hflags, if_false]
      cases readVarint31.run r' with
      | error err => exact ⟨.refl _, rfl⟩
      | ok y => exact readTransactions_same doc orders orders' y.1 _ _ y.2 (.refl _)

/-- Two calls of `UnmarshalText` on one text differ at most in the mapped parts of the
transactions. -/
theorem unmarshalText_same (doc : api.Documented) (orders orders' : Nat → MapTxOrders) (b : Block)
    (text : List UInt8) :
    SameOutcome (Block.unmarshalText commitmentReadFrom api sha3 orders b text)
      (Block.unmarshalText commitmentReadFrom api sha3 orders' b text) := by
  rw [Block.unmarshalText, Block.unmarshalText]
  rcases Hex.decode text with ⟨decoded, _ | err⟩
  · refine (readFrom_same commitmentReadFrom doc orders orders' b decoded).bind
      fun c c' rest h => ?_
    cases rest with
    | error err => exact ⟨h, rfl⟩
    | ok r =>
      by_cases hr : r.length > 0
      · simp only [hr, if_true]
        exact ⟨h, rfl⟩
      · simp only [hr, if_false]
        exact ⟨h, rfl⟩
  · exact ⟨.refl b, rfl⟩

/-! ### What was stored -/

/-- A fill keeps a property of its receiver. -/
def FillKeeps {σ : Type} (P : σ → Prop) (f : Fill σ) : Prop := ∀ s r, P s → P (f s r).1

theorem FillKeeps.andThen {P : σ → Prop} {f g : Fill σ} (hf : FillKeeps P f) (hg : FillKeeps P g) :
    FillKeeps P (f.andThen g) := by
  intro s r hs
  have hfs := hf s r hs
  unfold Fill.andThen
  split
  · rename_i heq
    rw [heq] at hfs
    exact hg _ _ hfs
  · rename_i heq
    rw [heq] at hfs
    exact hfs

theorem fillKeeps_store {α : Type} {P : σ → Prop} {p : ReaderM α} {set : σ → α → σ}
    {onError : σ → σ} (hset : ∀ s a r r', p.run r = .ok (a, r') → P s → P (set s a))
    (herr : ∀ s, P s → P (onError s)) : FillKeeps P (.store p set onError) := by
  intro s r hs
  unfold Fill.store
  split
  · next a r' hread => exact hset s a r r' hread hs
  · exact herr s hs

/-- The commitment is stored in a field of its own. -/
theorem fillKeeps_commitment {P : BlockHeader → Prop}
    (hset : ∀ bh c, P bh → P { bh with blockCommitment := c }) :
    FillKeeps P (BlockHeader.readCommitment commitmentReadFrom) := by
  intro bh r hbh
  unfold BlockHeader.readCommitment
  split
  · exact hbh
  · split
    · exact hset bh _ hbh
    · exact hset bh _ hbh

theorem andThen_store_ok {α : Type} {p : ReaderM α} {r' : List UInt8} {a : α}
    (h : p.run r = .ok (a, r')) (set : σ → α → σ) (onError : σ → σ) (g : Fill σ) (s : σ) :
    (Fill.store p set onError).andThen g s r = g (set s a) r' := by
  rw [Fill.andThen, Fill.store, h]

theorem andThen_store_error {α : Type} {p : ReaderM α} {err : Err} (h : p.run r = .error err)
    (set : σ → α → σ) (onError : σ → σ) (g : Fill σ) (s : σ) :
    (Fill.store p set onError).andThen g s r = (onError s, .error err) := by
  rw [Fill.andThen, Fill.store, h]

/-- The version is the first field, and the other fields leave it alone. -/
theorem readFields_version {r' : List UInt8} {v : UInt64} (hv : readVarint63.run r = .ok (v, r'))
    (bh : BlockHeader) : (BlockHeader.readFields commitmentReadFrom bh r).1.version = v := by
  have hstore : ∀ {α : Type} {p : ReaderM α} {set : BlockHeader → α → BlockHeader}
      {onError : BlockHeader → BlockHeader}, (∀ bh a, (set bh a).version = bh.version) →
      (∀ bh, (onError bh).version = bh.version) →
      FillKeeps (fun bh => bh.version = v) (.store p set onError) := by
    intro α p set onError hset herr
    exact fillKeeps_store (fun bh a _ _ _ h => (hset bh a).trans h) fun bh h => (herr bh).trans h
  rw [BlockHeader.readFields, andThen_store_ok hv]
  apply FillKeeps.andThen (P := fun bh : BlockHeader => bh.version = v)
  · exact hstore (fun _ _ => rfl) fun _ => rfl
  · refine .andThen (hstore (fun _ _ => rfl) fun _ => rfl) (.andThen
      (hstore (fun _ _ => rfl) fun _ => rfl) (.andThen
      (fillKeeps_commitment commitmentReadFrom fun _ _ h => h) (.andThen
      (hstore (fun _ _ => rfl) fun _ => rfl) (hstore (fun _ _ => rfl) fun _ => rfl))))
  · rfl

theorem readFields_untouched {err : Err} (hr : readVarint63.run r = .error err) :
    BlockHeader.readFields commitmentReadFrom .zero r = (.zero, .error err) := by
  rw [BlockHeader.readFields, andThen_store_error hr]
  rfl

/-- The height is 0 or was read by `ReadVarint63`. -/
theorem readFields_height :
    FillKeeps (fun bh => bh.height.toNat ≤ maxInt64)
      (BlockHeader.readFields commitmentReadFrom) := by
  have hstore : ∀ {α : Type} {p : ReaderM α} {set : BlockHeader → α → BlockHeader}
      {onError : BlockHeader → BlockHeader}, (∀ bh a, (set bh a).height = bh.height) →
      (∀ bh, (onError bh).height = bh.height) →
      FillKeeps (fun bh => bh.height.toNat ≤ maxInt64) (.store p set onError) := by
    intro α p set onError hset herr
    refine fillKeeps_store (fun bh a _ _ _ h => ?_) fun bh h => ?_
    · rw [hset]
      exact h
    · rw [herr]
      exact h
  refine .andThen (hstore (fun _ _ => rfl) fun _ => rfl) (.andThen ?_ (.andThen
    (hstore (fun _ _ => rfl) fun _ => rfl) (.andThen (hstore (fun _ _ => rfl) fun _ => rfl)
    (.andThen (fillKeeps_commitment commitmentReadFrom fun _ _ h => h) (.andThen
    (hstore (fun _ _ => rfl) fun _ => rfl) (hstore (fun _ _ => rfl) fun _ => rfl))))))
  refine fillKeeps_store (fun bh v r r' hread _ => ?_) fun bh _ => Nat.zero_le _
  obtain ⟨_, -, -, hle⟩ := readVarint63_reads.split hread
  exact hle

theorem header_readFrom_height {bh : BlockHeader} (h : bh.height.toNat ≤ maxInt64)
    (decoded : List UInt8) :
    (BlockHeader.readFrom commitmentReadFrom bh decoded).1.height.toNat ≤ maxInt64 := by
  have hfields := readFields_height commitmentReadFrom bh (decoded.drop 1) h
  unfold BlockHeader.readFrom
  dsimp only
  split
  · split
    · next heq => rwa [heq] at hfields
    · next heq => rwa [heq] at hfields
  · exact h

/-- The version that is read from the bytes of a block, if reading comes so far. -/
def decodedVersion (decoded : List UInt8) : Option UInt64 :=
  if decoded.headD 0 = serBlockHeader ∨ decoded.headD 0 = serBlockFull then
    (readVarint63.run (decoded.drop 1)).toOption.map Prod.fst
  else none

theorem header_readFrom_version {v : UInt64} (hv : decodedVersion decoded = some v)
    (bh : BlockHeader) : (BlockHeader.readFrom commitmentReadFrom bh decoded).1.version = v := by
  unfold decodedVersion at hv
  split at hv
  · rename_i hflag
    cases hread : readVarint63.run (decoded.drop 1) with
    | error err =>
      rw [hread] at hv
      cases hv
    | ok y =>
      obtain ⟨v', r'⟩ := y
      rw [hread] at hv
      cases hv
      have hfields := readFields_version commitmentReadFrom hread bh
      simp only [BlockHeader.readFrom, if_pos hflag]
      split
      · rename_i heq
        rwa [heq] at hfields
      · rename_i heq
        rwa [heq] at hfields
  · cases hv

theorem header_readFrom_untouched (hv : decodedVersion decoded = none) :
    ∃ err, BlockHeader.readFrom commitmentReadFrom .zero decoded = (.zero, .error err) := by
  unfold decodedVersion at hv
  by_cases hflag : decoded.headD 0 = serBlockHeader ∨ decoded.headD 0 = serBlockFull
  · rw [if_pos hflag] at hv
    cases hread : readVarint63.run (decoded.drop 1) with
    | error err =>
      refine ⟨err, ?_⟩
      simp only [BlockHeader.readFrom, if_pos hflag, readFields_untouched _ hread]
    | ok y =>
      rw [hread] at hv
      cases hv
  · exact ⟨_, by rw [BlockHeader.readFrom, if_neg hflag]⟩

/-- The transactions come after the header and leave it alone. -/
theorem readTransactions_header (orders : Nat → MapTxOrders) (n : Nat) :
    ∀ (b : Block) (r : List UInt8) {res : Block × Except Err (List UInt8)},
      Block.readTransactions api sha3 orders n b r = .ok res →
        res.1.blockHeader = b.blockHeader := by
  induction n with
  | zero =>
    intro b r res h
    cases h
    rfl
  | succ n ih =>
    intro b r res h
    rw [Block.readTransactions] at h
    split at h
    · cases h
      rfl
    · obtain ⟨tx, -, hrest⟩ := bind_eq_ok_iff.mp h
      have hkept := ih _ _ hrest
      exact hkept

theorem readFrom_header {res : Block × Except Err (List UInt8)}
    (h : Block.readFrom commitmentReadFrom api sha3 orders b r = .ok res) :
    res.1.blockHeader = (BlockHeader.readFrom commitmentReadFrom b.blockHeader r).1 := by
  rw [Block.readFrom] at h
  rcases hbh : BlockHeader.readFrom commitmentReadFrom b.blockHeader r with
    ⟨bh, err | ⟨serflags, r'⟩⟩
  · rw [hbh] at h
    cases h
    rfl
  · rw [hbh] at h
    by_cases hflags : serflags = serBlockHeader
    · simp only [hflags, if_true] at h
      cases h
      rfl
    · simp only [hflags, if_false] at h
      cases hcount : readVarint31.run r' with
      | error err =>
        rw [hcount] at h
        cases h
        rfl
      | ok y =>
        rw [hcount] at h
        exact readTransactions_header orders y.1 _ y.2 h

/-- Once the text is decoded, the header is what was read of it. -/
theorem unmarshalText_header (hdec : Hex.decode text = (decoded, none))
    (h : Block.unmarshalText commitmentReadFrom api sha3 orders .zero text = .ok (b, err)) :
    b.blockHeader = (BlockHeader.readFrom commitmentReadFrom .zero decoded).1 := by
  rw [Block.unmarshalText, hdec] at h
  obtain ⟨⟨c, rest⟩, hread, hrest⟩ := bind_eq_ok_iff.mp h
  have hb : c = b := by
    cases rest with
    | error e =>
      cases hrest
      rfl
    | ok r =>
      simp only at hrest
      split at hrest
      · cases hrest
        rfl
      · cases hrest
        rfl
  rw [← hb, readFrom_header commitmentReadFrom hread]
  rfl

/-- Whatever comes in, the height of the block is below `2 ^ 63`. -/
theorem unmarshalText_height
    (h : Block.unmarshalText commitmentReadFrom api sha3 orders .zero text = .ok (b, err)) :
    b.blockHeader.height.toNat ≤ maxInt64 := by
  rcases hdec : Hex.decode text with ⟨decoded, _ | e⟩
  · rw [unmarshalText_header commitmentReadFrom hdec h]
    exact header_readFrom_height commitmentReadFrom (Nat.zero_le _) decoded
  · rw [Block.unmarshalText, hdec] at h
    cases h
    exact Nat.zero_le _

/-- The version that is read from a block text. -/
def textVersion (text : List UInt8) : Option UInt64 :=
  match Hex.decode text with
  | (_, some _) => none
  | (decoded, none) => decodedVersion decoded

/-- Once the version is read it is in the block, whatever happens later. -/
theorem unmarshalText_version {v : UInt64} (hv : textVersion text = some v)
    (h : Block.unmarshalText commitmentReadFrom api sha3 orders .zero text = .ok (b, err)) :
    b.blockHeader.version = v := by
  rw [textVersion] at hv
  rcases hdec : Hex.decode text with ⟨decoded, _ | e⟩
  · rw [hdec] at hv
    rw [unmarshalText_header commitmentReadFrom hdec h]
    exact header_readFrom_version commitmentReadFrom hv _
  · rw [hdec] at hv
    cases hv

variable (api sha3) in
/-- A text that is refused before the version is read leaves the block fresh. -/
theorem unmarshalText_untouched (orders : Nat → MapTxOrders) (hv : textVersion text = none) :
    ∃ err, Block.unmarshalText commitmentReadFrom api sha3 orders .zero text =
      .ok (.zero, some err) := by
  rw [textVersion] at hv
  rcases hdec : Hex.decode text with ⟨decoded, _ | e⟩
  · rw [hdec] at hv
    obtain ⟨err, herr⟩ := header_readFrom_untouched commitmentReadFrom hv
    refine ⟨err, ?_⟩
    have hread : Block.readFrom commitmentReadFrom api sha3 orders .zero decoded =
        .ok (.zero, .error err) := by
      rw [Block.readFrom, show Block.zero.blockHeader = BlockHeader.zero from rfl, herr]
      rfl
    simp only [Block.unmarshalText, hdec, hread]
    rfl
  · refine ⟨e, ?_⟩
    simp only [Block.unmarshalText, hdec]

end

end BtmStats.Proofs.Types
