import BtmStats.Proofs.Bc.Hash
import BtmStats.Spec.Database.UtxoView

/-!
# `BtmStats.Proofs.Database.UtxoView`: a flushed view lies over the database

The database with a view in front of it answers an output from the view if the view has
it, and else from the database (`overlay`). Flushing the view makes the database alone
answer like this (`getUtxo_applyBatch`), whatever the order of iteration: the keys of the
entries differ, so the batch writes each key once.

`getTransactionsUtxo` goes the other way. It stops at the first value that does not
decode, so what it adds is exact only if all values that it reads decode
(`getTransactionsUtxo_spec`).
-/

set_option autoImplicit false

namespace BtmStats.Proofs.Database

open Lib Spec Spec.Bc Spec.Database

/-- `proto.Unmarshal` undoes `proto.Marshal`, and `Hash.String` tells hashes apart. -/
structure Documented (env : Env) : Prop where
  unmarshal_marshal : ∀ entry, ∃ data, env.marshal entry = .ok data ∧
    env.unmarshal data = .ok entry
  hashString_inj : Function.Injective env.hashString

/-- The error of `getUtxo` for a key without value. -/
def notFound : Err := (RootErr.errorf "can't find utxo in db").err

/-- What `getUtxo` is to answer with a view in front of the database. -/
def overlay (env : Env) (db : DB) (view : UtxoViewpoint) (o : Hash) : Except Err UtxoEntry :=
  match view.entries.lookup o with
  | none => getUtxo env db o
  | some entry => if entry.spent && !entry.isCoinBase then .error notFound else .ok entry

/-- The outputs that the transactions spend. -/
def spentIDs (txs : List Tx) : List Hash := txs.flatMap Tx.spentOutputIDs

section
variable {env : Env} {db : DB}

/-! ### Flushing -/

variable {o : Hash} {entries : List (Sigma fun _ : Hash => UtxoEntry)} {writes : Batch}

theorem calcUtxoKey_inj (henv : Documented env) {o' : Hash}
    (h : calcUtxoKey env o = calcUtxoKey env o') : o = o' :=
  henv.hashString_inj (List.append_cancel_left h)

/-- A write to the key of an output, after which `getUtxo` answers as it should. -/
def Flushes (env : Env) (entry : Sigma fun _ : Hash => UtxoEntry) (w : StoreWrite Str Str) :
    Prop :=
  w.key = calcUtxoKey env entry.1 ∧
    if entry.2.spent && !entry.2.isCoinBase then w.answer = none
    else ∃ data, w.answer = some data ∧ env.unmarshal data = .ok entry.2

/-- The batch has one write for each entry. -/
theorem saveUtxoView_spec (henv : Documented env)
    (entries : List (Sigma fun _ : Hash => UtxoEntry)) (batch : Batch) :
    ∃ writes, saveUtxoView env entries batch = (batch ++ writes, none) ∧
      List.Forall₂ (Flushes env) entries writes := by
  induction entries generalizing batch with
  | nil => exact ⟨[], by rw [List.append_nil]; rfl, .nil⟩
  | cons entry entries ih =>
    obtain ⟨key, entry⟩ := entry
    unfold saveUtxoView
    by_cases hdel : (entry.spent && !entry.isCoinBase) = true
    · obtain ⟨writes, hsave, hall⟩ := ih (batch ++ [.delete (calcUtxoKey env key)])
      refine ⟨.delete (calcUtxoKey env key) :: writes, ?_, .cons ⟨rfl, ?_⟩ hall⟩
      · rw [if_pos hdel, hsave, List.append_assoc]
        rfl
      · rw [if_pos hdel]
        rfl
    · obtain ⟨data, hmarshal, hback⟩ := henv.unmarshal_marshal entry
      obtain ⟨writes, hsave, hall⟩ := ih (batch ++ [.set (calcUtxoKey env key) data])
      refine ⟨.set (calcUtxoKey env key) data :: writes, ?_, .cons ⟨rfl, ?_⟩ hall⟩
      · simp only [if_neg hdel, hmarshal]
        rw [hsave, List.append_assoc]
        rfl
      · rw [if_neg hdel]
        exact ⟨data, rfl, hback⟩

/-- The keys of the writes are the keys of the entries. -/
theorem keys_of_flushes (h : List.Forall₂ (Flushes env) entries writes) :
    writes.map StoreWrite.key = (entries.map Sigma.fst).map (calcUtxoKey env) := by
  induction h with
  | nil => rfl
  | cons hw _ ih => rw [List.map_cons, List.map_cons, List.map_cons, ih, hw.1]

theorem exists_write (h : List.Forall₂ (Flushes env) entries writes)
    {entry : Sigma fun _ : Hash => UtxoEntry} (hmem : entry ∈ entries) :
    ∃ w ∈ writes, Flushes env entry w := by
  induction h with
  | nil => cases hmem
  | cons hw _ ih =>
    rcases List.mem_cons.mp hmem with rfl | hmem
    · exact ⟨_, List.mem_cons_self, hw⟩
    · obtain ⟨w, hin, hfl⟩ := ih hmem
      exact ⟨w, .tail _ hin, hfl⟩

/-- What `getUtxo` answers once a write has been applied. -/
theorem getUtxo_of_flushes {entry : Sigma fun _ : Hash => UtxoEntry} {w : StoreWrite Str Str}
    (hw : Flushes env entry w) (hdb : db (calcUtxoKey env entry.1) = w.answer) :
    getUtxo env db entry.1 =
      if entry.2.spent && !entry.2.isCoinBase then .error notFound else .ok entry.2 := by
  unfold getUtxo
  rw [hdb]
  obtain ⟨-, hanswer⟩ := hw
  split at hanswer
  · next hdel =>
    rw [hanswer, if_pos hdel]
    rfl
  · next hdel =>
    obtain ⟨data, hdata, hback⟩ := hanswer
    rw [hdata, if_neg hdel]
    simp only [hback]

/-- A batch that flushes the entries of a view, and may write to other keys that are of no
output, makes the database answer like the view over it. -/
theorem getUtxo_applyBatch (henv : Documented env) {view : UtxoViewpoint}
    (hperm : entries.Perm view.entries.entries) (hall : List.Forall₂ (Flushes env) entries writes)
    {others : Batch} (hothers : ∀ w ∈ others, ∀ o, w.key ≠ calcUtxoKey env o) (o : Hash) :
    getUtxo env (applyBatch db (writes ++ others)) o = overlay env db view o := by
  have hlast : ∀ store : DB, applyBatch store (writes ++ others) (calcUtxoKey env o) =
      applyBatch store writes (calcUtxoKey env o) := by
    intro store
    rw [applyBatch, List.foldl_append]
    exact applyBatch_of_not_mem (fun w hw => hothers w hw o) _
  have hkeys := keys_of_flushes hall
  unfold overlay
  cases hlook : view.entries.lookup o with
  | none =>
    -- No write has the key of the output.
    have hnot : ∀ w ∈ writes, w.key ≠ calcUtxoKey env o := by
      intro w hw heq
      have hmem : calcUtxoKey env o ∈ (entries.map Sigma.fst).map (calcUtxoKey env) :=
        hkeys ▸ heq ▸ List.mem_map_of_mem hw
      obtain ⟨o', ho', hkey⟩ := List.mem_map.mp hmem
      cases calcUtxoKey_inj henv hkey
      exact AList.lookup_eq_none.mp hlook (AList.mem_keys.mpr ((hperm.map _).mem_iff.mp ho'))
    show getUtxo env _ o = getUtxo env db o
    rw [getUtxo, getUtxo, hlast, applyBatch_of_not_mem hnot]
  | some entry =>
    have hmem : (⟨o, entry⟩ : Sigma fun _ : Hash => UtxoEntry) ∈ entries :=
      hperm.mem_iff.mpr (AList.mem_lookup_iff.mp hlook)
    obtain ⟨w, hw, hfl⟩ := exists_write hall hmem
    have hnodup : (writes.map StoreWrite.key).Nodup := by
      rw [hkeys]
      refine List.Nodup.map (fun _ _ h => calcUtxoKey_inj henv h) ?_
      exact (hperm.map _).nodup_iff.mpr view.entries.keys_nodup
    refine getUtxo_of_flushes hfl ?_
    rw [hlast, ← hfl.1]
    exact applyBatch_of_mem hw hnodup db

theorem blockStoreKey_ne (o : Hash) : blockStoreKey ≠ calcUtxoKey env o := by
  intro heq
  have hhead := congrArg List.head? heq
  simp [blockStoreKey, calcUtxoKey, utxoPreFix] at hhead

/-! ### Loading -/

theorem hasUtxo_iff {view : UtxoViewpoint} :
    view.hasUtxo o = true ↔ o ∈ view.entries := decide_eq_true_iff

/-- The value of every output listed that the view lacks decodes, if there is one. -/
def AllDecode (env : Env) (db : DB) (ids : List Hash) (view : UtxoViewpoint) : Prop :=
  ∀ o ∈ ids, o ∉ view.entries → ∀ data, db (calcUtxoKey env o) = some data →
    ∃ utxo, env.unmarshal data = .ok utxo

/-- What loading the outputs listed adds to a view. -/
structure Loaded (env : Env) (db : DB) (ids : List Hash) (view view' : UtxoViewpoint)
    (err : Option Err) : Prop where
  keeps : ∀ o entry, view.entries.lookup o = some entry → view'.entries.lookup o = some entry
  adds : ∀ o entry, view'.entries.lookup o = some entry → view.entries.lookup o = some entry ∨
    (o ∈ ids ∧ getUtxo env db o = .ok entry)
  complete : err = none → ∀ o ∈ ids, ∀ entry, view.entries.lookup o = none →
    getUtxo env db o = .ok entry → view'.entries.lookup o = some entry
  err_iff : err = none ↔ AllDecode env db ids view

variable {ids ids' : List Hash} {view view₁ view' : UtxoViewpoint} {err : Option Err}

theorem getUtxo_ok_iff {entry : UtxoEntry} : getUtxo env db o = .ok entry ↔
    ∃ data, db (calcUtxoKey env o) = some data ∧ env.unmarshal data = .ok entry := by
  unfold getUtxo
  cases hdb : db (calcUtxoKey env o) with
  | none => simp
  | some data =>
    cases hdata : env.unmarshal data with
    | error e => simp [hdata]
    | ok utxo => simp [hdata]

theorem loaded_nil (env : Env) (db : DB) (view : UtxoViewpoint) :
    Loaded env db [] view view none := by
  refine ⟨fun _ _ h => h, fun _ _ h => .inl h, fun _ o ho => ?_, fun _ o ho => ?_, fun _ => rfl⟩
  · cases ho
  · cases ho

/-- Loading goes on with the view that it has so far. -/
theorem Loaded.append (h : Loaded env db ids view view₁ none)
    (h' : Loaded env db ids' view₁ view' err) : Loaded env db (ids ++ ids') view view' err := by
  have hin : ∀ o, o ∈ view₁.entries → o ∉ view.entries → ∃ entry,
      view₁.entries.lookup o = some entry ∧ getUtxo env db o = .ok entry := by
    intro o ho hnot
    obtain ⟨entry, hentry⟩ := Option.isSome_iff_exists.mp (AList.lookup_isSome.mpr ho)
    rcases h.adds o entry hentry with hold | ⟨-, hget⟩
    · rw [AList.lookup_eq_none.mpr hnot] at hold
      cases hold
    · exact ⟨entry, hentry, hget⟩
  refine ⟨fun o entry ho => h'.keeps o entry (h.keeps o entry ho), fun o entry ho => ?_,
    fun herr o ho entry hnone hget => ?_, ?_⟩
  · rcases h'.adds o entry ho with ho | ⟨hmem, hget⟩
    · exact (h.adds o entry ho).imp_right fun hc => ⟨List.mem_append_left _ hc.1, hc.2⟩
    · exact .inr ⟨List.mem_append_right _ hmem, hget⟩
  · by_cases ho₁ : o ∈ view₁.entries
    · obtain ⟨entry', hentry', hget'⟩ := hin o ho₁ (AList.lookup_eq_none.mp hnone)
      cases Except.ok.inj (hget.symm.trans hget')
      exact h'.keeps o entry hentry'
    · rcases List.mem_append.mp ho with ho | ho
      · exact h'.keeps o entry (h.complete rfl o ho entry hnone hget)
      · exact h'.complete herr o ho entry (AList.lookup_eq_none.mpr ho₁) hget
  · rw [h'.err_iff]
    have hfirst := h.err_iff.mp rfl
    constructor
    · intro hrest o ho hnot data hdata
      by_cases ho₁ : o ∈ view₁.entries
      · obtain ⟨entry, -, hget⟩ := hin o ho₁ hnot
        obtain ⟨data', hdata', hback⟩ := getUtxo_ok_iff.mp hget
        cases Option.some.inj (hdata.symm.trans hdata')
        exact ⟨entry, hback⟩
      · rcases List.mem_append.mp ho with ho | ho
        · exact hfirst o ho hnot data hdata
        · exact hrest o ho ho₁ data hdata
    · intro hall o ho hnot data hdata
      refine hall o (List.mem_append_right _ ho) (fun hin => hnot ?_) data hdata
      obtain ⟨entry, hentry⟩ := Option.isSome_iff_exists.mp (AList.lookup_isSome.mpr hin)
      exact AList.lookup_isSome.mp (by rw [h.keeps o entry hentry]; rfl)

/-- An error ends the loading. -/
theorem Loaded.stop {e : Err} (h : Loaded env db ids view view' (some e)) (ids' : List Hash) :
    Loaded env db (ids ++ ids') view view' (some e) := by
  refine ⟨h.keeps, fun o entry ho => ?_, nofun, nofun, fun hall => ?_⟩
  · exact (h.adds o entry ho).imp_right fun hc => ⟨List.mem_append_left _ hc.1, hc.2⟩
  · exact h.err_iff.mpr fun o ho => hall o (List.mem_append_left _ ho)

/-- An output for which there is nothing to add. -/
theorem loaded_skip (hskip : o ∈ view.entries ∨ db (calcUtxoKey env o) = none) :
    Loaded env db [o] view view none := by
  refine ⟨fun _ _ h => h, fun _ _ h => .inl h, fun _ o' ho' entry hnone hget => ?_, fun _ => ?_,
    fun _ => rfl⟩
  · cases List.mem_singleton.mp ho'
    obtain ⟨data, hdata, -⟩ := getUtxo_ok_iff.mp hget
    rcases hskip with hin | hdb
    · exact absurd hin (AList.lookup_eq_none.mp hnone)
    · cases hdb.symm.trans hdata
  · intro o' ho' hnot data hdata
    cases List.mem_singleton.mp ho'
    rcases hskip with hin | hdb
    · exact absurd hin hnot
    · cases hdb.symm.trans hdata

/-- An output whose entry is added. -/
theorem loaded_insert {utxo : UtxoEntry} (hnot : o ∉ view.entries)
    (hget : getUtxo env db o = .ok utxo) :
    Loaded env db [o] view ⟨view.entries.insert o utxo⟩ none := by
  refine ⟨fun o' entry ho' => ?_, fun o' entry ho' => ?_, fun _ o' ho' entry _ hget' => ?_,
    fun _ => ?_, fun _ => rfl⟩
  · have hne : o' ≠ o := by
      rintro rfl
      exact hnot (AList.lookup_isSome.mp (by rw [ho']; rfl))
    rwa [AList.lookup_insert_ne hne]
  · by_cases heq : o' = o
    · subst heq
      rw [AList.lookup_insert] at ho'
      cases ho'
      exact .inr ⟨List.mem_singleton.mpr rfl, hget⟩
    · rw [AList.lookup_insert_ne heq] at ho'
      exact .inl ho'
  · cases List.mem_singleton.mp ho'
    cases Except.ok.inj (hget.symm.trans hget')
    exact AList.lookup_insert _
  · intro o' ho' _ data hdata
    cases List.mem_singleton.mp ho'
    obtain ⟨data', hdata', hback⟩ := getUtxo_ok_iff.mp hget
    cases Option.some.inj (hdata.symm.trans hdata')
    exact ⟨utxo, hback⟩

theorem loaded_fails {data : Str} {e e' : Err} (hnot : o ∉ view.entries)
    (hdata : db (calcUtxoKey env o) = some data) (hbad : env.unmarshal data = .error e) :
    Loaded env db [o] view view (some e') := by
  refine ⟨fun _ _ h => h, fun _ _ h => .inl h, nofun, nofun, fun hall => ?_⟩
  obtain ⟨utxo, hok⟩ := hall o (List.mem_singleton.mpr rfl) hnot data hdata
  cases hbad.symm.trans hok

/-- The loop over the spent outputs of a transaction. -/
theorem loadSpent_spec (env : Env) (db : DB) (ids : List Hash) (view : UtxoViewpoint) :
    Loaded env db ids view (loadSpent env db ids view).1 (loadSpent env db ids view).2 := by
  induction ids generalizing view with
  | nil => exact loaded_nil env db view
  | cons o ids ih =>
    show Loaded env db ([o] ++ ids) view _ _
    unfold loadSpent
    by_cases hin : o ∈ view.entries
    · rw [if_pos (hasUtxo_iff.mpr hin)]
      exact (loaded_skip (.inl hin)).append (ih view)
    rw [if_neg fun hc => hin (hasUtxo_iff.mp hc)]
    cases hdb : db (calcUtxoKey env o) with
    | none => exact (loaded_skip (.inr hdb)).append (ih view)
    | some data =>
      cases hdata : env.unmarshal data with
      | error e =>
        simp only [hdata]
        exact (loaded_fails hin hdb hdata).stop ids
      | ok utxo =>
        simp only [hdata]
        have hget := getUtxo_ok_iff.mpr ⟨data, hdb, hdata⟩
        exact (loaded_insert hin hget).append (ih _)

/-- The loop over the transactions. -/
theorem getTransactionsUtxo_spec (env : Env) (db : DB) (txs : List Tx) (view : UtxoViewpoint) :
    Loaded env db (spentIDs txs) view (getTransactionsUtxo env db txs view).1
      (getTransactionsUtxo env db txs view).2 := by
  induction txs generalizing view with
  | nil => exact loaded_nil env db view
  | cons tx txs ih =>
    have hfirst := loadSpent_spec env db tx.spentOutputIDs view
    show Loaded env db (tx.spentOutputIDs ++ spentIDs txs) view _ _
    unfold getTransactionsUtxo
    rcases hload : loadSpent env db tx.spentOutputIDs view with ⟨view₁, err⟩
    rw [hload] at hfirst
    cases err with
    | none => exact hfirst.append (ih view₁)
    | some e => exact hfirst.stop _

/-- Without an error, what was loaded is exact. -/
theorem Loaded.lookup_eq (h : Loaded env db ids view view' none) (o : Hash) :
    view'.entries.lookup o = match view.entries.lookup o with
      | some entry => some entry
      | none => if o ∈ ids then (getUtxo env db o).toOption else none := by
  cases hlook : view.entries.lookup o with
  | some entry => exact h.keeps o entry hlook
  | none =>
    cases hlook' : view'.entries.lookup o with
    | some entry =>
      rcases h.adds o entry hlook' with hold | ⟨hmem, hget⟩
      · cases hlook.symm.trans hold
      · rw [if_pos hmem, hget]
        rfl
    | none =>
      by_cases hmem : o ∈ ids
      · cases hget : getUtxo env db o with
        | error e =>
          rw [if_pos hmem]
          rfl
        | ok entry => cases hlook'.symm.trans (h.complete rfl o hmem entry hlook hget)
      · rw [if_neg hmem]

end

/-- For every order of iteration, a flushed view lies over the database, also when
`SaveChainStatus` flushes it. `getTransactionsUtxo` changes no entry of the view. It
returns no error exactly when every value that it reads decodes, and then it adds exactly
the entries of the outputs that the view lacks and the database has. -/
theorem utxoView_overlay (env : Env) (henv : Documented env) (db : DB) (view : UtxoViewpoint)
    (order : IterOrder (Sigma fun _ : Hash => UtxoEntry)) :
    (∃ batch, saveUtxoView env (order.apply view.entries.entries) [] = (batch, none) ∧
      ∀ o, getUtxo env (applyBatch db batch) o = overlay env db view o) ∧
    (∀ height hash bytes, env.marshalState height hash = .ok bytes →
      ∃ db', saveChainStatus env db height hash view order = (db', none) ∧
        ∀ o, getUtxo env db' o = overlay env db view o) ∧
    ∀ txs view' err, getTransactionsUtxo env db txs view = (view', err) →
      (∀ o entry, view.entries.lookup o = some entry → view'.entries.lookup o = some entry) ∧
      (err = none ↔ AllDecode env db (spentIDs txs) view) ∧
      (err = none → ∀ o, view'.entries.lookup o = match view.entries.lookup o with
        | some entry => some entry
        | none => if o ∈ spentIDs txs then (getUtxo env db o).toOption else none) := by
  obtain ⟨writes, hsave, hall⟩ := saveUtxoView_spec henv (order.apply view.entries.entries) []
  rw [List.nil_append] at hsave
  refine ⟨⟨writes, hsave, fun o => ?_⟩, fun height hash bytes hbytes => ?_,
    fun txs view' err hrun => ?_⟩
  · have hover : getUtxo env (applyBatch db (writes ++ [])) o = overlay env db view o :=
      getUtxo_applyBatch henv (order.perm _) hall (fun _ hw => absurd hw List.not_mem_nil) o
    rwa [List.append_nil] at hover
  · refine ⟨applyBatch db (writes ++ [.set blockStoreKey bytes]), ?_, fun o => ?_⟩
    · simp only [saveChainStatus, hsave, hbytes]
    · refine getUtxo_applyBatch henv (order.perm _) hall (fun w hw o' => ?_) o
      cases List.mem_singleton.mp hw
      exact blockStoreKey_ne o'
  · have hload := getTransactionsUtxo_spec env db txs view
    rw [hrun] at hload
    refine ⟨hload.keeps, hload.err_iff, fun herr o => ?_⟩
    cases herr
    exact hload.lookup_eq o

/-! ### Concrete outputs -/

/-- A stand-in for the encoders: an entry is its two flags and its height. -/
def plainEnv : Env where
  hashString := Hash.bytes
  marshal entry := .ok (entry.isCoinBase.toUInt8 :: entry.spent.toUInt8 ::
    putUint64BE entry.blockHeight)
  unmarshal
    | c :: s :: height => .ok ⟨decide (c = 1), uint64BE height, decide (s = 1)⟩
    | _ => .error RootErr.unexpectedEOF.err
  marshalState _ _ := .ok []

theorem plainEnv_documented : Documented plainEnv where
  unmarshal_marshal entry := by
    obtain ⟨c, height, s⟩ := entry
    refine ⟨_, rfl, ?_⟩
    have hback := Bc.uint64BE_putUint64BE height []
    rw [List.append_nil] at hback
    have hflag : ∀ b : Bool, decide (b.toUInt8 = 1) = b := by decide
    simp only [plainEnv, hback, hflag]
  hashString_inj _ _ h := Bc.bytes_inj h

/-- The output whose words are all `n`. -/
def outputOf (n : UInt64) : Hash := ⟨n, n, n, n⟩

/-- Output 1 is spent, output 2 is a spent coinbase output. -/
def spentView : UtxoViewpoint :=
  ⟨((∅ : AList _).insert (outputOf 1) ⟨false, 7, true⟩).insert (outputOf 2) ⟨true, 8, true⟩⟩

/-- The flushed view hides output 1 and keeps output 2. -/
theorem utxoView_overlay_spent : Documented plainEnv ∧
    ∃ batch, saveUtxoView plainEnv spentView.entries.entries [] = (batch, none) ∧
      getUtxo plainEnv (applyBatch (fun _ => none) batch) (outputOf 1) = .error notFound ∧
      getUtxo plainEnv (applyBatch (fun _ => none) batch) (outputOf 2) = .ok ⟨true, 8, true⟩ := by
  obtain ⟨⟨batch, hsave, hover⟩, -⟩ :=
    utxoView_overlay plainEnv plainEnv_documented (fun _ => none) spentView ⟨id, .refl⟩
  refine ⟨plainEnv_documented, batch, hsave, ?_, ?_⟩
  · rw [hover]
    rfl
  · rw [hover]
    rfl

/-- A transaction that spends outputs 1 and 2. -/
def spendingTx : Tx :=
  ⟨⟨1, 0, 0, []⟩, outputOf 0, .empty, [], [outputOf 1, outputOf 2], []⟩

/-- A database with a value for output 1 that does not decode, and an entry for output 2. -/
def damagedDB : DB :=
  applyBatch (fun _ => none) [.set (calcUtxoKey plainEnv (outputOf 1)) [],
    .set (calcUtxoKey plainEnv (outputOf 2)) (0 :: 0 :: putUint64BE 8)]

/-- The value of output 1 keeps `getTransactionsUtxo` from adding output 2, which the
database has. -/
theorem damaged_value_stops_loading : Documented plainEnv ∧
    getUtxo plainEnv damagedDB (outputOf 2) = .ok ⟨false, 8, false⟩ ∧
    outputOf 2 ∈ spentIDs [spendingTx] ∧
    outputOf 2 ∉ (getTransactionsUtxo plainEnv damagedDB [spendingTx] ⟨∅⟩).1.entries :=
  ⟨plainEnv_documented, by decide, by decide, by decide⟩

end BtmStats.Proofs.Database
