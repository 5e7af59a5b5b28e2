import Mathlib.Data.List.AList
import Mathlib.Data.List.Basic
import Mathlib.Logic.Function.Basic

/-!
# `BtmStats.Lib.SortedStore`: a key-value store that lists its keys in order

The carrier is a tree map. A batch of writes changes what the store answers as it changes any other
store (`answer_write`). A listing has the pairs whose keys pass a test, with strictly increasing
keys, so it has each of them once.
-/

set_option autoImplicit false

namespace BtmStats.Lib

/-! ### Batches

A store answers a key with a value or with nothing. A batch is a list of writes, which
are applied in order. A key that the batch does not write keeps its answer
(`applyBatch_of_not_mem`). A batch that writes each key once answers each of its keys with
its own write (`applyBatch_of_mem`), so the order of the writes does not matter.
-/

variable {κ ν : Type}

/-- A write to a store: a new value for a key, or the deletion of the key. -/
inductive StoreWrite (κ ν : Type) where
  | set (key : κ) (value : ν)
  | delete (key : κ)

namespace StoreWrite

def key : StoreWrite κ ν → κ
  | .set key _ => key
  | .delete key => key

/-- What the key answers after the write. -/
def answer : StoreWrite κ ν → Option ν
  | .set _ value => some value
  | .delete _ => none

end StoreWrite

variable [DecidableEq κ]

def applyWrite (store : κ → Option ν) (w : StoreWrite κ ν) : κ → Option ν :=
  Function.update store w.key w.answer

def applyBatch (store : κ → Option ν) (batch : List (StoreWrite κ ν)) : κ → Option ν :=
  batch.foldl applyWrite store

/-- Other keys keep their values. -/
theorem applyBatch_of_not_mem {batch : List (StoreWrite κ ν)} {k : κ}
    (h : ∀ w ∈ batch, w.key ≠ k) (store : κ → Option ν) : applyBatch store batch k = store k := by
  induction batch generalizing store with
  | nil => rfl
  | cons w batch ih =>
    obtain ⟨hw, hbatch⟩ := List.forall_mem_cons.mp h
    show applyBatch (applyWrite store w) batch k = store k
    rw [ih hbatch, applyWrite, Function.update_of_ne hw.symm]

/-- The last write of a key counts. -/
theorem applyBatch_of_mem {batch : List (StoreWrite κ ν)} {w : StoreWrite κ ν} (hw : w ∈ batch)
    (hnodup : (batch.map StoreWrite.key).Nodup) (store : κ → Option ν) :
    applyBatch store batch w.key = w.answer := by
  induction batch generalizing store with
  | nil => cases hw
  | cons w' batch ih =>
    rw [List.map_cons, List.nodup_cons] at hnodup
    show applyBatch (applyWrite store w') batch w.key = w.answer
    rcases List.mem_cons.mp hw with rfl | hw
    · have hlater : ∀ v ∈ batch, v.key ≠ w.key := by
        intro v hv heq
        exact hnodup.1 (List.mem_map.mpr ⟨v, hv, heq⟩)
      rw [applyBatch_of_not_mem hlater, applyWrite, Function.update_self]
    · exact ih hw hnodup.2 _

/-- A key that one write of the batch alone may be for. -/
theorem applyBatch_of_others {l m : List (StoreWrite κ ν)} {w : StoreWrite κ ν} {k : κ}
    (hl : ∀ v ∈ l, v.key ≠ k) (hm : ∀ v ∈ m, v.key ≠ k) (store : κ → Option ν) :
    applyBatch store (l ++ w :: m) k = if k = w.key then w.answer else store k := by
  rw [applyBatch, List.foldl_append]
  show applyBatch (applyWrite (applyBatch store l) w) m k = _
  rw [applyBatch_of_not_mem hm, applyWrite, Function.update_apply, applyBatch_of_not_mem hl]

structure SortedStore (κ ν : Type) [Ord κ] where
  map : Std.TreeMap κ ν

namespace SortedStore

variable {κ ν : Type} [Ord κ]

def empty : SortedStore κ ν := ⟨∅⟩

def answer (d : SortedStore κ ν) (k : κ) : Option ν := d.map[k]?

def applyWrite (d : SortedStore κ ν) : StoreWrite κ ν → SortedStore κ ν
  | .set k v => ⟨d.map.insert k v⟩
  | .delete k => ⟨d.map.erase k⟩

def write (d : SortedStore κ ν) (batch : List (StoreWrite κ ν)) : SortedStore κ ν :=
  batch.foldl applyWrite d

/-- The pairs whose keys pass the test, in the order of the keys. -/
def listing (d : SortedStore κ ν) (p : κ → Bool) : List (κ × ν) :=
  d.map.toList.filter fun kv => p kv.1

variable [Std.TransOrd κ]

theorem answer_empty (k : κ) : (empty : SortedStore κ ν).answer k = none :=
  Std.TreeMap.getElem?_emptyc

theorem listing_sorted (d : SortedStore κ ν) (p : κ → Bool) :
    (d.listing p).Pairwise fun a b => compare a.1 b.1 = .lt :=
  Std.TreeMap.ordered_keys_toList.filter _

variable [Std.LawfulEqOrd κ]

/-- The listing has what the store answers for its keys. -/
theorem mem_listing {d : SortedStore κ ν} {p : κ → Bool} {k : κ} {v : ν} :
    (k, v) ∈ d.listing p ↔ d.answer k = some v ∧ p k = true := by
  rw [listing, List.mem_filter, Std.TreeMap.mem_toList_iff_getElem?_eq_some]
  rfl

variable [DecidableEq κ]

theorem answer_applyWrite (d : SortedStore κ ν) (w : StoreWrite κ ν) :
    (d.applyWrite w).answer = Lib.applyWrite d.answer w := by
  funext k
  rw [Lib.applyWrite, Function.update_apply]
  -- The comparison finds a key equal exactly when it is.
  have hcompare : ∀ key : κ, compare key k = .eq ↔ k = key := fun key =>
    Std.LawfulEqOrd.compare_eq_iff_eq.trans eq_comm
  cases w with
  | set key v =>
    rw [applyWrite, answer, Std.TreeMap.getElem?_insert, if_congr (hcompare key) rfl rfl]
    rfl
  | delete key =>
    rw [applyWrite, answer, Std.TreeMap.getElem?_erase, if_congr (hcompare key) rfl rfl]
    rfl

theorem answer_write (d : SortedStore κ ν) (batch : List (StoreWrite κ ν)) :
    (d.write batch).answer = applyBatch d.answer batch := by
  induction batch generalizing d with
  | nil => rfl
  | cons w batch ih =>
    show ((d.applyWrite w).write batch).answer = applyBatch (Lib.applyWrite d.answer w) batch
    rw [ih, answer_applyWrite]

end SortedStore

end BtmStats.Lib
