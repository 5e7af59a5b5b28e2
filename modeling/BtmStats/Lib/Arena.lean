import Mathlib.Data.List.AList

/-!
# `BtmStats.Lib.Arena`: objects in a heap, indexed by a digest

An `Arena` is a heap of objects and an index from digests to places in the heap.
`add` puts an object at the end of the heap and enters its digest, so a later
object with the same digest replaces an earlier one in the index. `set` overwrites
an object in place and leaves the index alone: the digest of an object is the one
that it had when it was added.

`Adds key s added` is the link between an arena and the list of the objects as they
were added. It says all that the index can answer, and it survives every `set`.
-/

set_option autoImplicit false

namespace BtmStats.Lib

/-- What stands at a place after an object was put at the end. -/
theorem getElem?_concat_eq_some {α : Type} {l : List α} {a x : α} {p : Nat} :
    (l ++ [a])[p]? = some x ↔ l[p]? = some x ∨ (p = l.length ∧ a = x) := by
  -- Before the end, at the end, and past the end of the longer list.
  rcases Nat.lt_trichotomy p l.length with hp | hp | hp
  · rw [List.getElem?_append_left hp]
    simp only [Nat.ne_of_lt hp, false_and, or_false]
  · subst hp
    simp
  · rw [List.getElem?_eq_none (by simp; omega), List.getElem?_eq_none (Nat.le_of_lt hp)]
    simp only [Nat.ne_of_gt hp, false_and, or_false]

/-- What stands at a place after it was overwritten. -/
theorem getElem?_set_of_some {α : Type} {l : List α} {p : Nat} {a : α} (ha : l[p]? = some a)
    (b : α) : (l.set p b)[p]? = some b :=
  List.getElem?_set_self (List.getElem?_eq_some_iff.mp ha).1

/-- Overwriting an object by one with the same digest keeps the digests. -/
theorem map_set_eq_map {α κ : Type} {key : α → κ} {l : List α} {p : Nat} {a b : α}
    (ha : l[p]? = some a) (hkey : key b = key a) : (l.set p b).map key = l.map key := by
  refine List.ext_getElem? fun q => ?_
  rw [List.map_set]
  by_cases hq : p = q
  · subst hq
    have hlt : p < (l.map key).length := by
      rw [List.length_map]
      exact (List.getElem?_eq_some_iff.mp ha).1
    rw [List.getElem?_set_self hlt, List.getElem?_map, ha, hkey]
    rfl
  · rw [List.getElem?_set_ne hq]

/-- A heap of objects, with an index by digest. -/
structure Arena (α κ : Type) where
  heap : List α
  index : AList (fun _ : κ => Nat)

namespace Arena

variable {α κ : Type}

def empty : Arena α κ := ⟨[], ∅⟩

/-- The place of the next object. -/
def next (s : Arena α κ) : Nat := s.heap.length

/-- Overwrite the object at a place. -/
def set (s : Arena α κ) (p : Nat) (a : α) : Arena α κ := { s with heap := s.heap.set p a }

/-- Change every object. -/
def map (f : α → α) (s : Arena α κ) : Arena α κ := { s with heap := s.heap.map f }

variable {p : Nat} {a : α}

theorem set_self {s : Arena α κ} (ha : s.heap[p]? = some a) : s.set p a = s := by
  obtain ⟨hlt, rfl⟩ := List.getElem?_eq_some_iff.mp ha
  rw [set, List.set_getElem_self]

variable [DecidableEq κ]

/-- Add an object under its digest. -/
def add (key : α → κ) (a : α) (s : Arena α κ) : Arena α κ :=
  ⟨s.heap ++ [a], s.index.insert (key a) s.next⟩

/-- The object that the index has for a digest. -/
def find? (s : Arena α κ) (k : κ) : Option α := s.index.lookup k >>= fun p => s.heap[p]?

/-- Overwriting another object does not change what the index has for a digest. -/
theorem find?_set {s : Arena α κ} {k : κ} {b c : α} (hk : s.find? k = some b)
    (hp : s.heap[p]? = some c) (hne : b ≠ c) : (s.set p a).find? k = some b := by
  obtain ⟨q, hq, hb⟩ := Option.bind_eq_some_iff.mp hk
  have hqp : p ≠ q := by
    rintro rfl
    exact hne (Option.some.inj (hb.symm.trans hp))
  refine Option.bind_eq_some_iff.mpr ⟨q, hq, ?_⟩
  rw [set, List.getElem?_set_ne hqp]
  exact hb

/-- The objects that were added, in order and as they were then. -/
structure Adds (key : α → κ) (s : Arena α κ) (added : List α) : Prop where
  length_eq : s.heap.length = added.length
  of_lookup : ∀ {k p}, s.index.lookup k = some p → ∃ a, added[p]? = some a ∧ key a = k
  mem_index : ∀ {a}, a ∈ added → key a ∈ s.index

variable {key : α → κ} {s : Arena α κ} {added : List α}

theorem Adds.empty : Adds key (empty : Arena α κ) [] :=
  ⟨rfl, fun h => by simp [Arena.empty] at h, fun h => by simp at h⟩

theorem Adds.set (h : Adds key s added) (p : Nat) (a : α) : Adds key (s.set p a) added :=
  ⟨by rw [Arena.set, List.length_set, h.length_eq], h.of_lookup, h.mem_index⟩

theorem Adds.add (h : Adds key s added) (a : α) : Adds key (s.add key a) (added ++ [a]) := by
  refine ⟨by simp [Arena.add, h.length_eq], fun {k p} hk => ?_, fun {b} hb => ?_⟩
  · by_cases hka : k = key a
    · subst hka
      -- The digest of the new object: the index now has the new place.
      rw [Arena.add, AList.lookup_insert] at hk
      obtain rfl := Option.some.inj hk
      exact ⟨a, getElem?_concat_eq_some.mpr (.inr ⟨h.length_eq, rfl⟩), rfl⟩
    · rw [Arena.add, AList.lookup_insert_ne hka] at hk
      obtain ⟨b, hb, hkey⟩ := h.of_lookup hk
      exact ⟨b, getElem?_concat_eq_some.mpr (.inl hb), hkey⟩
  · rw [Arena.add, AList.mem_insert]
    rcases List.mem_append.mp hb with hb | hb
    · exact .inr (h.mem_index hb)
    · exact .inl (by rw [List.mem_singleton.mp hb])

/-- A digest that one object alone has is indexed at the place of this object. -/
theorem Adds.lookup_eq (h : Adds key s added) (ha : added[p]? = some a)
    (huniq : ∀ q b, added[q]? = some b → key b = key a → q = p) :
    s.index.lookup (key a) = some p := by
  have hmem : key a ∈ s.index := h.mem_index (List.mem_of_getElem? ha)
  obtain ⟨q, hq⟩ := Option.isSome_iff_exists.mp (AList.lookup_isSome.mpr hmem)
  obtain ⟨b, hb, hkey⟩ := h.of_lookup hq
  rw [hq, huniq q b hb hkey]

/-! ### Objects that keep their key -/

/-- The objects have their digest still: the index has each object under its own. -/
def Keyed (key : α → κ) (s : Arena α κ) : Prop := Adds key s s.heap

theorem Keyed.empty : Keyed key (Arena.empty : Arena α κ) := Adds.empty

theorem Keyed.add (h : Keyed key s) (a : α) : Keyed key (s.add key a) := Adds.add h a

/-- Changes to the objects that keep every digest. -/
theorem Keyed.of_heap (h : Keyed key s) {heap : List α} (hkeys : heap.map key = s.heap.map key) :
    Keyed key { s with heap := heap } := by
  refine ⟨rfl, fun {k p} hk => ?_, fun {a} ha => ?_⟩
  · obtain ⟨a, ha, rfl⟩ := h.of_lookup hk
    -- The place has an object with the same digest, if not the same object.
    have hget : (heap.map key)[p]? = some (key a) := by
      rw [hkeys, List.getElem?_map, ha]
      rfl
    rw [List.getElem?_map, Option.map_eq_some_iff] at hget
    exact hget
  · have hmem : key a ∈ s.heap.map key := hkeys ▸ List.mem_map_of_mem ha
    obtain ⟨b, hb, hkey⟩ := List.mem_map.mp hmem
    exact hkey ▸ h.mem_index hb

theorem Keyed.set (h : Keyed key s) {b : α} (ha : s.heap[p]? = some a) (hkey : key b = key a) :
    Keyed key (s.set p b) := h.of_heap (map_set_eq_map ha hkey)

/-- What the index has for a digest after an object was overwritten. -/
theorem Keyed.find?_set (h : Keyed key s) {k : κ} (hk : s.index.lookup k = some p) (b : α)
    (k' : κ) :
    (s.set p b).find? k' = if k' = k then some b else s.find? k' := by
  obtain ⟨a, ha, hkey⟩ := h.of_lookup hk
  split
  · next heq =>
    subst heq
    refine Option.bind_eq_some_iff.mpr ⟨p, hk, ?_⟩
    exact getElem?_set_of_some ha b
  · next hne =>
    show (s.index.lookup k').bind _ = (s.index.lookup k').bind _
    cases hk' : s.index.lookup k' with
    | none => rfl
    | some q =>
      -- Two digests have two objects.
      obtain ⟨a', ha', hkey'⟩ := h.of_lookup hk'
      have hpq : p ≠ q := by
        rintro rfl
        rw [ha, Option.some.injEq] at ha'
        exact hne (hkey'.symm.trans (ha' ▸ hkey))
      exact List.getElem?_set_ne hpq

/-- Overwriting an object does not change which digests are found. -/
theorem Keyed.isSome_find?_set (h : Keyed key s) {k : κ} (hk : s.index.lookup k = some p) (b : α)
    (k' : κ) : ((s.set p b).find? k').isSome = (s.find? k').isSome := by
  obtain ⟨a, ha, -⟩ := h.of_lookup hk
  rw [h.find?_set hk]
  split
  · next heq =>
    have hfind : s.find? k' = some a := Option.bind_eq_some_iff.mpr ⟨p, heq ▸ hk, ha⟩
    rw [hfind]
    rfl
  · rfl

theorem find?_map (s : Arena α κ) (f : α → α) (k : κ) : (s.map f).find? k = (s.find? k).map f := by
  show (s.index.lookup k).bind (fun p => (s.heap.map f)[p]?) =
    ((s.index.lookup k).bind fun p => s.heap[p]?).map f
  cases s.index.lookup k with
  | none => rfl
  | some p => exact List.getElem?_map

/-- The digests that are found are those of the objects. -/
theorem Keyed.isSome_find?_iff (h : Keyed key s) (k : κ) :
    (s.find? k).isSome ↔ k ∈ s.heap.map key := by
  rw [List.mem_map, Option.isSome_iff_exists]
  constructor
  · rintro ⟨a, ha⟩
    obtain ⟨p, hp, -⟩ := Option.bind_eq_some_iff.mp ha
    obtain ⟨b, hb, hkey⟩ := h.of_lookup hp
    exact ⟨b, List.mem_of_getElem? hb, hkey⟩
  · rintro ⟨a, ha, rfl⟩
    obtain ⟨p, hp⟩ := Option.isSome_iff_exists.mp (AList.lookup_isSome.mpr (h.mem_index ha))
    obtain ⟨b, hb, -⟩ := h.of_lookup hp
    exact ⟨b, Option.bind_eq_some_iff.mpr ⟨p, hp, hb⟩⟩

/-- When no two objects share a digest, each is indexed at its place. -/
theorem Keyed.lookup_key (h : Keyed key s) (hnodup : (s.heap.map key).Nodup)
    (ha : s.heap[p]? = some a) : s.index.lookup (key a) = some p := by
  -- Two places with one digest would repeat it in the list of digests.
  refine Adds.lookup_eq h ha fun q b hb hkey => ?_
  have hp : (s.heap.map key)[p]? = some (key a) := by rw [List.getElem?_map, ha]; rfl
  have hq : (s.heap.map key)[q]? = some (key a) := by rw [List.getElem?_map, hb, ← hkey]; rfl
  obtain ⟨hq', hqe⟩ := List.getElem?_eq_some_iff.mp hq
  obtain ⟨hp', hpe⟩ := List.getElem?_eq_some_iff.mp hp
  exact (List.Nodup.getElem_inj_iff hnodup).mp (hqe.trans hpe.symm)

end Arena

end BtmStats.Lib
