import BtmStats.Lib.Arena
import BtmStats.Lib.Runs
import BtmStats.Spec.P2p.Peer

/-!
# `BtmStats.Proofs.P2p.PeerSet`: the two halves of the table of peers agree

`lookup` answers a key with a place of the list exactly when the list has a peer with
this key there. That no two peers of the list share a key follows: the answer is one.
Both calls keep this (`add_spec`, `remove_spec`), so it holds after every run
(`run_indexed`), and `peerSet_representation` is what a caller sees of it.
-/

set_option autoImplicit false

namespace BtmStats.Proofs.P2p

open Lib Spec Spec.P2p

/-- `lookup` is the index of `list` by key. -/
def Indexed (ps : PeerSet) : Prop :=
  ∀ key item, ps.lookup.lookup key = some item ↔
    ps.list[item.index]? = some item.peer ∧ item.peer.key = key

section
variable {ps : PeerSet} {peer : Peer}

theorem indexed_new : Indexed .new := by
  intro key item
  have hnone : PeerSet.new.lookup.lookup key = none := AList.lookup_empty key
  rw [hnone]
  exact ⟨nofun, fun h => nomatch h.1⟩

/-- No two places of the list have the same key. -/
theorem Indexed.place_inj (h : Indexed ps) {i j : Nat} {p q : Peer} (hi : ps.list[i]? = some p)
    (hj : ps.list[j]? = some q) (hkey : p.key = q.key) : i = j := by
  have hp := (h p.key ⟨p, i⟩).mpr ⟨hi, rfl⟩
  have hq := (h p.key ⟨q, j⟩).mpr ⟨hj, hkey.symm⟩
  exact congrArg PeerSetItem.index (Option.some.inj (hp.symm.trans hq))

/-- Peers with different keys stand at different places. -/
theorem place_ne {i j : Nat} {p q : Peer} (hi : ps.list[i]? = some p)
    (hj : ps.list[j]? = some q) (hne : p.key ≠ q.key) : i ≠ j := by
  rintro rfl
  rw [hi, Option.some.injEq] at hj
  exact hne (by rw [hj])

/-- A key is present exactly when a peer of the list has it. -/
theorem Indexed.lookup_isSome_iff (h : Indexed ps) (key : Str) :
    (ps.lookup.lookup key).isSome ↔ ∃ q ∈ ps.list, q.key = key := by
  constructor
  · intro hsome
    obtain ⟨item, hitem⟩ := Option.isSome_iff_exists.mp hsome
    obtain ⟨hget, hkey⟩ := (h key item).mp hitem
    exact ⟨item.peer, List.mem_of_getElem? hget, hkey⟩
  · rintro ⟨q, hq, rfl⟩
    obtain ⟨i, hi⟩ := List.getElem?_of_mem hq
    rw [(h q.key ⟨q, i⟩).mpr ⟨hi, rfl⟩]
    rfl

theorem has_iff (h : Indexed ps) (key : Str) : ps.has key = true ↔ ∃ q ∈ ps.list, q.key = key := by
  rw [← h.lookup_isSome_iff, AList.lookup_isSome, PeerSet.has, decide_eq_true_iff]

/-- `Add` fails and changes nothing when the key is present, and otherwise puts the peer
at the end of the list. -/
theorem add_spec (h : Indexed ps) (peer : Peer) :
    ((∃ q ∈ ps.list, q.key = peer.key) ∧
      ps.add peer = (ps, some RootErr.errDuplicatePeer.err)) ∨
    ((∀ q ∈ ps.list, q.key ≠ peer.key) ∧ (ps.add peer).2 = none ∧
      (ps.add peer).1.list = ps.list ++ [peer] ∧ Indexed (ps.add peer).1) := by
  unfold PeerSet.add
  cases hlook : ps.lookup.lookup peer.key with
  | some item => exact .inl ⟨(h.lookup_isSome_iff _).mp (by rw [hlook]; rfl), rfl⟩
  | none =>
    -- The key is free, so the new peer does not share it.
    have hnew : ∀ q ∈ ps.list, q.key ≠ peer.key := by
      intro q hq hkey
      have hsome := (h.lookup_isSome_iff peer.key).mpr ⟨q, hq, hkey⟩
      rw [hlook] at hsome
      cases hsome
    refine .inr ⟨hnew, rfl, rfl, fun key item => ?_⟩
    by_cases hkey : key = peer.key
    · subst hkey
      rw [AList.lookup_insert, getElem?_concat_eq_some]
      constructor
      · intro hitem
        cases hitem
        exact ⟨.inr ⟨rfl, rfl⟩, rfl⟩
      · rintro ⟨hget | ⟨hidx, hpeer⟩, hk⟩
        · exact absurd hk (hnew _ (List.mem_of_getElem? hget))
        · rw [hidx.symm, hpeer]
    · rw [AList.lookup_insert_ne hkey, h, getElem?_concat_eq_some]
      refine and_congr_left fun hk => ⟨.inl, ?_⟩
      rintro (hget | ⟨-, hpeer⟩)
      · exact hget
      · exact absurd (hpeer ▸ hk).symm hkey

/-- The list without its last element, place by place. -/
theorem getElem?_dropLast_eq_some {α : Type} {l : List α} {j : Nat} {x : α} :
    l.dropLast[j]? = some x ↔ j < l.length - 1 ∧ l[j]? = some x := by
  rw [List.getElem?_dropLast]
  split
  · next hj => simp [hj]
  · next hj => simp [hj]

/-- The list after the last element took place `i`. -/
theorem getElem?_moveLast_eq_some {α : Type} {l : List α} {i j : Nat} {last x : α}
    (hi : i < l.length - 1) : (l.dropLast.set i last)[j]? = some x ↔
      (j = i ∧ last = x) ∨ (j ≠ i ∧ j < l.length - 1 ∧ l[j]? = some x) := by
  by_cases hj : j = i
  · subst hj
    rw [List.getElem?_set_self (by rw [List.length_dropLast]; exact hi)]
    simp
  · rw [List.getElem?_set_ne (Ne.symm hj), getElem?_dropLast_eq_some]
    simp [hj]

/-- An entry goes out of the table when the list loses its place. -/
theorem erase_last_indexed (h : Indexed ps) {item : PeerSetItem}
    (hitem : ps.lookup.lookup peer.key = some item) (hlast : item.index = ps.list.length - 1) :
    Indexed ⟨ps.lookup.erase peer.key, ps.list.dropLast⟩ := by
  obtain ⟨hget, hkey⟩ := (h _ _).mp hitem
  intro key item'
  rw [getElem?_dropLast_eq_some]
  by_cases hk : key = peer.key
  · subst hk
    rw [AList.lookup_erase]
    -- The key had one place, and this is the one that is gone.
    refine ⟨nofun, fun ⟨⟨hlt, hget'⟩, hkey'⟩ => ?_⟩
    have hidx := h.place_inj hget' hget (hkey'.trans hkey.symm)
    omega
  · rw [AList.lookup_erase_ne hk, h]
    refine and_congr_left fun hkey' => ⟨fun hget' => ⟨?_, hget'⟩, And.right⟩
    have hlt := (List.getElem?_eq_some_iff.mp hget').1
    have hne := place_ne hget' hget (by rw [hkey', hkey]; exact hk)
    omega

/-- The last peer takes the place of the entry that goes out. -/
theorem move_last_indexed (h : Indexed ps) {item : PeerSetItem}
    (hitem : ps.lookup.lookup peer.key = some item) (hlt : item.index < ps.list.length - 1)
    {last : Peer} (hlast : ps.list[ps.list.length - 1]? = some last) :
    Indexed ⟨(ps.lookup.insert last.key ⟨last, item.index⟩).erase peer.key,
      ps.list.dropLast.set item.index last⟩ := by
  obtain ⟨hget, hkey⟩ := (h _ _).mp hitem
  -- The last peer is another one, since it stands at another place.
  have hlastKey : last.key ≠ peer.key := by
    intro heq
    have hidx := h.place_inj hlast hget (heq.trans hkey.symm)
    omega
  intro key item'
  rw [getElem?_moveLast_eq_some hlt]
  by_cases hk : key = peer.key
  · subst hk
    rw [AList.lookup_erase]
    refine ⟨nofun, ?_⟩
    rintro ⟨⟨-, rfl⟩ | ⟨hne, -, hget'⟩, hkey'⟩
    · exact absurd hkey' hlastKey
    · exact absurd (h.place_inj hget' hget (hkey'.trans hkey.symm)) hne
  · rw [AList.lookup_erase_ne hk]
    by_cases hkl : key = last.key
    · subst hkl
      rw [AList.lookup_insert]
      constructor
      · intro heq
        cases heq
        exact ⟨.inl ⟨rfl, rfl⟩, rfl⟩
      · rintro ⟨⟨hidx, hpeer⟩ | ⟨-, hlt', hget'⟩, hkey'⟩
        · rw [hpeer, ← hidx]
        · have hidx := h.place_inj hget' hlast hkey'
          omega
    · rw [AList.lookup_insert_ne hkl, h]
      refine and_congr_left fun hkey' => ⟨fun hget' => .inr ⟨?_, ?_, hget'⟩, ?_⟩
      · exact place_ne hget' hget (by rw [hkey', hkey]; exact hk)
      · have hlen := (List.getElem?_eq_some_iff.mp hget').1
        have hne := place_ne hget' hlast (by rw [hkey']; exact hkl)
        omega
      · rintro (⟨-, hpeer⟩ | ⟨-, -, hget'⟩)
        · exact absurd (hkey'.symm.trans (hpeer ▸ rfl)) hkl
        · exact hget'

/-- `Get` returns the peer of the list with the key. -/
theorem Indexed.get_eq_some_iff (h : Indexed ps) {key : Str} {q : Peer} :
    ps.get key = some q ↔ q ∈ ps.list ∧ q.key = key := by
  rw [PeerSet.get, Option.map_eq_some_iff]
  constructor
  · rintro ⟨item, hitem, rfl⟩
    obtain ⟨hget, hkey⟩ := (h key item).mp hitem
    exact ⟨List.mem_of_getElem? hget, hkey⟩
  · rintro ⟨hq, rfl⟩
    obtain ⟨i, hi⟩ := List.getElem?_of_mem hq
    exact ⟨⟨q, i⟩, (h q.key ⟨q, i⟩).mpr ⟨hi, rfl⟩, rfl⟩

/-- `Remove` takes out the entry with the key of the peer and keeps all others. -/
theorem remove_spec (h : Indexed ps) (peer : Peer) :
    ∃ ps', ps.remove peer = .ok ps' ∧ Indexed ps' ∧
      ∀ key, ps'.get key = if key = peer.key then none else ps.get key := by
  unfold PeerSet.remove
  cases hitem : ps.lookup.lookup peer.key with
  | none =>
    refine ⟨ps, rfl, h, fun key => ?_⟩
    split
    · next hkey => rw [hkey, PeerSet.get, hitem]; rfl
    · rfl
  | some item =>
    obtain ⟨hget, hkey⟩ := (h _ _).mp hitem
    have hlt : item.index < ps.list.length := (List.getElem?_eq_some_iff.mp hget).1
    obtain ⟨last, hlast⟩ : ∃ last, ps.list[ps.list.length - 1]? = some last :=
      ⟨_, List.getElem?_eq_getElem (by omega)⟩
    show ∃ ps', (orPanic .sliceBounds ps.list.getLast? >>= _) = _ ∧ _
    rw [List.getLast?_eq_getElem?, hlast]
    show ∃ ps', (if item.index = ps.list.length - 1 then _ else _) = _ ∧ _
    by_cases hend : item.index = ps.list.length - 1
    · rw [if_pos hend]
      refine ⟨_, rfl, erase_last_indexed h hitem hend, fun key => ?_⟩
      show ((ps.lookup.erase peer.key).lookup key).map _ = _
      split
      · next hk => rw [hk, AList.lookup_erase]; rfl
      · next hk => rw [AList.lookup_erase_ne hk]; rfl
    · rw [if_neg hend]
      -- `lastPeerItem` is there, because the table has an entry for every peer of the
      -- list.
      have hlastItem := (h last.key ⟨last, ps.list.length - 1⟩).mpr ⟨hlast, rfl⟩
      show ∃ ps', (orPanic .nilDereference (ps.lookup.lookup last.key) >>= _) = _ ∧ _
      rw [hlastItem]
      show ∃ ps', (if ps.list.dropLast.length ≤ item.index then _ else _) = _ ∧ _
      rw [if_neg (by rw [List.length_dropLast]; omega)]
      refine ⟨_, rfl, move_last_indexed h hitem (by omega) hlast, fun key => ?_⟩
      show (((ps.lookup.insert last.key ⟨last, item.index⟩).erase peer.key).lookup key).map _ = _
      split
      · next hk => rw [hk, AList.lookup_erase]; rfl
      · next hk =>
        rw [AList.lookup_erase_ne hk]
        by_cases hkl : key = last.key
        · rw [hkl, AList.lookup_insert, PeerSet.get, hlastItem]
          rfl
        · rw [AList.lookup_insert_ne hkl]
          rfl

/-! ### Runs -/

theorem step_indexed (h : Indexed ps) (call : PeerSet.Call) :
    ∃ ps', ps.step call = .ok ps' ∧ Indexed ps' := by
  cases call with
  | add peer =>
    refine ⟨_, rfl, ?_⟩
    rcases add_spec h peer with ⟨-, heq⟩ | ⟨-, -, -, hadd⟩
    · rw [heq]
      exact h
    · exact hadd
  | remove peer =>
    obtain ⟨ps', hrem, hps', -⟩ := remove_spec h peer
    exact ⟨ps', hrem, hps'⟩

theorem run_indexed (h : Indexed ps) (calls : List PeerSet.Call) :
    ∃ ps', ps.run calls = .ok ps' ∧ Indexed ps' :=
  foldlM_succeeds (fun _ call _ hs => step_indexed hs call) h

/-- What a caller relies on: one peer for each key, and the table says where it stands. -/
structure Represents (ps : PeerSet) : Prop where
  nodup : (ps.list.map Peer.key).Nodup
  mem_lookup_iff : ∀ key, key ∈ ps.lookup ↔ key ∈ ps.list.map Peer.key
  place : ∀ i peer, ps.list[i]? = some peer → ps.lookup.lookup peer.key = some ⟨peer, i⟩
  size_eq : ps.size = ps.lookup.keys.length

theorem Indexed.mem_lookup_iff (h : Indexed ps) (key : Str) :
    key ∈ ps.lookup ↔ key ∈ ps.list.map Peer.key := by
  rw [← AList.lookup_isSome, h.lookup_isSome_iff, List.mem_map]

theorem Indexed.nodup (h : Indexed ps) : (ps.list.map Peer.key).Nodup := by
  rw [List.nodup_iff_injective_get]
  intro i j hkey
  have hi : i.1 < ps.list.length := by simpa using i.2
  have hj : j.1 < ps.list.length := by simpa using j.2
  refine Fin.ext (h.place_inj (List.getElem?_eq_getElem hi) (List.getElem?_eq_getElem hj) ?_)
  simpa using hkey

/-- The keys of the table are the keys of the list in some order. -/
theorem Indexed.keys_perm (h : Indexed ps) : (ps.list.map Peer.key).Perm ps.lookup.keys := by
  rw [List.perm_ext_iff_of_nodup h.nodup ps.lookup.keys_nodup]
  intro key
  rw [← h.mem_lookup_iff, AList.mem_keys]

theorem Indexed.represents (h : Indexed ps) : Represents ps where
  nodup := h.nodup
  mem_lookup_iff := h.mem_lookup_iff
  place i peer hget := (h peer.key ⟨peer, i⟩).mpr ⟨hget, rfl⟩
  size_eq := by
    have hlen := h.keys_perm.length_eq
    rwa [List.length_map] at hlen

/-- `Add` fails exactly when the key is present, and then changes nothing. -/
theorem add_fails_iff (h : Indexed ps) (peer : Peer) :
    (peer.key ∈ ps.lookup → ps.add peer = (ps, some RootErr.errDuplicatePeer.err)) ∧
    (peer.key ∉ ps.lookup → (ps.add peer).2 = none ∧
      (ps.add peer).1.list = ps.list ++ [peer]) := by
  have hmem : peer.key ∈ ps.lookup ↔ ∃ q ∈ ps.list, q.key = peer.key := by
    rw [h.mem_lookup_iff, List.mem_map]
  rcases add_spec h peer with ⟨hdup, heq⟩ | ⟨hfree, hnone, hlist, -⟩
  · exact ⟨fun _ => heq, fun hnot => absurd (hmem.mpr hdup) hnot⟩
  · refine ⟨fun hin => ?_, fun _ => ⟨hnone, hlist⟩⟩
    obtain ⟨q, hq, hkey⟩ := hmem.mp hin
    exact absurd hkey (hfree q hq)

end

/-- After any calls the table and the list agree. From there `Add` fails exactly on a key
that is present, and `Remove` takes out exactly the entry with the key of the peer. -/
theorem peerSet_representation (calls : List PeerSet.Call) :
    ∃ ps, PeerSet.new.run calls = .ok ps ∧ Represents ps ∧
      (∀ peer, (peer.key ∈ ps.lookup →
          ps.add peer = (ps, some RootErr.errDuplicatePeer.err)) ∧
        (peer.key ∉ ps.lookup → (ps.add peer).2 = none ∧
          (ps.add peer).1.list = ps.list ++ [peer])) ∧
      ∀ peer, ∃ ps', ps.remove peer = .ok ps' ∧
        ∀ key, ps'.get key = if key = peer.key then none else ps.get key := by
  obtain ⟨ps, hrun, hps⟩ := run_indexed indexed_new calls
  refine ⟨ps, hrun, hps.represents, add_fails_iff hps, fun peer => ?_⟩
  obtain ⟨ps', hrem, -, hget⟩ := remove_spec hps peer
  exact ⟨ps', hrem, hget⟩

end BtmStats.Proofs.P2p
