import BtmStats.Proofs.P2p.Switch

/-!
# `BtmStats.Proofs.P2p.Bans`: a ban lasts one hour, also over restarts

The map keeps only the last ban of a host, and drops it at the first check after its end.
Both are right because the clock does not go back: an earlier ban ends before the last
one, and what has ended once has ended for good. So the map answers every later check as
the whole history of bans does (`Tracks.lookup_iff`).

The database holds no value before the first ban. `NewSwitch` reads this as the empty
map, which is what the switch has then (`Tracks.stored`).
-/

set_option autoImplicit false

namespace BtmStats.Proofs.P2p.Bans

open Lib Spec Spec.P2p Spec.P2p.Bans
open Spec.Pex (AddrBook)

/-- `encoding/json` round-trips the map of bans. -/
def RoundTrips (json : BanJson) : Prop :=
  ∀ bans, ∃ datajson, json.marshal bans = .ok datajson ∧ json.unmarshal datajson = .ok bans

/-- A ban of the host that has not ended at time `t`. -/
def Banned (env : SwitchEnv) (events : List Event) (host : Str) (t : Int) : Prop :=
  ∃ peer s, .ban peer s ∈ events ∧ env.splitHost peer.nodeInfo.remoteAddr = host ∧
    t < s + defaultBanDuration

/-- The clock has read no later time than `t`. -/
def NotBefore (events : List Event) (t : Int) : Prop := ∀ s ∈ readings events, s ≤ t

/-- Some peer has been banned. -/
def SomeBan (events : List Event) : Prop := ∃ peer s, Event.ban peer s ∈ events

/-- The switch answers as the calls so far demand, and the database has its map. -/
structure Tracks (env : SwitchEnv) (events : List Event) (sw : Switch) : Prop where
  lookup_iff : ∀ host t, NotBefore events t →
    ((∃ banEnd, sw.bannedPeer.lookup host = some banEnd ∧ t < banEnd) ↔ Banned env events host t)
  stored : SomeBan events → ∃ datajson, sw.db = some datajson ∧
    env.json.marshal sw.bannedPeer = .ok datajson
  unstored : ¬ SomeBan events → sw.db = none ∧ sw.bannedPeer = ∅

section
variable {env : SwitchEnv} {events : List Event} {sw : Switch} {host : Str} {t now : Int}

/-! ### The history of bans -/

theorem banned_append_ban {peer : Peer} : Banned env (events ++ [.ban peer now]) host t ↔
    Banned env events host t ∨
      (env.splitHost peer.nodeInfo.remoteAddr = host ∧ t < now + defaultBanDuration) := by
  constructor
  · rintro ⟨p, s, hmem, hhost, hlt⟩
    rcases List.mem_append.mp hmem with hmem | hmem
    · exact .inl ⟨p, s, hmem, hhost, hlt⟩
    · cases List.mem_singleton.mp hmem
      exact .inr ⟨hhost, hlt⟩
  · rintro (⟨p, s, hmem, hrest⟩ | ⟨hhost, hlt⟩)
    · exact ⟨p, s, List.mem_append_left _ hmem, hrest⟩
    · exact ⟨peer, now, by simp, hhost, hlt⟩

theorem banned_append_of_ne {e : Event} (he : ∀ peer s, e ≠ .ban peer s) :
    Banned env (events ++ [e]) host t ↔ Banned env events host t := by
  refine exists_congr fun p => exists_congr fun s => and_congr_left fun _ => ?_
  rw [List.mem_append, List.mem_singleton]
  exact or_iff_left (he p s).symm

theorem someBan_append_of_ne {e : Event} (he : ∀ peer s, e ≠ .ban peer s) :
    SomeBan (events ++ [e]) ↔ SomeBan events := by
  refine exists_congr fun p => exists_congr fun s => ?_
  rw [List.mem_append, List.mem_singleton]
  exact or_iff_left (he p s).symm

theorem NotBefore.of_append {e : Event} (h : NotBefore (events ++ [e]) t) : NotBefore events t := by
  intro s hs
  apply h s
  simp only [readings, List.filterMap_append, List.mem_append] at hs ⊢
  exact .inl hs

theorem NotBefore.le_of_append {e : Event} (h : NotBefore (events ++ [e]) t)
    (he : e.time? = some now) : now ≤ t := by
  apply h now
  simp [readings, he]

/-- An earlier ban ends no later than one that begins now. -/
theorem Banned.lt_of_notBefore (h : Banned env events host t) (hnow : NotBefore events now) :
    t < now + defaultBanDuration := by
  obtain ⟨p, s, hmem, -, hlt⟩ := h
  have hs : s ≤ now := hnow s (List.mem_filterMap.mpr ⟨_, hmem, rfl⟩)
  omega

/-! ### One call -/

theorem storeBans_ok (hjson : RoundTrips env.json) (sw : Switch) (bans : BanMap) :
    ∃ datajson, env.json.marshal bans = .ok datajson ∧
      sw.storeBans env bans = ({ sw with bannedPeer := bans, db := some datajson }, none) := by
  obtain ⟨datajson, hdata, -⟩ := hjson bans
  refine ⟨datajson, hdata, ?_⟩
  rw [Switch.storeBans, hdata]

/-- A ban extends the history. -/
theorem Tracks.ban (hjson : RoundTrips env.json) (h : Tracks env events sw) (peer : Peer)
    (hnow : NotBefore events now) :
    Tracks env (events ++ [.ban peer now]) (sw.addBannedPeer env now peer).1 := by
  obtain ⟨datajson, hdata, hstore⟩ := storeBans_ok hjson sw
    (sw.bannedPeer.insert (env.splitHost peer.nodeInfo.remoteAddr) (now + defaultBanDuration))
  rw [Switch.addBannedPeer, hstore]
  refine ⟨fun host t ht => ?_, fun _ => ⟨datajson, rfl, hdata⟩, fun hnot => ?_⟩
  · rw [banned_append_ban, ← h.lookup_iff host t ht.of_append]
    by_cases hhost : host = env.splitHost peer.nodeInfo.remoteAddr
    · -- The new end is written over the old one, which is not later.
      subst hhost
      simp only [AList.lookup_insert, Option.some.injEq, exists_eq_left', true_and]
      refine ⟨.inr, fun hor => hor.elim (fun hold => ?_) id⟩
      exact ((h.lookup_iff _ t ht.of_append).mp hold).lt_of_notBefore hnow
    · simp only [AList.lookup_insert_ne hhost, Ne.symm hhost, false_and, or_false]
  · exact absurd ⟨peer, now, by simp⟩ hnot

theorem Tracks.of_same {e : Event} (he : ∀ peer s, e ≠ .ban peer s) (h : Tracks env events sw)
    {sw' : Switch} (hbans : sw'.bannedPeer = sw.bannedPeer) (hdb : sw'.db = sw.db) :
    Tracks env (events ++ [e]) sw' := by
  refine ⟨fun host t ht => ?_, fun hsome => ?_, fun hnone => ?_⟩
  · rw [hbans, banned_append_of_ne he]
    exact h.lookup_iff host t ht.of_append
  · rw [hbans, hdb]
    exact h.stored ((someBan_append_of_ne he).mp hsome)
  · rw [hbans, hdb]
    exact h.unstored fun hsome => hnone ((someBan_append_of_ne he).mpr hsome)

/-- A check keeps track, also when it deletes a ban that has ended. -/
theorem Tracks.check (hjson : RoundTrips env.json) (h : Tracks env events sw) (host : Str)
    (now : Int) : Tracks env (events ++ [.check host now]) (sw.checkBannedPeer env now host).1 := by
  have he : ∀ peer s, Event.check host now ≠ .ban peer s := fun _ _ heq => Event.noConfusion heq
  unfold Switch.checkBannedPeer
  cases hlook : sw.bannedPeer.lookup host with
  | none => exact h.of_same he rfl rfl
  | some banEnd =>
    dsimp only
    split
    · exact h.of_same he rfl rfl
    next hended =>
      obtain ⟨datajson, hdata, hstore⟩ := storeBans_ok hjson sw (sw.bannedPeer.erase host)
      rw [Switch.delBannedPeer, hstore]
      refine ⟨fun other t ht => ?_, fun _ => ⟨datajson, rfl, hdata⟩, fun hnot => ?_⟩
      · rw [banned_append_of_ne he, ← h.lookup_iff other t ht.of_append]
        by_cases hother : other = host
        · -- The entry that is dropped has ended, and the clock does not go back.
          subst hother
          have hle : now ≤ t := ht.le_of_append rfl
          simp only [AList.lookup_erase, hlook, Option.some.injEq, exists_eq_left', reduceCtorEq,
            false_and, exists_false, false_iff]
          omega
        · simp only [AList.lookup_erase_ne hother]
      · -- Without a ban there is no entry to drop.
        have hempty := (h.unstored fun hsome => hnot ((someBan_append_of_ne he).mpr hsome)).2
        rw [hempty, AList.lookup_empty] at hlook
        cases hlook

/-- The map comes back from the database. -/
theorem Tracks.restart (hjson : RoundTrips env.json) (h : Tracks env events sw)
    (nodeInfo : NodeInfo) (running : Bool) (addrBook : AddrBook) :
    ∃ sw', Switch.newSwitch env nodeInfo running addrBook sw.db = some sw' ∧
      Tracks env (events ++ [.restart nodeInfo running addrBook]) sw' := by
  have he : ∀ peer s, Event.restart nodeInfo running addrBook ≠ .ban peer s :=
    fun _ _ heq => Event.noConfusion heq
  by_cases hsome : SomeBan events
  · obtain ⟨datajson, hdb, hdata⟩ := h.stored hsome
    obtain ⟨datajson', hdata', hback⟩ := hjson sw.bannedPeer
    cases Except.ok.inj (hdata.symm.trans hdata')
    refine ⟨⟨nodeInfo, running, .new, addrBook, sw.bannedPeer, some datajson⟩, ?_, ?_⟩
    · rw [hdb, Switch.newSwitch]
      simp only [hback]
    · exact h.of_same he rfl hdb.symm
  · obtain ⟨hdb, hbans⟩ := h.unstored hsome
    refine ⟨⟨nodeInfo, running, .new, addrBook, ∅, none⟩, ?_, h.of_same he hbans.symm hdb.symm⟩
    rw [hdb]
    rfl

/-! ### Runs -/

end

end BtmStats.Proofs.P2p.Bans
