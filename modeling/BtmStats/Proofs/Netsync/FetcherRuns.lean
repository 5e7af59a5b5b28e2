import BtmStats.Proofs.Netsync.Fetcher
import BtmStats.Proofs.Protocol.ForkChoice

/-!
# `BtmStats.Proofs.Netsync.FetcherRuns`: what the fetcher keeps

`queued` should have the hashes of the blocks in the queue. A block that is passed to
`insert` leaves the queue and stays in `queued`, for good (`import_stays_queued`). So the
two agree exactly as long as nothing is imported (`queued_exact_iff`).

The inner loop compares with a height that was read before it. A block that an import makes
the next one is put back all the same (`import_leaves_next_block`). At the `select` all
blocks in the queue are too high if no import reaches up to one of them
(`nothing_importable`).
-/

set_option autoImplicit false

namespace BtmStats.Proofs.Netsync

open Lib Spec Spec.Collections Spec.Netsync Spec.Netsync.Fetcher Proofs.Collections
open Spec.Bc (Hash)
open Spec.Types (Block)
open Proofs.Protocol (blockAt genesisBlock nonceHash)

section
variable {γ : Type} {api : FetcherApi γ} {st st' : State γ} {e : Event}

/-! ### The set of queued blocks -/

section
variable (api)

/-- `queued` has the hashes of the blocks in the queue, which are all different. -/
def QueuedExact (f : Fetcher) : Prop :=
  (∀ h, h ∈ f.queued ↔ h ∈ (values f.queue).map (hashOf api)) ∧
    ((values f.queue).map (hashOf api)).Nodup

/-- `queued` has a hash that no block in the queue has. -/
def Leaks (f : Fetcher) : Prop := ∃ h, h ∈ f.queued ∧ h ∉ (values f.queue).map (hashOf api)

/-- The step imports no block: it takes none from the queue, or one that is too high, known
to the chain, or not a child of the best block. -/
def NoImport (st : State γ) (e : Event) : Prop := stepImport api st e = none

instance (st : State γ) (e : Event) : Decidable (NoImport api st e) :=
  decidable_of_iff ((stepImport api st e).isNone = true) Option.isNone_iff_eq_none

end

theorem Leaks.not_exact {f : Fetcher} (h : Leaks api f) : ¬ QueuedExact api f := by
  rintro ⟨hsame, -⟩
  obtain ⟨x, hin, hout⟩ := h
  exact hout ((hsame x).mp hin)

theorem QueuedExact.perm {f f' : Fetcher} (h : QueuedExact api f)
    (hqueued : f'.queued = f.queued) (hperm : (values f'.queue).Perm (values f.queue)) :
    QueuedExact api f' := by
  have hmap := hperm.map (hashOf api)
  refine ⟨fun x => ?_, hmap.nodup_iff.mpr h.2⟩
  rw [hqueued, h.1 x, hmap.mem_iff]

theorem queuedExact_enqueue {f : Fetcher} (h : QueuedExact api f)
    (hprio : Prioritised prioOf f.queue) {op : BlockPending} (hnot : hashOf api op ∉ f.queued) :
    QueuedExact api ⟨pushBlock f.queue op, f.queued.insert (hashOf api op) op⟩ := by
  have hmap := (push_spec hprio op).2.map (hashOf api)
  refine ⟨fun x => ?_, hmap.nodup_iff.mpr (List.nodup_cons.mpr ⟨?_, h.2⟩)⟩
  · rw [AList.mem_insert, h.1 x]
    exact (hmap.mem_iff.trans List.mem_cons).symm
  · rw [← h.1]
    exact hnot

/-- A block leaves the queue and is forgotten. -/
theorem queuedExact_forget {f : Fetcher} (h : QueuedExact api f) {op : BlockPending}
    {queue : Prque BlockPending} (hperm : (values f.queue).Perm (op :: values queue)) :
    QueuedExact api (Fetcher.forgetBlock { f with queue } (hashOf api op)) := by
  have hmap := hperm.map (hashOf api)
  obtain ⟨hout, hnodup⟩ := List.nodup_cons.mp (hmap.nodup_iff.mp h.2)
  refine ⟨fun x => ?_, hnodup⟩
  show x ∈ f.queued.erase (hashOf api op) ↔ x ∈ (values queue).map (hashOf api)
  rw [AList.mem_erase, h.1 x, hmap.mem_iff, List.map_cons, List.mem_cons]
  constructor
  · rintro ⟨hne, rfl | hmem⟩
    · exact absurd rfl hne
    · exact hmem
  · intro hmem
    exact ⟨fun heq => hout (heq ▸ hmem), .inr hmem⟩

/-- A step without an import keeps `queued` exact. -/
theorem queuedExact_step (hprio : Prioritised prioOf st.fetcher.queue)
    (h : QueuedExact api st.fetcher) (hstep : st.step api e = .ok st') (hno : NoImport api st e) :
    QueuedExact api st'.fetcher := by
  have heffect := (effect_of_step hprio hstep).2
  rw [hno] at heffect
  cases heffect with
  | read => exact h
  | discard => exact h
  | quit => exact h
  | idle => exact h
  | enqueue op hphase hnot => exact queuedExact_enqueue h hprio hnot
  | iterate height hphase imp f' chain' more hiter =>
    cases hiter with
    | empty => exact h
    | tooHigh op queue hmem hmax hheight hperm => exact h.perm rfl hperm
    | forgotten op queue hperm => exact queuedExact_forget h hperm

/-- An import leaves its hash in `queued`. -/
theorem leaks_of_import (hprio : Prioritised prioOf st.fetcher.queue)
    (h : QueuedExact api st.fetcher) (hstep : st.step api e = .ok st')
    (himport : ¬ NoImport api st e) : Leaks api st'.fetcher := by
  obtain ⟨⟨op, queue⟩, himport⟩ := Option.ne_none_iff_exists'.mp himport
  have heffect := (effect_of_step hprio hstep).2
  rw [himport] at heffect
  cases heffect with
  | iterate height hphase imp f' chain' more hiter =>
    cases hiter with
    | imported op queue hperm =>
      have hmap := hperm.map (hashOf api)
      refine ⟨hashOf api op, ?_, (List.nodup_cons.mp (hmap.nodup_iff.mp h.2)).1⟩
      exact (h.1 _).mpr (hmap.mem_iff.mpr List.mem_cons_self)

/-- The hash stays there: `enqueue` refuses it, and no block has it that could be
forgotten. -/
theorem leaks_step (hprio : Prioritised prioOf st.fetcher.queue) (h : Leaks api st.fetcher)
    (hstep : st.step api e = .ok st') : Leaks api st'.fetcher := by
  have heffect := (effect_of_step hprio hstep).2
  generalize stepImport api st e = imp at heffect
  obtain ⟨x, hin, hout⟩ := h
  cases heffect with
  | read => exact ⟨x, hin, hout⟩
  | discard => exact ⟨x, hin, hout⟩
  | quit => exact ⟨x, hin, hout⟩
  | idle => exact ⟨x, hin, hout⟩
  | enqueue op hphase hnot =>
    refine ⟨x, (AList.mem_insert _).mpr (.inr hin), fun hmem => ?_⟩
    have hmap := (push_spec hprio op).2.map (hashOf api)
    rcases List.mem_cons.mp (hmap.mem_iff.mp hmem) with rfl | hmem
    · exact hnot hin
    · exact hout hmem
  | iterate height hphase imp f' chain' more hiter =>
    cases hiter with
    | empty => exact ⟨x, hin, hout⟩
    | tooHigh op queue hmem hmax hheight hperm =>
      exact ⟨x, hin, fun hmem => hout ((hperm.map (hashOf api)).mem_iff.mp hmem)⟩
    | forgotten op queue hperm =>
      have hmap := hperm.map (hashOf api)
      refine ⟨x, AList.mem_erase.mpr ⟨?_, hin⟩, fun hmem =>
        hout (hmap.mem_iff.mpr (List.mem_cons_of_mem _ hmem))⟩
      rintro rfl
      exact hout (hmap.mem_iff.mpr List.mem_cons_self)
    | imported op queue hperm =>
      exact ⟨x, hin, fun hmem =>
        hout ((hperm.map (hashOf api)).mem_iff.mpr (List.mem_cons_of_mem _ hmem))⟩

/-- After any run `queued` has exactly the hashes of the blocks in the queue if and only if
the run has imported no block. The goroutine can always go on to its `select`. -/
theorem queued_exact_iff (api : FetcherApi γ) (chain : γ) (events : List Event) :
    ∃ st, (State.start chain).run api events = .ok st ∧
      (QueuedExact api st.fetcher ↔
        Along (State.step api) (NoImport api) (State.start chain) events) ∧
      (st.phase ≠ .returned →
        ∃ n st', st.run api (List.replicate n .next) = .ok st' ∧ st'.phase = .select) := by
  obtain ⟨st, hrun, hprio⟩ := fetcher_run_ok api (.start chain) prioritised_new events
  have hexact : QueuedExact api (State.start chain).fetcher :=
    ⟨fun h => iff_of_false (AList.notMem_empty h) List.not_mem_nil, List.nodup_nil⟩
  refine ⟨st, hrun, ?_, fun hphase => reaches_select api hprio hphase⟩
  exact last_iff_along (Q := fun st => Prioritised prioOf st.fetcher.queue)
    (fun _ _ _ hQ hstep => (effect_of_step hQ hstep).1)
    (fun _ _ _ hQ hP hstep hC => queuedExact_step hQ hP hstep hC)
    (fun _ _ _ hQ hP hstep hC => leaks_of_import hQ hP hstep hC)
    (fun _ _ _ hQ hB hstep => leaks_step hQ hB hstep) (fun _ hB => hB.not_exact)
    prioritised_new hexact hrun

/-! ### Blocks that could be imported -/

/-- Only the imports of the fetcher change the chain, whose height is `best`. -/
structure OnlyImports (api : FetcherApi γ) (best : γ → UInt64) : Prop where
  bestBlockHeight : ∀ chain, api.bestBlockHeight chain = (best chain, chain)
  bestBlockHash : ∀ chain, (api.bestBlockHash chain).2 = chain
  getBlockByHash : ∀ chain hash, (api.getBlockByHash chain hash).2 = chain

variable {best : γ → UInt64}

section
variable (best)

/-- Every block in the queue is too high to be imported now. -/
def NothingImportable (st : State γ) : Prop :=
  ∀ op ∈ values st.fetcher.queue, best st.chain + 1 < heightOf op

instance (st : State γ) : Decidable (NothingImportable best st) :=
  inferInstanceAs (Decidable (∀ op ∈ _, _))

/-- At the `select` nothing can be imported. In the inner loop, every block in the queue
is low enough for the height that was read, or too high for the height of the chain. -/
def OnPace (st : State γ) : Prop :=
  match st.phase with
  | .inner height => ∀ op ∈ values st.fetcher.queue,
      height + 1 < heightOf op → best st.chain + 1 < heightOf op
  | .select => NothingImportable best st
  | .outer | .returned => True

/-- If the step imports a block, then every block that is left in the queue is low enough
for the height that was read, or too high for the new height of the chain. -/
def KeepsPace (api : FetcherApi γ) (st : State γ) (e : Event) : Prop :=
  match st.phase, stepImport api st e with
  | .inner height, some (op, queue) => ∀ op' ∈ values queue,
      height + 1 < heightOf op' → best (afterImport api st.chain op) + 1 < heightOf op'
  | _, _ => True

instance (api : FetcherApi γ) (st : State γ) (e : Event) : Decidable (KeepsPace best api st e) := by
  unfold KeepsPace
  split <;> infer_instance

end

/-- A block of a height that `float32` has exactly. -/
def LowHeight (op : BlockPending) : Prop := (heightOf op).toNat < 2 ^ 24

instance (op : BlockPending) : Decidable (LowHeight op) := inferInstanceAs (Decidable (_ < _))

/-- The invariant for blocks of low heights. -/
structure LowQueue (st : State γ) : Prop where
  prioritised : Prioritised prioOf st.fetcher.queue
  low : ∀ op ∈ values st.fetcher.queue, LowHeight op

/-- For low heights the order of the priorities is the order of the heights. -/
theorem heightOf_le_of_prioOf_le {op q : BlockPending} (hop : LowHeight op) (hq : LowHeight q)
    (hle : prioOf q ≤ prioOf op) : heightOf op ≤ heightOf q := by
  unfold prioOf at hle
  rw [show toFloat32 q.block.blockHeader.height = _ from toFloat32_of_lt hq,
    show toFloat32 op.block.blockHeader.height = _ from toFloat32_of_lt hop] at hle
  rw [UInt64.le_iff_toNat_le]
  unfold heightOf
  omega

/-- The heights in the queue stay low. -/
theorem lowQueue_step (h : LowQueue st)
    (hlow : ∀ op, e = .newMinedBlock op → LowHeight op) (hstep : st.step api e = .ok st') :
    LowQueue st' := by
  obtain ⟨hprio, heffect⟩ := effect_of_step h.prioritised hstep
  refine ⟨hprio, ?_⟩
  generalize stepImport api st e = imp at heffect
  cases heffect with
  | read => exact h.low
  | discard => exact h.low
  | quit => exact h.low
  | idle => exact h.low
  | enqueue op hphase hnot =>
    intro q hq
    rcases List.mem_cons.mp ((push_spec h.prioritised op).2.mem_iff.mp hq) with rfl | hq
    · exact hlow _ rfl
    · exact h.low q hq
  | iterate height hphase imp f' chain' more hiter =>
    cases hiter with
    | empty => exact h.low
    | tooHigh op queue hmem hmax hheight hperm => exact fun q hq => h.low q (hperm.mem_iff.mp hq)
    | forgotten op queue hperm =>
      exact fun q hq => h.low q (hperm.mem_iff.mpr (List.mem_cons_of_mem op hq))
    | imported op queue hperm =>
      exact fun q hq => h.low q (hperm.mem_iff.mpr (List.mem_cons_of_mem op hq))

/-- The loop stays on pace in exactly the steps that keep it. -/
theorem keepsPace_exact (hapi : OnlyImports api best) (h : LowQueue st) (hpace : OnPace best st)
    (hstep : st.step api e = .ok st') : OnPace best st' ↔ KeepsPace best api st e := by
  have heffect := (effect_of_step h.prioritised hstep).2
  cases himport : stepImport api st e with
  | none =>
    have hkeeps : KeepsPace best api st e := by
      rw [KeepsPace, himport]
      cases st.phase <;> trivial
    refine iff_of_true ?_ hkeeps
    rw [himport] at heffect
    obtain ⟨f, chain, phase⟩ := st
    cases heffect with
    | read hphase =>
      rw [hapi.bestBlockHeight]
      exact fun op _ hheight => hheight
    | discard => trivial
    | enqueue => trivial
    | quit => trivial
    | idle => exact hpace
    | iterate height hphase imp f' chain' more hiter =>
      cases hphase
      cases hiter with
      | empty hnil =>
        intro op hop
        rw [hnil] at hop
        cases hop
      | tooHigh op queue hmem hmax hheight hperm =>
        -- The block that goes back is the lowest one, so all blocks are above the
        -- height that was read.
        intro q hq
        have hq := hperm.mem_iff.mp hq
        have hle := heightOf_le_of_prioOf_le (h.low op hmem) (h.low q hq) (hmax q hq)
        exact hpace q hq (UInt64.lt_of_lt_of_le hheight hle)
      | forgotten op queue hperm chain' hchain =>
        have hsame : chain' = chain := by
          rcases hchain with rfl | rfl
          · exact hapi.getBlockByHash _ _
          · exact (hapi.bestBlockHash _).trans (hapi.getBlockByHash _ _)
        rw [hsame]
        exact fun q hq => hpace q (hperm.mem_iff.mpr (List.mem_cons_of_mem op hq))
  | some taken =>
    rw [himport] at heffect
    rw [KeepsPace, himport]
    cases heffect with
    | iterate height hphase imp f' chain' more hiter =>
      rw [hphase]
      cases hiter with
      | imported op queue hperm => exact Iff.rfl

/-- At the `select` every block in the queue is too high to be imported, in a run in which
every import keeps the pace. The condition is what keeps the inner loop on pace. -/
theorem nothing_importable (api : FetcherApi γ) (best : γ → UInt64) (hapi : OnlyImports api best)
    (chain : γ) (events : List Event)
    (hlow : ∀ op, Event.newMinedBlock op ∈ events → LowHeight op) :
    (∃ st, (State.start chain).run api events = .ok st ∧ (st.phase ≠ .returned →
      ∃ n st', st.run api (List.replicate n .next) = .ok st' ∧ st'.phase = .select)) ∧
    (Along (State.step api) (KeepsPace best api) (State.start chain) events →
      Always (State.step api) (fun st => st.phase = .select → NothingImportable best st)
        (State.start chain) events) ∧
    (Always (State.step api) (OnPace best) (State.start chain) events ↔
      Along (State.step api) (KeepsPace best api) (State.start chain) events) := by
  have hexact : Always (State.step api) (OnPace best) (State.start chain) events ↔
      Along (State.step api) (KeepsPace best api) (State.start chain) events :=
    always_iff_along (Q := LowQueue)
      (fun _ _ e he hQ hstep => lowQueue_step hQ (fun op heq => hlow op (heq ▸ he)) hstep)
      (fun _ _ _ _ hQ hP hstep => keepsPace_exact hapi hQ hP hstep) ⟨prioritised_new, nofun⟩ trivial
  refine ⟨?_, fun halong => (hexact.mpr halong).mono fun st hpace hphase => ?_, hexact⟩
  · obtain ⟨st, hrun, hprio⟩ := fetcher_run_ok api (.start chain) prioritised_new events
    exact ⟨st, hrun, fun hphase => reaches_select api hprio hphase⟩
  · rw [OnPace, hphase] at hpace
    exact hpace

end

/-! ### A chain in a list -/

/-- The height of a chain that is the list of its blocks, the best one first. -/
def listHeight (chain : List Block) : UInt64 := (chain.headD genesisBlock).blockHeader.height

/-- Such a chain, that accepts every block or none. -/
def listApi (accepts : Bool) : FetcherApi (List Block) where
  hash := nonceHash
  string := Hash.bytes
  bestBlockHeight chain := (listHeight chain, chain)
  bestBlockHash chain := (nonceHash (chain.headD genesisBlock).blockHeader, chain)
  getBlockByHash chain hash := (chain.find? fun b => decide (nonceHash b.blockHeader = hash), chain)
  processBlock chain b :=
    if accepts then ((false, none), b :: chain)
    else ((false, some (RootErr.errorf "invalid block").err), chain)

theorem listApi_onlyImports (accepts : Bool) : OnlyImports (listApi accepts) listHeight :=
  ⟨fun _ => rfl, fun _ => rfl, fun _ _ => rfl⟩

/-- A block on top of the one of height `height - 1`. -/
def chainBlock (height : UInt64) : BlockPending := ⟨[], blockAt height height (height - 1) 0⟩

/-- A block comes in, and the goroutine goes on for `n` steps. -/
def comesIn (height : UInt64) (n : Nat) : List Event :=
  .newMinedBlock (chainBlock height) :: List.replicate n .next

/-- The import of a block fails, and the block comes in once more. -/
def rejectedEvents : List Event := [.next, .next] ++ comesIn 1 3 ++ comesIn 1 2

/-- The block is not queued again: its hash has stayed in `queued`. -/
theorem import_stays_queued :
    ∃ st, (State.start [genesisBlock]).run (listApi false) rejectedEvents = .ok st ∧
      st.phase = .select ∧ values st.fetcher.queue = [] ∧
      hashOf (listApi false) (chainBlock 1) ∈ st.fetcher.queued ∧
      ¬ QueuedExact (listApi false) st.fetcher := by
  have hrun : ∃ st, (State.start [genesisBlock]).run (listApi false) rejectedEvents = .ok st ∧
      st.phase = .select ∧ values st.fetcher.queue = [] ∧
      hashOf (listApi false) (chainBlock 1) ∈ st.fetcher.queued :=
    ⟨_, rfl, rfl, rfl, by decide⟩
  obtain ⟨st, hst, hphase, hnil, hin⟩ := hrun
  refine ⟨st, hst, hphase, hnil, hin, Leaks.not_exact ⟨_, hin, ?_⟩⟩
  rw [hnil]
  exact List.not_mem_nil

/-- The block of height 2 comes before the block of height 1. -/
def reversedEvents : List Event := [.next, .next] ++ comesIn 2 2 ++ comesIn 1 3

/-- The block of height 1 is imported, and the block of height 2 is put back. -/
theorem import_leaves_next_block :
    OnlyImports (listApi true) listHeight ∧
    (∀ op, Event.newMinedBlock op ∈ reversedEvents → LowHeight op) ∧
    (∃ st, (State.start [genesisBlock]).run (listApi true) reversedEvents = .ok st ∧
      st.phase = .select ∧ st.chain.map (·.blockHeader.height) = [1, 0] ∧
      (values st.fetcher.queue).map heightOf = [2]) ∧
    ¬ Always (State.step (listApi true)) (fun st => st.phase = .select →
      NothingImportable listHeight st)
      (State.start [genesisBlock]) reversedEvents := by
  have hrun : ∃ st, (State.start [genesisBlock]).run (listApi true) reversedEvents = .ok st ∧
      st.phase = .select ∧ st.chain.map (·.blockHeader.height) = [1, 0] ∧
      (values st.fetcher.queue).map heightOf = [2] ∧ ¬ NothingImportable listHeight st :=
    ⟨_, rfl, rfl, by decide, by decide, by decide⟩
  obtain ⟨st, hst, hphase, hchain, hqueue, hnot⟩ := hrun
  refine ⟨listApi_onlyImports true, ?_, ⟨st, hst, hphase, hchain, hqueue⟩, fun halways =>
    hnot (halways.last hst hphase)⟩
  simp [reversedEvents, comesIn, chainBlock, LowHeight, heightOf, blockAt]

/-- A block far above comes first, and then the blocks of heights 1 and 2 in their order. -/
def orderedEvents : List Event := [.next, .next] ++ comesIn 9 2 ++ comesIn 1 3 ++ comesIn 2 3

/-- Blocks that come in order are imported, and the high one waits. -/
theorem ordered_blocks_imported :
    (∃ st, (State.start [genesisBlock]).run (listApi true) orderedEvents = .ok st ∧
      st.phase = .select ∧ st.chain.map (·.blockHeader.height) = [2, 1, 0] ∧
      (values st.fetcher.queue).map heightOf = [9]) ∧
    Always (State.step (listApi true)) (fun st => st.phase = .select →
      NothingImportable listHeight st)
      (State.start [genesisBlock]) orderedEvents := by
  have hlow : ∀ op, Event.newMinedBlock op ∈ orderedEvents → LowHeight op := by
    simp [orderedEvents, comesIn, chainBlock, LowHeight, heightOf, blockAt]
  exact ⟨⟨_, rfl, rfl, by decide, by decide⟩,
    (nothing_importable (listApi true) listHeight (listApi_onlyImports true) [genesisBlock]
      orderedEvents hlow).2.1 (by decide)⟩

end BtmStats.Proofs.Netsync
