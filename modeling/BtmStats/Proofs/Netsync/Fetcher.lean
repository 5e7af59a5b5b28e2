import BtmStats.Lib.Runs
import BtmStats.Proofs.Collections.Prque
import BtmStats.Spec.Netsync.Fetcher

/-!
# `BtmStats.Proofs.Netsync.Fetcher`: steps of the fetcher

What one iteration of the inner loop does is said once (`Iteration`, `importNext_iteration`),
and so is what `enqueue` does (`enqueue_cases`). No step panics (`step_effect`), and the
inner loop ends: the goroutine gets to its `select` (`reaches_select`).
-/

set_option autoImplicit false

namespace BtmStats.Proofs.Netsync

open Lib Spec Spec.Collections Spec.Netsync Spec.Netsync.Fetcher Proofs.Collections
open Spec.Bc (Hash)

/-- The priority of a block in the queue. -/
def prioOf (op : BlockPending) : Int := -(toFloat32 op.block.blockHeader.height : Int)

def heightOf (op : BlockPending) : UInt64 := op.block.blockHeader.height

section
variable {γ : Type} (api : FetcherApi γ)

def hashOf (op : BlockPending) : Hash := api.hash op.block.blockHeader

/-- The chain after the first question of an iteration, whether it has the block. -/
def afterLookup (chain : γ) (op : BlockPending) : γ :=
  (api.getBlockByHash chain (hashOf api op)).2

/-- The chain after the second question, for its best block. -/
def afterQuestions (chain : γ) (op : BlockPending) : γ :=
  (api.bestBlockHash (afterLookup api chain op)).2

/-- The chain does not have the block, and its best block is the parent. These are the
blocks that the inner loop passes to `insert`. -/
def Imports (chain : γ) (op : BlockPending) : Prop :=
  ¬ (api.getBlockByHash chain (hashOf api op)).1.isSome = true ∧
    api.string op.block.blockHeader.previousBlockHash =
      api.string (api.bestBlockHash (afterLookup api chain op)).1

instance (chain : γ) (op : BlockPending) : Decidable (Imports api chain op) :=
  inferInstanceAs (Decidable (_ ∧ _))

/-- The chain after the import of a block. -/
def afterImport (chain : γ) (op : BlockPending) : γ :=
  (api.processBlock (afterQuestions api chain op) op.block).2

/-- The block that an iteration of the inner loop imports, and the queue that it leaves. -/
def importOf (height : UInt64) (f : Fetcher) (chain : γ) :
    Option (BlockPending × Prque BlockPending) :=
  match f.queue.popItem with
  | .ok (op, queue) =>
    if height + 1 < heightOf op ∨ ¬ Imports api chain op then none else some (op, queue)
  | .error _ => none

/-- What an iteration of the inner loop does, with the block that it imports. -/
inductive Iteration (height : UInt64) (f : Fetcher) (chain : γ) :
    Option (BlockPending × Prque BlockPending) → Fetcher → γ → Bool → Prop where
  | empty (hnil : values f.queue = []) : Iteration height f chain none f chain false
  /-- The block goes back into the queue. -/
  | tooHigh (op : BlockPending) (queue : Prque BlockPending) (hmem : op ∈ values f.queue)
      (hmax : ∀ q ∈ values f.queue, prioOf q ≤ prioOf op) (hheight : height + 1 < heightOf op)
      (hperm : (values queue).Perm (values f.queue)) :
      Iteration height f chain none { f with queue } chain false
  | forgotten (op : BlockPending) (queue : Prque BlockPending)
      (hperm : (values f.queue).Perm (op :: values queue)) (chain' : γ)
      (hchain : chain' = afterLookup api chain op ∨ chain' = afterQuestions api chain op) :
      Iteration height f chain none (Fetcher.forgetBlock { f with queue } (hashOf api op)) chain'
        true
  | imported (op : BlockPending) (queue : Prque BlockPending)
      (hperm : (values f.queue).Perm (op :: values queue)) :
      Iteration height f chain (some (op, queue)) { f with queue } (afterImport api chain op) true

end

section
variable {γ : Type} (api : FetcherApi γ)

/-- The inner loop pops a block, and imports it, drops it or puts it back. -/
theorem importNext_iteration {f : Fetcher} (h : Prioritised prioOf f.queue) (height : UInt64)
    (chain : γ) :
    ∃ f' chain' more, importNext api height f chain = .ok (f', chain', more) ∧
      Prioritised prioOf f'.queue ∧
      Iteration api height f chain (importOf api height f chain) f' chain' more := by
  unfold importNext importOf
  by_cases hempty : f.queue.empty = true
  · rw [if_pos hempty, popItem_of_empty hempty]
    exact ⟨f, chain, false, rfl, h, .empty (empty_iff.mp hempty)⟩
  rw [if_neg hempty]
  obtain ⟨op, queue, hpop, hqueue, hperm, hmax⟩ := popItem_spec h (Bool.not_eq_true _ ▸ hempty)
  rw [hpop]
  show ∃ f' chain' more, (if height + 1 < heightOf op then _ else _) = _ ∧ _ ∧
    Iteration api height f chain
      (if height + 1 < heightOf op ∨ ¬ Imports api chain op then none else some (op, queue)) _ _ _
  by_cases hheight : height + 1 < heightOf op
  · obtain ⟨hpush, hback⟩ := push_spec hqueue op
    rw [if_pos hheight, if_pos (.inl hheight)]
    exact ⟨_, _, _, rfl, hpush, .tooHigh op _ (hperm.mem_iff.mpr List.mem_cons_self) hmax hheight
      (hback.trans hperm.symm)⟩
  rw [if_neg hheight]
  show ∃ f' chain' more,
    (if (api.getBlockByHash chain (hashOf api op)).1.isSome = true then _ else _) = _ ∧ _
  by_cases hknown : (api.getBlockByHash chain (hashOf api op)).1.isSome = true
  · rw [if_pos hknown, if_pos (.inr fun himport => himport.1 hknown)]
    exact ⟨_, _, _, rfl, hqueue, .forgotten op queue hperm _ (.inl rfl)⟩
  rw [if_neg hknown]
  show ∃ f' chain' more, (if api.string op.block.blockHeader.previousBlockHash ≠
    api.string (api.bestBlockHash (afterLookup api chain op)).1 then _ else _) = _ ∧ _
  by_cases hparent : api.string op.block.blockHeader.previousBlockHash =
      api.string (api.bestBlockHash (afterLookup api chain op)).1
  · have himport : Imports api chain op := ⟨hknown, hparent⟩
    rw [if_neg (not_not.mpr hparent), if_neg (not_or.mpr ⟨hheight, not_not.mpr himport⟩)]
    exact ⟨_, _, _, rfl, hqueue, .imported op queue hperm⟩
  · rw [if_pos hparent, if_pos (.inr fun himport => hparent himport.2)]
    exact ⟨_, _, _, rfl, hqueue, .forgotten op queue hperm _ (.inr rfl)⟩

/-- `enqueue` leaves the fetcher alone, or adds a block that is not in `queued`. -/
theorem enqueue_cases (f : Fetcher) (chain : γ) (op : BlockPending) :
    f.enqueue api chain op.peerID op.block = (f, (api.bestBlockHeight chain).2) ∨
      (hashOf api op ∉ f.queued ∧ f.enqueue api chain op.peerID op.block =
        (⟨pushBlock f.queue op, f.queued.insert (hashOf api op) op⟩,
          (api.bestBlockHeight chain).2)) := by
  unfold enqueue
  dsimp only
  split
  · exact .inl rfl
  split
  · exact .inl rfl
  · next hnot => exact .inr ⟨hnot, rfl⟩

/-! ### Steps -/

/-- The block that a step imports, and the queue that it leaves. -/
def stepImport (st : State γ) (e : Event) : Option (BlockPending × Prque BlockPending) :=
  match st.phase, e with
  | .inner height, .next => importOf api height st.fetcher st.chain
  | _, _ => none

/-- What a step does, with the block that it imports. -/
inductive Effect (st : State γ) :
    Event → Option (BlockPending × Prque BlockPending) → State γ → Prop where
  | read (hphase : st.phase = .outer) :
      Effect st .next none
        ⟨st.fetcher, (api.bestBlockHeight st.chain).2, .inner (api.bestBlockHeight st.chain).1⟩
  | iterate (height : UInt64) (hphase : st.phase = .inner height)
      (imp : Option (BlockPending × Prque BlockPending)) (f' : Fetcher) (chain' : γ) (more : Bool)
      (hiter : Iteration api height st.fetcher st.chain imp f' chain' more) :
      Effect st .next imp ⟨f', chain', if more = true then .inner height else .select⟩
  | discard (op : BlockPending) (hphase : st.phase = .select) :
      Effect st (.newMinedBlock op) none ⟨st.fetcher, (api.bestBlockHeight st.chain).2, .outer⟩
  | enqueue (op : BlockPending) (hphase : st.phase = .select)
      (hnot : hashOf api op ∉ st.fetcher.queued) :
      Effect st (.newMinedBlock op) none
        ⟨⟨pushBlock st.fetcher.queue op, st.fetcher.queued.insert (hashOf api op) op⟩,
          (api.bestBlockHeight st.chain).2, .outer⟩
  | quit (hphase : st.phase = .select) : Effect st .quit none { st with phase := .returned }
  /-- The goroutine waits for an event, or is not there to take it. -/
  | idle (e : Event) (hidle : e = .next → st.phase = .select ∨ st.phase = .returned) :
      Effect st e none st

/-- What a step does to the queue and to `queued`. -/
theorem step_effect {st : State γ} (h : Prioritised prioOf st.fetcher.queue) (e : Event) :
    ∃ st', st.step api e = .ok st' ∧ Prioritised prioOf st'.fetcher.queue ∧
      Effect api st e (stepImport api st e) st' := by
  obtain ⟨f, chain, phase⟩ := st
  cases e with
  | next =>
    cases phase with
    | outer => exact ⟨_, rfl, h, .read rfl⟩
    | inner height =>
      obtain ⟨f', chain', more, hrun, h', hiter⟩ := importNext_iteration api h height chain
      refine ⟨_, ?_, h', .iterate height rfl _ f' chain' more hiter⟩
      show (importNext api height f chain >>= _) = _
      rw [hrun]
      rfl
    | select => exact ⟨_, rfl, h, .idle _ fun _ => .inl rfl⟩
    | returned => exact ⟨_, rfl, h, .idle _ fun _ => .inr rfl⟩
  | newMinedBlock op =>
    cases phase with
    | select =>
      have hstep : State.step api ⟨f, chain, .select⟩ (.newMinedBlock op) =
          .ok ⟨(f.enqueue api chain op.peerID op.block).1,
            (f.enqueue api chain op.peerID op.block).2, .outer⟩ := rfl
      rcases enqueue_cases api f chain op with heq | ⟨hnot, heq⟩
      · rw [heq] at hstep
        exact ⟨_, hstep, h, .discard op rfl⟩
      · rw [heq] at hstep
        exact ⟨_, hstep, (push_spec h op).1, .enqueue op rfl hnot⟩
    | outer => exact ⟨_, rfl, h, .idle _ nofun⟩
    | inner height => exact ⟨_, rfl, h, .idle _ nofun⟩
    | returned => exact ⟨_, rfl, h, .idle _ nofun⟩
  | quit =>
    cases phase with
    | select => exact ⟨_, rfl, h, .quit rfl⟩
    | outer => exact ⟨_, rfl, h, .idle _ nofun⟩
    | inner height => exact ⟨_, rfl, h, .idle _ nofun⟩
    | returned => exact ⟨_, rfl, h, .idle _ nofun⟩

/-- The same for a step that was taken. -/
theorem effect_of_step {api : FetcherApi γ} {st st' : State γ} {e : Event}
    (h : Prioritised prioOf st.fetcher.queue) (hstep : st.step api e = .ok st') :
    Prioritised prioOf st'.fetcher.queue ∧ Effect api st e (stepImport api st e) st' := by
  obtain ⟨st₁, hrun, h', heffect⟩ := step_effect api h e
  cases hrun.symm.trans hstep
  exact ⟨h', heffect⟩

theorem fetcher_run_ok (st : State γ) (h : Prioritised prioOf st.fetcher.queue)
    (events : List Event) :
    ∃ st', st.run api events = .ok st' ∧ Prioritised prioOf st'.fetcher.queue :=
  foldlM_succeeds (P := fun st : State γ => Prioritised prioOf st.fetcher.queue)
    (fun st e _ hst => by
      obtain ⟨st', hrun, h', -⟩ := step_effect api hst e
      exact ⟨st', hrun, h'⟩) h

/-- Left to itself, the inner loop gets to the `select`: each iteration that goes on has
taken a block out of the queue. -/
theorem inner_reaches_select (st : State γ) {height : UInt64}
    (h : Prioritised prioOf st.fetcher.queue) (hphase : st.phase = .inner height) :
    ∃ n st', st.run api (List.replicate n .next) = .ok st' ∧ st'.phase = .select := by
  obtain ⟨k, hk⟩ : ∃ k, (values st.fetcher.queue).length = k := ⟨_, rfl⟩
  induction k using Nat.strongRecOn generalizing st with
  | ind k ih =>
    obtain ⟨st₁, hstep, h₁, heffect⟩ := step_effect api h .next
    have hrun : ∀ n, st.run api (List.replicate (n + 1) .next) =
        st₁.run api (List.replicate n .next) := by
      intro n
      rw [State.run, List.replicate_succ, List.foldlM_cons, hstep]
      rfl
    -- The loop stops here, or goes on with a shorter queue.
    have hnext : st₁.phase = .select ∨ (st₁.phase = .inner height ∧
        (values st₁.fetcher.queue).length < (values st.fetcher.queue).length) := by
      generalize stepImport api st .next = imp at heffect
      cases heffect with
      | read hout => cases hout.symm.trans hphase
      | idle _ hidle =>
        rcases hidle rfl with hsel | hret
        · cases hsel.symm.trans hphase
        · cases hret.symm.trans hphase
      | iterate height' hphase' _ f' chain' more hiter =>
        cases hphase'.symm.trans hphase
        cases hiter with
        | empty => exact .inl rfl
        | tooHigh => exact .inl rfl
        | forgotten op queue hperm =>
          exact .inr ⟨rfl, by rw [hperm.length_eq]; exact Nat.lt_succ_self _⟩
        | imported op queue hperm =>
          exact .inr ⟨rfl, by rw [hperm.length_eq]; exact Nat.lt_succ_self _⟩
    rcases hnext with hsel | ⟨hin, hlt⟩
    · exact ⟨1, st₁, hrun 0, hsel⟩
    · obtain ⟨n, st', hrest, hsel⟩ := ih _ (hk ▸ hlt) st₁ h₁ hin rfl
      exact ⟨n + 1, st', (hrun n).trans hrest, hsel⟩

/-- From every state the goroutine gets to its `select`, unless it has returned. -/
theorem reaches_select {st : State γ} (h : Prioritised prioOf st.fetcher.queue)
    (hphase : st.phase ≠ .returned) :
    ∃ n st', st.run api (List.replicate n .next) = .ok st' ∧ st'.phase = .select := by
  obtain ⟨f, chain, phase⟩ := st
  cases phase with
  | select => exact ⟨0, _, rfl, rfl⟩
  | returned => exact absurd rfl hphase
  | inner height => exact inner_reaches_select api _ h rfl
  | outer =>
    obtain ⟨n, st', hrun, hsel⟩ := inner_reaches_select api
      ⟨f, (api.bestBlockHeight chain).2, .inner (api.bestBlockHeight chain).1⟩ h rfl
    exact ⟨n + 1, st', hrun, hsel⟩

end

end BtmStats.Proofs.Netsync
