import Mathlib.Data.Finset.Max
import Mathlib.Data.Finset.SDiff

/-!
# `BtmStats.Lib.ForkChoice`: a tree of blocks that grows, and its best block

A `ForkTree` has a parent, a height and a total work for each block. Blocks are delivered
one at a time, in any order. A block whose parent is not known waits. A block whose parent
is known is attached, with all blocks that waited for it, and the highest block of this
batch is the candidate for the best block. `adopt` is the rule: a candidate is adopted when
its parent is the best block, or when it is higher than the best block and has no less
total work.

`Run.best_top` says where a run ends when the highest blocks also have the most work.
`exists_order_ending_at` is the converse: a block that no block of the tree replaces is
where some order ends. Together they decide whether the order matters.
-/

set_option autoImplicit false

namespace BtmStats.Lib

/-- A tree of blocks. A child is one higher than its parent and has more total work. -/
structure ForkTree (β : Type) where
  parent : β → Option β
  height : β → Nat
  work : β → Nat
  height_child : ∀ {b p}, parent b = some p → height b = height p + 1
  work_child : ∀ {b p}, parent b = some p → work p < work b

/-- What one party has: the blocks of its tree, the blocks that wait for a parent, and the
best block. -/
structure View (β : Type) where
  known : Finset β
  waiting : Finset β
  best : β

namespace ForkTree

variable {β : Type} [DecidableEq β] (t : ForkTree β)

/-- The best block after the candidate `a` is compared with it. -/
def adopt (best a : β) : β :=
  if t.parent a = some best then a
  else if t.height best < t.height a ∧ t.work best ≤ t.work a then a
  else best

/-- The blocks that are attached when `b` is delivered to `v`: `b` itself and the waiting
blocks that descend from it. None of the other waiting blocks has its parent among them. -/
structure Batch (v : View β) (b : β) (fresh : Finset β) : Prop where
  self_mem : b ∈ fresh
  waited : ∀ d ∈ fresh, d ≠ b → d ∈ v.waiting
  attached : ∀ d ∈ fresh, d ≠ b → ∃ q ∈ fresh, t.parent d = some q
  complete : ∀ w ∈ v.waiting, ∀ q ∈ fresh, t.parent w = some q → w ∈ fresh

/-- The delivery of one block. -/
inductive Deliver : View β → β → View β → Prop
  | seen {v : View β} {b : β} (h : b ∈ v.known ∨ b ∈ v.waiting) : Deliver v b v
  | wait {v : View β} {b : β} (hnew : b ∉ v.known ∧ b ∉ v.waiting)
      (hparent : ∀ p, t.parent b = some p → p ∉ v.known) :
      Deliver v b { v with waiting := insert b v.waiting }
  | attach {v : View β} {b p : β} (fresh : Finset β) (a : β)
      (hnew : b ∉ v.known ∧ b ∉ v.waiting) (hparent : t.parent b = some p)
      (hp : p ∈ v.known) (hfresh : t.Batch v b fresh) (ha : a ∈ fresh)
      (hmax : ∀ d ∈ fresh, t.height d ≤ t.height a) :
      Deliver v b ⟨v.known ∪ fresh, v.waiting \ fresh, t.adopt v.best a⟩

/-- The delivery of a list of blocks, in the order of the list. -/
inductive Run : View β → List β → View β → Prop
  | nil {v : View β} : Run v [] v
  | cons {v v₁ v₂ : View β} {b : β} {l : List β} (hb : t.Deliver v b v₁) (hl : Run v₁ l v₂) :
      Run v (b :: l) v₂

end ForkTree

/-- The view with the root alone. -/
def View.init {β : Type} (root : β) : View β := ⟨{root}, ∅, root⟩

namespace ForkTree

variable {β : Type} [DecidableEq β] {t : ForkTree β} {root : β} {blocks : Finset β} {v v' : View β}
  {b y : β} {l ps : List β}

theorem Run.append {l₁ l₂ : List β} (h : t.Run v (l₁ ++ l₂) v') :
    ∃ v₁, t.Run v l₁ v₁ ∧ t.Run v₁ l₂ v' := by
  induction l₁ generalizing v with
  | nil => exact ⟨v, .nil, h⟩
  | cons b l₁ ih =>
    cases h with
    | cons hb hl =>
      obtain ⟨v₁, hfirst, hrest⟩ := ih hl
      exact ⟨v₁, .cons hb hfirst, hrest⟩

/-! ### The rule -/

theorem adopt_eq_or (best a : β) : t.adopt best a = best ∨ t.adopt best a = a := by
  unfold adopt
  split
  · exact .inr rfl
  · split
    · exact .inr rfl
    · exact .inl rfl

theorem adopt_child {best a : β} (h : t.parent a = some best) : t.adopt best a = a := if_pos h

/-- A candidate that is higher and has no less work is adopted. -/
theorem adopt_higher {best a : β} (hheight : t.height best < t.height a)
    (hwork : t.work best ≤ t.work a) : t.adopt best a = a := by
  unfold adopt
  split
  · rfl
  · exact if_pos ⟨hheight, hwork⟩

theorem height_le_adopt (best a : β) : t.height best ≤ t.height (t.adopt best a) := by
  unfold adopt
  split
  · next h => exact (Nat.le_succ _).trans_eq (t.height_child h).symm
  · split
    · next h => exact Nat.le_of_lt h.1
    · exact Nat.le_refl _

/-- A block is kept against every candidate that is no child of it, and that is not both
higher and of no less work. -/
theorem adopt_keeps {best a : β} (hchild : t.parent a ≠ some best)
    (h : t.height best < t.height a → t.work a < t.work best) : t.adopt best a = best := by
  rw [adopt, if_neg hchild, if_neg]
  rintro ⟨hheight, hwork⟩
  exact absurd hwork (Nat.not_le_of_lt (h hheight))

/-! ### Invariants of a run -/

/-- A finite tree: every block other than the root has its parent in it. -/
structure Rooted (t : ForkTree β) (root : β) (blocks : Finset β) : Prop where
  root_mem : root ∈ blocks
  parent_mem : ∀ b ∈ blocks, b ≠ root → ∃ p ∈ blocks, t.parent b = some p

/-- A view of the blocks of a tree. -/
structure Within (root : β) (blocks : Finset β) (v : View β) : Prop where
  known_sub : v.known ⊆ blocks
  waiting_sub : v.waiting ⊆ blocks
  root_known : root ∈ v.known
  best_known : v.best ∈ v.known

/-- The views that a party can have: no block waits for a known parent. -/
structure Inv (t : ForkTree β) (root : β) (blocks : Finset β) (v : View β) : Prop
    extends Within root blocks v where
  waits : ∀ w ∈ v.waiting, ∀ p, t.parent w = some p → p ∉ v.known

omit [DecidableEq β] in
theorem within_init (h : root ∈ blocks) : Within root blocks (View.init root) where
  known_sub := Finset.singleton_subset_iff.mpr h
  waiting_sub := Finset.empty_subset _
  root_known := Finset.mem_singleton_self root
  best_known := Finset.mem_singleton_self root

omit [DecidableEq β] in
theorem inv_init (h : root ∈ blocks) : Inv t root blocks (View.init root) where
  toWithin := within_init h
  waits w hw := absurd hw (Finset.notMem_empty w)

/-- The blocks of a batch are of the tree. -/
theorem Within.fresh_sub {fresh : Finset β} (h : Within root blocks v) (hb : b ∈ blocks)
    (hfresh : t.Batch v b fresh) : fresh ⊆ blocks := by
  intro d hd
  by_cases hdb : d = b
  · exact hdb ▸ hb
  · exact h.waiting_sub (hfresh.waited d hd hdb)

/-- Delivering a block keeps the invariant of the node. -/
theorem Deliver.inv (hstep : t.Deliver v b v') (h : Inv t root blocks v) (hb : b ∈ blocks) :
    Inv t root blocks v' := by
  cases hstep with
  | seen => exact h
  | wait hnew hparent =>
    refine ⟨⟨h.known_sub, Finset.insert_subset hb h.waiting_sub, h.root_known, h.best_known⟩,
      fun w hw => ?_⟩
    rcases Finset.mem_insert.mp hw with rfl | hw
    · exact hparent
    · exact h.waits w hw
  | attach fresh a hnew hparent hp hfresh ha hmax =>
    refine ⟨⟨Finset.union_subset h.known_sub (h.fresh_sub hb hfresh),
      Finset.sdiff_subset.trans h.waiting_sub, Finset.mem_union_left _ h.root_known, ?_⟩, ?_⟩
    · show t.adopt v.best a ∈ v.known ∪ fresh
      rcases adopt_eq_or (t := t) v.best a with heq | heq
      · rw [heq]
        exact Finset.mem_union_left _ h.best_known
      · rw [heq]
        exact Finset.mem_union_right _ ha
    · -- A block that still waits has its parent neither in the old tree nor in the batch.
      intro w hw q hq hmem
      obtain ⟨hw, hwf⟩ := Finset.mem_sdiff.mp hw
      rcases Finset.mem_union.mp hmem with hmem | hmem
      · exact h.waits w hw q hq hmem
      · exact hwf (hfresh.complete w hw q hmem hq)

/-- The invariant after any deliveries. -/
theorem Run.inv (hrun : t.Run v l v') (h : Inv t root blocks v) (hl : ∀ b ∈ l, b ∈ blocks) :
    Inv t root blocks v' := by
  induction hrun with
  | nil => exact h
  | cons hb _ ih =>
    exact ih (hb.inv h (hl _ List.mem_cons_self)) fun b hmem => hl b (List.mem_cons_of_mem _ hmem)

/-- A block that was delivered, or was there before, is known or waits. -/
theorem Deliver.mem {c : β} (hstep : t.Deliver v b v') (hc : c = b ∨ c ∈ v.known ∨ c ∈ v.waiting) :
    c ∈ v'.known ∨ c ∈ v'.waiting := by
  cases hstep with
  | seen h =>
    rcases hc with rfl | hc
    · exact h
    · exact hc
  | wait hnew hparent =>
    rcases hc with rfl | hc | hc
    · exact .inr (Finset.mem_insert_self _ _)
    · exact .inl hc
    · exact .inr (Finset.mem_insert_of_mem hc)
  | attach fresh a hnew hparent hp hfresh ha hmax =>
    by_cases hcf : c ∈ fresh
    · exact .inl (Finset.mem_union_right _ hcf)
    rcases hc with rfl | hc | hc
    · exact absurd hfresh.self_mem hcf
    · exact .inl (Finset.mem_union_left _ hc)
    · exact .inr (Finset.mem_sdiff.mpr ⟨hc, hcf⟩)

/-- A delivered block is known or waits, and stays so. -/
theorem Run.mem {c : β} (hrun : t.Run v l v') (hc : c ∈ l ∨ c ∈ v.known ∨ c ∈ v.waiting) :
    c ∈ v'.known ∨ c ∈ v'.waiting := by
  induction hrun with
  | nil => simpa using hc
  | cons hb _ ih =>
    rcases hc with hc | hc
    · rcases List.mem_cons.mp hc with rfl | hc
      · exact ih (.inr (hb.mem (.inl rfl)))
      · exact ih (.inl hc)
    · exact ih (.inr (hb.mem (.inr hc)))

/-- When every block was delivered, none waits. -/
theorem Inv.all_known (h : Inv t root blocks v) (hroot : Rooted t root blocks)
    (hall : ∀ b ∈ blocks, b ∈ v.known ∨ b ∈ v.waiting) (hb : b ∈ blocks) : b ∈ v.known := by
  -- By induction on the height: the parent is known, so the block does not wait for it.
  induction hn : t.height b using Nat.strong_induction_on generalizing b with
  | _ n ih =>
    by_cases hbr : b = root
    · exact hbr ▸ h.root_known
    obtain ⟨p, hp, hparent⟩ := hroot.parent_mem b hb hbr
    have hlt : t.height p < n := by
      rw [← hn, t.height_child hparent]
      exact Nat.lt_succ_self _
    have hpk : p ∈ v.known := ih _ hlt hp rfl
    rcases hall b hb with hk | hw
    · exact hk
    · exact absurd hpk (h.waits b hw p hparent)

/-! ### Where a run ends -/

/-- No block of the tree is higher than `x`. -/
def Top (t : ForkTree β) (blocks : Finset β) (x : β) : Prop :=
  ∀ b ∈ blocks, t.height b ≤ t.height x

/-- Every highest block has the most work. -/
def TopHeavy (t : ForkTree β) (blocks : Finset β) : Prop :=
  ∀ x ∈ blocks, Top t blocks x → ∀ b ∈ blocks, t.work b ≤ t.work x

/-- Once a highest block is known, the best block is a highest one. -/
def TopKnown (t : ForkTree β) (blocks : Finset β) (v : View β) : Prop :=
  (∃ x ∈ v.known, Top t blocks x) → Top t blocks v.best

theorem Deliver.topKnown (hheavy : TopHeavy t blocks) (hstep : t.Deliver v b v')
    (h : Inv t root blocks v) (hb : b ∈ blocks) (htop : TopKnown t blocks v) :
    TopKnown t blocks v' := by
  cases hstep with
  | seen => exact htop
  | wait => exact htop
  | attach fresh a hnew hparent hp hfresh ha hmax =>
    rintro ⟨x, hx, hxtop⟩
    by_cases hbest : Top t blocks v.best
    · exact fun c hc => (hbest c hc).trans (height_le_adopt _ _)
    · -- The first highest block comes with this batch, so the candidate is a highest block.
      have hxf : x ∈ fresh := by
        rcases Finset.mem_union.mp hx with hx | hx
        · exact absurd (htop ⟨x, hx, hxtop⟩) hbest
        · exact hx
      have hatop : Top t blocks a := fun c hc => (hxtop c hc).trans (hmax x hxf)
      have hblocks : a ∈ blocks := h.fresh_sub hb hfresh ha
      have hlt : t.height v.best < t.height a := by
        by_contra hle
        exact hbest fun c hc => (hatop c hc).trans (Nat.le_of_not_lt hle)
      have hwork : t.work v.best ≤ t.work a :=
        hheavy a hblocks hatop _ (h.known_sub h.best_known)
      exact (adopt_higher hlt hwork).symm ▸ hatop

theorem Run.topKnown (hheavy : TopHeavy t blocks) (hrun : t.Run v l v') (h : Inv t root blocks v)
    (hl : ∀ b ∈ l, b ∈ blocks) (htop : TopKnown t blocks v) : TopKnown t blocks v' := by
  induction hrun with
  | nil => exact htop
  | cons hb _ ih =>
    have hmem := hl _ List.mem_cons_self
    exact ih (hb.inv h hmem) (fun b hb => hl b (List.mem_cons_of_mem _ hb))
      (hb.topKnown hheavy h hmem htop)

/-- If every highest block has the most work, a run that delivers all blocks ends at a
highest block. -/
theorem Run.best_top (hroot : Rooted t root blocks) (hheavy : TopHeavy t blocks)
    (hrun : t.Run (View.init root) l v) (hl : ∀ b ∈ l, b ∈ blocks)
    (hall : ∀ b ∈ blocks, b ≠ root → b ∈ l) : Top t blocks v.best := by
  have hinit : Inv t root blocks (View.init root) := inv_init hroot.root_mem
  obtain ⟨x, hx, hxtop⟩ := Finset.exists_max_image blocks t.height ⟨root, hroot.root_mem⟩
  refine hrun.topKnown hheavy hinit hl ?_ ⟨x, ?_, hxtop⟩
  · rintro ⟨y, hy, hytop⟩
    exact Finset.mem_singleton.mp hy ▸ hytop
  · refine (hrun.inv hinit hl).all_known hroot (fun b hb => hrun.mem ?_) hx
    by_cases hbr : b = root
    · exact .inr (.inl (hbr ▸ Finset.mem_singleton_self root))
    · exact .inl (hall b hb hbr)

/-! ### Orders that end at a given block -/

/-- No block of the tree replaces `x` as the best block. -/
def Stays (t : ForkTree β) (blocks : Finset β) (x : β) : Prop :=
  ∀ a ∈ blocks, t.adopt x a = x

theorem stays_of_top {x : β} (h : Top t blocks x) : Stays t blocks x := by
  intro a ha
  have hle : t.height a ≤ t.height x := h a ha
  refine adopt_keeps (fun hchild => ?_) fun hlt => absurd hle (Nat.not_le_of_lt hlt)
  have := t.height_child hchild
  omega

/-- A highest one of the blocks with the most work is not replaced. -/
theorem stays_of_heaviest {x : β} (hwork : ∀ b ∈ blocks, t.work b ≤ t.work x)
    (hheight : ∀ b ∈ blocks, t.work b = t.work x → t.height b ≤ t.height x) :
    Stays t blocks x := by
  intro a ha
  refine adopt_keeps (fun hchild => ?_) fun hlt => ?_
  · exact absurd (hwork a ha) (Nat.not_le_of_lt (t.work_child hchild))
  · refine lt_of_le_of_ne (hwork a ha) fun heq => ?_
    exact absurd (hheight a ha heq) (Nat.not_le_of_lt hlt)

theorem exists_heaviest_stays (hroot : Rooted t root blocks) :
    ∃ x ∈ blocks, (∀ b ∈ blocks, t.work b ≤ t.work x) ∧ Stays t blocks x := by
  obtain ⟨w, hw, hwmax⟩ := Finset.exists_max_image blocks t.work ⟨root, hroot.root_mem⟩
  obtain ⟨x, hx, hxmax⟩ := Finset.exists_max_image (blocks.filter (t.work · = t.work w)) t.height
    ⟨w, Finset.mem_filter.mpr ⟨hw, rfl⟩⟩
  obtain ⟨hxb, hxw⟩ := Finset.mem_filter.mp hx
  have hwork : ∀ b ∈ blocks, t.work b ≤ t.work x := fun b hb => hxw ▸ hwmax b hb
  refine ⟨x, hxb, hwork, stays_of_heaviest hwork fun b hb heq => ?_⟩
  exact hxmax b (Finset.mem_filter.mpr ⟨hb, heq.trans hxw⟩)

/-- A best block that nothing overtakes stays the best. -/
theorem Run.stays (hrun : t.Run v l v') (h : Inv t root blocks v) (hl : ∀ b ∈ l, b ∈ blocks)
    (hstays : Stays t blocks v.best) : v'.best = v.best := by
  induction hrun with
  | nil => rfl
  | @cons v v₁ _ b _ hb _ ih =>
    have hmem := hl _ List.mem_cons_self
    have hkeep : v₁.best = v.best := by
      cases hb with
      | seen => rfl
      | wait => rfl
      | attach fresh a hnew hparent hp hfresh ha hmax =>
        exact hstays _ (h.fresh_sub hmem hfresh ha)
    rw [← hkeep] at hstays ⊢
    exact ih (hb.inv h hmem) (fun b hb => hl b (List.mem_cons_of_mem _ hb)) hstays

/-- The blocks from the root, which is left out, to a block. -/
inductive Path (t : ForkTree β) (root : β) : List β → β → Prop
  | root : Path t root [] root
  | child {ps : List β} {p b : β} (hp : Path t root ps p) (hb : t.parent b = some p) :
      Path t root (ps ++ [b]) b

omit [DecidableEq β] in
theorem Path.height_le (h : Path t root ps y) :
    t.height root ≤ t.height y ∧
      ∀ b ∈ ps, t.height root < t.height b ∧ t.height b ≤ t.height y := by
  induction h with
  | root => exact ⟨Nat.le_refl _, by simp⟩
  | @child ps p b hp hb ih =>
    have hheight := t.height_child hb
    refine ⟨by omega, fun c hc => ?_⟩
    rcases List.mem_append.mp hc with hc | hc
    · have := ih.2 c hc
      omega
    · rw [List.mem_singleton.mp hc]
      omega

omit [DecidableEq β] in
theorem Path.nodup (h : Path t root ps y) : ps.Nodup := by
  induction h with
  | root => exact List.nodup_nil
  | @child ps p b hp hb ih =>
    refine List.nodup_append.mpr ⟨ih, List.nodup_singleton b, fun c hc d hd heq => ?_⟩
    have hle := (hp.height_le.2 c hc).2
    rw [heq, List.mem_singleton.mp hd, t.height_child hb] at hle
    omega

/-- Every block of a rooted tree has a path from the root. -/
theorem Rooted.exists_path (hroot : Rooted t root blocks) (hy : y ∈ blocks) :
    ∃ ps, Path t root ps y ∧ ∀ b ∈ ps, b ∈ blocks := by
  induction hn : t.height y using Nat.strong_induction_on generalizing y with
  | _ n ih =>
    by_cases hyr : y = root
    · exact ⟨[], hyr ▸ .root, by simp⟩
    obtain ⟨p, hp, hparent⟩ := hroot.parent_mem y hy hyr
    have hlt : t.height p < n := by
      rw [← hn, t.height_child hparent]
      exact Nat.lt_succ_self _
    obtain ⟨ps, hps, hmem⟩ := ih _ hlt hp rfl
    refine ⟨ps ++ [y], .child hps hparent, fun b hb => ?_⟩
    rcases List.mem_append.mp hb with hb | hb
    · exact hmem b hb
    · exact List.mem_singleton.mp hb ▸ hy

/-- A path that is delivered first, from its root on, is followed block by block. -/
theorem Path.run (h : Path t root ps y) (hrun : t.Run (View.init root) ps v) :
    v.best = y ∧ v.waiting = ∅ ∧ y ∈ v.known ∧
      ∀ b ∈ v.known, t.height b ≤ t.height y := by
  induction h generalizing v with
  | root =>
    cases hrun
    refine ⟨rfl, rfl, Finset.mem_singleton_self root, fun b hb => ?_⟩
    rw [Finset.mem_singleton.mp hb]
  | @child ps p b hp hb ih =>
    obtain ⟨v₁, hfirst, hlast⟩ := hrun.append
    obtain ⟨hbest, hwaiting, hknown, hheight⟩ := ih hfirst
    have hchild := t.height_child hb
    cases hlast with
    | cons hstep hnil =>
      cases hnil
      cases hstep with
      | seen hseen =>
        -- A known block is no higher than the parent.
        rcases hseen with hseen | hseen
        · have := hheight b hseen
          omega
        · rw [hwaiting] at hseen
          exact absurd hseen (Finset.notMem_empty b)
      | wait hnew hparent => exact absurd hknown (hparent p hb)
      | attach fresh a hnew hparent hq hfresh ha hmax =>
        -- Nothing waits, so the batch is the block alone.
        have halone : ∀ d ∈ fresh, d = b := by
          intro d hd
          by_contra hne
          have := hfresh.waited d hd hne
          rw [hwaiting] at this
          exact absurd this (Finset.notMem_empty d)
        obtain rfl := halone a ha
        refine ⟨adopt_child (hbest ▸ hb), ?_, Finset.mem_union_right _ ha, fun d hd => ?_⟩
        · rw [hwaiting, Finset.empty_sdiff]
        · rcases Finset.mem_union.mp hd with hd | hd
          · have := hheight d hd
            omega
          · rw [halone d hd]

/-- A list of the blocks of a set, each once. -/
def Order (set : Finset β) (l : List β) : Prop := l.Nodup ∧ ∀ b, b ∈ l ↔ b ∈ set

/-- A block that is not replaced is where an order ends: deliver its path first. -/
theorem exists_order_ending_at {set : Finset β} (hroot : Rooted t root (insert root set))
    (hy : y ∈ insert root set) (hstays : Stays t (insert root set) y) :
    ∃ l, Order set l ∧ ∀ v, t.Run (View.init root) l v → v.best = y := by
  obtain ⟨ps, hps, hmem⟩ := hroot.exists_path hy
  have hpset : ∀ b ∈ ps, b ∈ set := by
    intro b hb
    rcases Finset.mem_insert.mp (hmem b hb) with rfl | hset
    · exact absurd (hps.height_le.2 b hb).1 (Nat.lt_irrefl _)
    · exact hset
  refine ⟨ps ++ (set \ ps.toFinset).toList, ⟨?_, fun b => ?_⟩, fun v hrun => ?_⟩
  · refine List.nodup_append.mpr ⟨hps.nodup, Finset.nodup_toList _, fun b hb c hc heq => ?_⟩
    rw [Finset.mem_toList, Finset.mem_sdiff, List.mem_toFinset] at hc
    exact hc.2 (heq ▸ hb)
  · rw [List.mem_append, Finset.mem_toList, Finset.mem_sdiff, List.mem_toFinset]
    constructor
    · rintro (hb | hb)
      · exact hpset b hb
      · exact hb.1
    · intro hb
      by_cases hbp : b ∈ ps
      · exact .inl hbp
      · exact .inr ⟨hb, hbp⟩
  · obtain ⟨v₁, hfirst, hrest⟩ := hrun.append
    have hbest : v₁.best = y := (hps.run hfirst).1
    have hinv : Inv t root (insert root set) v₁ :=
      hfirst.inv (inv_init hroot.root_mem) fun b hb => hmem b hb
    rw [← hbest] at hstays ⊢
    refine hrest.stays hinv (fun b hb => ?_) hstays
    rw [Finset.mem_toList, Finset.mem_sdiff] at hb
    exact Finset.mem_insert_of_mem hb.1

end ForkTree

end BtmStats.Lib
