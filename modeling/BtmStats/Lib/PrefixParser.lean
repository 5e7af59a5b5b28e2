import Mathlib.Data.List.Basic

/-!
# `BtmStats.Lib.PrefixParser`: parsers that read exactly a grammar

A prefix parser takes tokens from the front of its input and returns the rest. A
grammar is a relation between token strings and values. `Reads p G` is the exact
link: the parser accepts an input with value `a` and rest `r` if and only if the
input is a string of `G` with value `a`, followed by `r`.

Both directions are in one statement. Left to right, the parser accepts nothing
else. Right to left, it accepts every string of the grammar, and what follows the
string changes neither the value nor the rest (`Reads.append`): the grammar is
self-delimiting.

`Delimits G` is the second half without a parser: a string of `G` in front of anything
can be told from what follows, and has one value.

The rules below follow the parsers' own structure: `reads_pure`, `reads_throw`,
`reads_bind`, `reads_map`, `reads_ite`, `reads_guard`, `reads_within` for a parser that
runs on a delimited part, and `reads_many` for a counted loop.
-/

set_option autoImplicit false

namespace BtmStats.Lib

/-- A parser that takes a prefix of its input. -/
abbrev Parser (τ ε α : Type) := StateT (List τ) (Except ε) α

/-- `p` reads exactly the grammar `G`. -/
def Reads {τ ε α : Type} (p : Parser τ ε α) (G : List τ → α → Prop) : Prop :=
  ∀ b a r, p.run b = .ok (a, r) ↔ ∃ s, b = s ++ r ∧ G s a

/-- One grammar after the other, the second depending on the value of the first. -/
def Seq {τ α β : Type} (G : List τ → α → Prop) (H : α → List τ → β → Prop) :
    List τ → β → Prop :=
  fun s c => ∃ s₁ s₂ a, s = s₁ ++ s₂ ∧ G s₁ a ∧ H a s₂ c

/-- `n` strings of one grammar, one after the other. -/
def Many {τ α : Type} (G : List τ → α → Prop) (n : Nat) : List τ → List α → Prop :=
  fun s as => as.length = n ∧ ∃ parts, s = parts.flatten ∧ List.Forall₂ G parts as

/-- Strings of `G` show where they end, and which value they have. -/
def Delimits {τ α : Type} (G : List τ → α → Prop) : Prop :=
  ∀ s a s' a' r r', G s a → G s' a' → s ++ r = s' ++ r' → s = s' ∧ a = a' ∧ r = r'

/-- Run a parser on a delimited part of the input. The value comes with what the
parser left of that part. -/
def within {τ ε α : Type} (p : Parser τ ε α) (part : List τ) : Parser τ ε (α × List τ) :=
  StateT.lift (p.run part)

/-- Change the error of a parser that fails. -/
def mapError {τ ε ε' α : Type} (f : ε → ε') (p : Parser τ ε α) : Parser τ ε' α :=
  fun b => (p.run b).mapError f

/-- Run a parser `n` times. The parser is given the number of values read before,
and the values are appended to `acc`. -/
def many {τ ε α : Type} (p : Nat → Parser τ ε α) : Nat → List α → Parser τ ε (List α)
  | 0, acc => pure acc
  | n + 1, acc => do
      let a ← p acc.length
      many p n (acc ++ [a])

section
variable {τ ε α β : Type} {G H : List τ → α → Prop} {p : Parser τ ε α}

/-- A string of the grammar is parsed whatever follows it. -/
theorem Reads.append (h : Reads p G) {s : List τ} {a : α} (hs : G s a) (r : List τ) :
    p.run (s ++ r) = .ok (a, r) :=
  (h _ _ _).mpr ⟨s, rfl, hs⟩

/-- What a parser consumes is a string of the grammar. -/
theorem Reads.split (h : Reads p G) {b r : List τ} {a : α} (hb : p.run b = .ok (a, r)) :
    ∃ s, b = s ++ r ∧ G s a :=
  (h _ _ _).mp hb

/-- A parser reads every grammar that has the same strings. -/
theorem Reads.congr (h : Reads p G) (hGH : ∀ s a, G s a ↔ H s a) : Reads p H := by
  intro b a r
  rw [h b a r]
  exact exists_congr fun s => and_congr_right fun _ => hGH s a

/-- A bind succeeds when both parts do, the second on what the first left. -/
theorem run_bind_eq_ok (p : Parser τ ε α) (q : α → Parser τ ε β) (b r : List τ) (c : β) :
    (p >>= q).run b = .ok (c, r) ↔
      ∃ a t, p.run b = .ok (a, t) ∧ (q a).run t = .ok (c, r) := by
  rw [StateT.run_bind]
  cases h : p.run b with
  | error e => simp [bind, Except.bind]
  | ok x =>
    obtain ⟨a, t⟩ := x
    simp only [bind, Except.bind, Except.ok.injEq, Prod.mk.injEq]
    constructor
    · intro hq
      exact ⟨a, t, ⟨rfl, rfl⟩, hq⟩
    · rintro ⟨_, _, ⟨rfl, rfl⟩, hq⟩
      exact hq

/-- Returning a value reads the empty string. -/
theorem reads_pure (a : α) :
    Reads (pure a : Parser τ ε α) (fun s x => s = [] ∧ x = a) := by
  intro b x r
  show (Except.ok (a, b) : Except ε (α × List τ)) = .ok (x, r) ↔ _
  simp only [Except.ok.injEq, Prod.mk.injEq]
  constructor
  · rintro ⟨rfl, rfl⟩
    exact ⟨[], rfl, rfl, rfl⟩
  · rintro ⟨_, rfl, rfl, rfl⟩
    exact ⟨rfl, rfl⟩

/-- Failing reads nothing. -/
theorem reads_throw (e : ε) :
    Reads (throw e : Parser τ ε α) (fun _ _ => False) := by
  intro b x r
  simp [throw, throwThe, MonadExceptOf.throw, StateT.lift, StateT.run, bind, Except.bind]

/-- Sequencing. -/
theorem reads_bind {q : α → Parser τ ε β} {H : α → List τ → β → Prop} (hp : Reads p G)
    (hq : ∀ a, Reads (q a) (H a)) : Reads (p >>= q) (Seq G H) := by
  intro b c r
  rw [run_bind_eq_ok]
  constructor
  · rintro ⟨a, t, hpb, hqt⟩
    obtain ⟨s₁, rfl, hG⟩ := hp.split hpb
    obtain ⟨s₂, rfl, hH⟩ := (hq a).split hqt
    exact ⟨s₁ ++ s₂, (List.append_assoc s₁ s₂ r).symm, s₁, s₂, a, rfl, hG, hH⟩
  · rintro ⟨_, rfl, s₁, s₂, a, rfl, hG, hH⟩
    -- The first parser stops at the end of its own string, whatever follows.
    refine ⟨a, s₂ ++ r, ?_, (hq a).append hH r⟩
    rw [List.append_assoc]
    exact hp.append hG (s₂ ++ r)

/-- Changing the value. -/
theorem reads_map (f : α → β) (hp : Reads p G) :
    Reads (f <$> p) (fun s c => ∃ a, c = f a ∧ G s a) := by
  rw [map_eq_pure_bind]
  refine (reads_bind hp fun a => reads_pure (f a)).congr fun s c => ?_
  constructor
  · rintro ⟨s₁, s₂, a, rfl, hG, rfl, rfl⟩
    rw [List.append_nil]
    exact ⟨a, rfl, hG⟩
  · rintro ⟨a, rfl, hG⟩
    exact ⟨s, [], a, (List.append_nil s).symm, hG, rfl, rfl⟩

/-- A conditional. The condition is a fact about values read before. -/
theorem reads_ite {c : Prop} [Decidable c] {q : Parser τ ε α} (hp : Reads p G) (hq : Reads q H) :
    Reads (if c then p else q) (fun s a => if c then G s a else H s a) := by
  by_cases h : c
  · simpa only [h, if_true] using hp
  · simpa only [h, if_false] using hq

/-- A check that fails. -/
theorem reads_guard {c : Prop} [Decidable c] (e : ε) (hp : Reads p G) :
    Reads (if c then throw e else p) (fun s a => ¬ c ∧ G s a) := by
  refine (reads_ite (reads_throw e) hp).congr fun s a => ?_
  by_cases h : c
  · simp only [h, if_true, not_true, false_and]
  · simp only [h, if_false, not_false_eq_true, true_and]

/-- A parser on a delimited part reads the empty string of its own input, and a
string of the grammar at the front of the part. -/
theorem reads_within (hp : Reads p G) (part : List τ) :
    Reads (within p part) (fun s x => s = [] ∧ ∃ body, part = body ++ x.2 ∧ G body x.1) := by
  intro b x r
  obtain ⟨a, t⟩ := x
  -- The own input is handed through untouched.
  have hrun : (within p part).run b = .ok ((a, t), r) ↔ p.run part = .ok (a, t) ∧ b = r := by
    cases h : p.run part with
    | error e => simp [within, StateT.run_lift, h, bind, Except.bind]
    | ok y =>
      simp [within, StateT.run_lift, h, bind, Except.bind, pure, Except.pure]
  rw [hrun, hp part a t]
  constructor
  · rintro ⟨hbody, rfl⟩
    exact ⟨[], rfl, rfl, hbody⟩
  · rintro ⟨_, rfl, rfl, hbody⟩
    exact ⟨hbody, rfl⟩

/-- The error does not matter to what is read. -/
theorem reads_mapError {ε' : Type} (f : ε → ε') (hp : Reads p G) : Reads (mapError f p) G := by
  intro b a r
  rw [← hp b a r]
  show (p.run b).mapError f = .ok (a, r) ↔ _
  cases p.run b with
  | error e => simp [Except.mapError]
  | ok x => simp [Except.mapError]

/-- A counted loop reads that many strings, and appends their values. Induction on
the count. -/
theorem reads_many {p : Nat → Parser τ ε α} (hp : ∀ k, Reads (p k) G) :
    ∀ (n : Nat) (acc : List α),
      Reads (many p n acc) (fun s as => ∃ new, as = acc ++ new ∧ Many G n s new) := by
  intro n
  induction n with
  | zero =>
    intro acc
    refine (reads_pure acc).congr fun s as => ?_
    constructor
    · rintro ⟨rfl, rfl⟩
      exact ⟨[], (List.append_nil as).symm, rfl, [], rfl, List.Forall₂.nil⟩
    · rintro ⟨new, rfl, hlen, parts, rfl, hparts⟩
      have hnew : new = [] := List.length_eq_zero_iff.mp hlen
      subst hnew
      cases hparts
      exact ⟨rfl, List.append_nil acc⟩
  | succ n ih =>
    intro acc
    refine (reads_bind (hp acc.length) fun a => ih (acc ++ [a])).congr fun s as => ?_
    constructor
    · rintro ⟨s₁, s₂, a, rfl, hG, new, rfl, hlen, parts, rfl, hparts⟩
      -- The first value stands at the end of `acc`, in front of the new ones.
      refine ⟨a :: new, by simp, by simp [hlen], s₁ :: parts, rfl, ?_⟩
      exact List.Forall₂.cons hG hparts
    · rintro ⟨new, rfl, hlen, parts, rfl, hparts⟩
      cases hparts with
      | nil => simp at hlen
      | @cons s₁ a parts new hG hrest =>
        refine ⟨s₁, parts.flatten, a, rfl, hG, new, by simp, ?_, parts, rfl, hrest⟩
        simpa using hlen

/-! ### Grammars that delimit their strings -/

/-- What a reader reads exactly is told apart from what follows. -/
theorem Reads.delimits (h : Reads p G) : Delimits G := by
  intro s a s' a' r r' hs hs' heq
  have hrun := h.append hs r
  rw [heq, h.append hs' r'] at hrun
  obtain ⟨rfl, rfl⟩ := Prod.mk.inj (Except.ok.inj hrun)
  exact ⟨List.append_cancel_right heq, rfl, rfl⟩

theorem Delimits.mono (h : Delimits H) (hGH : ∀ s a, G s a → H s a) : Delimits G :=
  fun _ _ _ _ _ _ hs hs' heq => h _ _ _ _ _ _ (hGH _ _ hs) (hGH _ _ hs') heq

/-- The value may be named otherwise. -/
theorem Delimits.map (h : Delimits G) (f : α → β) : Delimits (fun s c => ∃ a, c = f a ∧ G s a) := by
  rintro s _ s' _ r r' ⟨a, rfl, hs⟩ ⟨a', rfl, hs'⟩ heq
  obtain ⟨rfl, rfl, rfl⟩ := h _ _ _ _ _ _ hs hs' heq
  exact ⟨rfl, rfl, rfl⟩

/-- An injective encoding of one width. -/
theorem delimits_of_width {f : α → List τ} {n : Nat} (hlen : ∀ a, (f a).length = n)
    (hinj : ∀ a a', f a = f a' → a = a') : Delimits (fun s a => s = f a) := by
  rintro _ a _ a' r r' rfl rfl heq
  obtain ⟨hs, rfl⟩ := List.append_inj heq ((hlen a).trans (hlen a').symm)
  exact ⟨hs, hinj a a' hs, rfl⟩

/-- One grammar after the other. -/
theorem Delimits.seq {H : α → List τ → β → Prop} (hG : Delimits G) (hH : ∀ a, Delimits (H a)) :
    Delimits (Seq G H) := by
  rintro _ c _ c' r r' ⟨s₁, s₂, a, rfl, hs₁, hs₂⟩ ⟨s₁', s₂', a', rfl, hs₁', hs₂'⟩ heq
  rw [List.append_assoc, List.append_assoc] at heq
  obtain ⟨rfl, rfl, hrest⟩ := hG _ _ _ _ _ _ hs₁ hs₁' heq
  obtain ⟨rfl, rfl, rfl⟩ := hH a _ _ _ _ _ _ hs₂ hs₂' hrest
  exact ⟨rfl, rfl, rfl⟩

/-- A known number of strings of one grammar. -/
theorem Delimits.many (hG : Delimits G) (n : Nat) : Delimits (Many G n) := by
  induction n with
  | zero =>
    rintro _ as _ as' r r' ⟨hlen, parts, rfl, hparts⟩ ⟨hlen', parts', rfl, hparts'⟩ heq
    obtain rfl := List.length_eq_zero_iff.mp hlen
    obtain rfl := List.length_eq_zero_iff.mp hlen'
    cases hparts
    cases hparts'
    exact ⟨rfl, rfl, heq⟩
  | succ n ih =>
    rintro _ as _ as' r r' ⟨hlen, parts, rfl, hparts⟩ ⟨hlen', parts', rfl, hparts'⟩ heq
    cases hparts with
    | nil => cases hlen
    | @cons s a parts as hs hrest =>
      cases hparts' with
      | nil => cases hlen'
      | @cons s' a' parts' as' hs' hrest' =>
        rw [List.flatten_cons, List.flatten_cons, List.append_assoc, List.append_assoc] at heq
        obtain ⟨rfl, rfl, hmore⟩ := hG _ _ _ _ _ _ hs hs' heq
        obtain ⟨hparts, rfl, rfl⟩ := ih _ _ _ _ _ _
          ⟨Nat.succ.inj hlen, parts, rfl, hrest⟩ ⟨Nat.succ.inj hlen', parts', rfl, hrest'⟩
          hmore
        exact ⟨congrArg (s ++ ·) hparts, rfl, rfl⟩

end

end BtmStats.Lib
