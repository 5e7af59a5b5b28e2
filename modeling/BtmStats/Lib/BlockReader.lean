import Mathlib.Data.List.Basic

/-!
# `BtmStats.Lib.BlockReader`: programs that read blocks

A reader asks for a block of tokens, goes on with what it gets, and ends with a value or with an
error. How long a block is may depend on the blocks before it. A source answers the requests: with
a block, with an error, or with nothing while the tokens are not there yet.

A writer that hands over its tokens in pieces is met by a reader whose blocks are these pieces:
`Reads p ps a`, with one rule for each way to build a reader. Then the same value is read from every
source that delivers the pieces, whether it keeps the boundaries between pieces (`Delivers.runOn`)
or is a stream without them (`Streams.runOn`). While some of the pieces are to come, the reader
waits.
-/

set_option autoImplicit false

namespace BtmStats.Lib

/-- A program that reads tokens of type `τ` and may fail. -/
inductive BlockReader (τ ε α : Type) where
  | done (a : α)
  | fail (e : ε)
  | read (k : Nat) (next : List τ → BlockReader τ ε α)

/-- What a source answers to a request for `k` tokens. None says that it waits. -/
abbrev Source (τ ε σ : Type) := Nat → σ → Option (Except ε (List τ) × σ)

namespace BlockReader

variable {τ ε α β σ : Type}

protected def bind (p : BlockReader τ ε α) (q : α → BlockReader τ ε β) : BlockReader τ ε β :=
  match p with
  | .done a => q a
  | .fail e => .fail e
  | .read k next => .read k fun b => (next b).bind q

instance instMonad : Monad (BlockReader τ ε) where
  pure := .done
  bind := BlockReader.bind

/-- Read one block. -/
def block (k : Nat) : BlockReader τ ε (List τ) := .read k .done

/-- The program on a source. -/
def runOn (src : Source τ ε σ) : BlockReader τ ε α → σ → Option (Except ε α × σ)
  | .done a, s => some (.ok a, s)
  | .fail e, s => some (.error e, s)
  | .read k next, s =>
    match src k s with
    | none => none
    | some (.error e, s) => some (.error e, s)
    | some (.ok b, s) => (next b).runOn src s

variable {a : α} {src : Source τ ε σ} {p : BlockReader τ ε α} {rest : List (List τ)}

theorem runOn_read_ok {k : Nat} {next : List τ → BlockReader τ ε α} {s s' : σ} {b : List τ}
    (h : src k s = some (.ok b, s')) :
    (BlockReader.read k next).runOn src s = (next b).runOn src s' := by
  rw [runOn, h]

/-- A program that ends with a value got an answer to its first request. -/
theorem runOn_read_eq_ok {k : Nat} {next : List τ → BlockReader τ ε α} {s s' : σ}
    (h : (BlockReader.read k next).runOn src s = some (.ok a, s')) :
    ∃ b s₁, src k s = some (.ok b, s₁) ∧ (next b).runOn src s₁ = some (.ok a, s') := by
  cases hsrc : src k s with
  | none =>
    rw [runOn, hsrc] at h
    cases h
  | some res =>
    obtain ⟨b | b, s₁⟩ := res
    · rw [runOn, hsrc] at h
      cases h
    · rw [runOn_read_ok hsrc] at h
      exact ⟨b, s₁, rfl, h⟩

theorem runOn_bind_ok {q : α → BlockReader τ ε β} : ∀ {s s' : σ}, p.runOn src s = some (.ok a, s') →
      (p >>= q).runOn src s = (q a).runOn src s' := by
  induction p with
  | done x =>
    intro s s' h
    cases h
    rfl
  | fail e => exact fun h => nomatch h
  | read k next ih =>
    intro s s' h
    obtain ⟨b, s₁, hsrc, hnext⟩ := runOn_read_eq_ok h
    show (BlockReader.read k fun b => (next b).bind q).runOn src s = _
    rw [runOn_read_ok hsrc]
    exact ih b hnext

/-! ### Pieces -/

/-- The source that has pieces, and answers a request for the first of them. Nothing is needed to
answer a request for no tokens. -/
def ofPieces : Source τ ε (List (List τ)) := fun k pieces =>
  if k = 0 then some (.ok [], pieces)
  else
    match pieces with
    | [] => none
    | piece :: rest => if piece.length = k then some (.ok piece, rest) else none

/-- The pieces that have tokens. -/
def solid (pieces : List (List τ)) : List (List τ) := pieces.filter fun piece => !piece.isEmpty

theorem solid_append (ps qs : List (List τ)) : solid (ps ++ qs) = solid ps ++ solid qs :=
  List.filter_append ..

theorem solid_cons_of_ne {piece : List τ} (h : piece ≠ []) (pieces : List (List τ)) :
    solid (piece :: pieces) = piece :: solid pieces :=
  List.filter_cons_of_pos (by simpa using h)

theorem flatten_solid (pieces : List (List τ)) : (solid pieces).flatten = pieces.flatten := by
  induction pieces with
  | nil => rfl
  | cons piece pieces ih =>
    cases piece with
    | nil => exact ih
    | cons x piece =>
      rw [solid_cons_of_ne (List.cons_ne_nil x piece), List.flatten_cons, List.flatten_cons, ih]

theorem ofPieces_cons {piece : List τ} (h : piece ≠ []) (rest : List (List τ)) :
    ofPieces (ε := ε) piece.length (piece :: rest) = some (.ok piece, rest) := by
  rw [ofPieces, if_neg (List.length_eq_zero_iff.not.mpr h)]
  exact if_pos rfl

/-- A request that is answered by pieces is for no tokens, or for the first piece. -/
theorem ofPieces_eq_ok {k : Nat} {pieces : List (List τ)} {b : List τ}
    (h : ofPieces (ε := ε) k pieces = some (.ok b, rest)) :
    (k = 0 ∧ b = [] ∧ rest = pieces) ∨ (b ≠ [] ∧ k = b.length ∧ pieces = b :: rest) := by
  unfold ofPieces at h
  by_cases hk : k = 0
  · rw [if_pos hk] at h
    cases h
    exact .inl ⟨hk, rfl, rfl⟩
  · rw [if_neg hk] at h
    cases pieces with
    | nil => cases h
    | cons piece pieces =>
      by_cases hlen : piece.length = k
      · obtain ⟨⟩ := (if_pos hlen).symm.trans h
        exact .inr ⟨fun hnil => hk (by rw [← hlen, hnil]; rfl), hlen.symm, rfl⟩
      · obtain ⟨⟩ := (if_neg hlen).symm.trans h

/-- The blocks of the program are the pieces, and its value is `a`. -/
def Reads (p : BlockReader τ ε α) (pieces : List (List τ)) (a : α) : Prop :=
  ∀ rest, p.runOn ofPieces (solid pieces ++ rest) = some (.ok a, rest)

theorem reads_pure (a : α) : Reads (pure a : BlockReader τ ε α) [] a := fun _ => rfl

theorem reads_block (piece : List τ) :
    Reads (block piece.length : BlockReader τ ε (List τ)) [piece] piece := by
  intro rest
  show (BlockReader.read piece.length .done).runOn ofPieces (solid [piece] ++ rest) = _
  cases piece with
  | nil => rfl
  | cons x piece =>
    rw [solid_cons_of_ne (List.cons_ne_nil x piece), List.cons_append,
      runOn_read_ok (ofPieces_cons (List.cons_ne_nil x piece) _)]
    rfl

/-- What two reads take, one after the other. -/
theorem Reads.bind {q : α → BlockReader τ ε β} {s t : List (List τ)} {b : β} (hp : Reads p s a)
    (hq : Reads (q a) t b) : Reads (p >>= q) (s ++ t) b := by
  intro rest
  rw [solid_append, List.append_assoc, runOn_bind_ok (hp (solid t ++ rest))]
  exact hq rest

/-- A last step that reads nothing. -/
theorem Reads.map {pieces : List (List τ)} (h : Reads p pieces a) (f : α → β) :
    Reads (p >>= fun x => pure (f x)) pieces (f a) := by
  have hmap := h.bind (q := fun x => pure (f x)) (reads_pure (f a))
  rwa [List.append_nil] at hmap

/-! ### Sources -/

/-- The source delivers pieces, one for each request. -/
structure Delivers (src : Source τ ε σ) (Holds : σ → List (List τ) → Prop) : Prop where
  zero : ∀ s, src 0 s = some (.ok [], s)
  gives : ∀ {s piece rest}, Holds s (piece :: rest) →
    ∃ s', src piece.length s = some (.ok piece, s') ∧ Holds s' rest

/-- The program reads pieces of which the first have arrived at the source, and more are to come.
It reads the first ones, or it waits, if there are more to come. -/
theorem Delivers.runOn {Holds : σ → List (List τ) → Prop} (h : Delivers src Holds)
    {more : List (List τ)} (hwaits : more ≠ [] → ∀ {s k}, Holds s [] → 0 < k → src k s = none) :
    ∀ {s : σ} {here : List (List τ)}, Holds s here →
      p.runOn ofPieces (here ++ more) = some (.ok a, rest) →
      (∃ s' left, p.runOn src s = some (.ok a, s') ∧ Holds s' left ∧ rest = left ++ more) ∨
      (p.runOn src s = none ∧ more ≠ []) := by
  induction p with
  | done x =>
    intro s here hs hrun
    cases hrun
    exact .inl ⟨s, here, rfl, hs, rfl⟩
  | fail e => exact fun _ hrun => nomatch hrun
  | read k next ih =>
    intro s here hs hrun
    obtain ⟨b, pieces, hsrc, hnext⟩ := runOn_read_eq_ok hrun
    rcases ofPieces_eq_ok hsrc with ⟨rfl, rfl, rfl⟩ | ⟨hb, rfl, hpieces⟩
    · rw [runOn_read_ok (h.zero s)]
      exact ih [] hs hnext
    · cases here with
      | nil =>
        -- The block is one of those to come.
        have hmore : more ≠ [] := by
          rw [List.nil_append] at hpieces
          rw [hpieces]
          exact List.cons_ne_nil _ _
        refine .inr ⟨?_, hmore⟩
        rw [BlockReader.runOn, hwaits hmore hs (List.length_pos_iff.mpr hb)]
      | cons piece here =>
        obtain ⟨rfl, rfl⟩ := List.cons.inj hpieces
        obtain ⟨s₁, hgive, hs₁⟩ := h.gives hs
        rw [runOn_read_ok hgive]
        exact ih piece hs₁ hnext

/-- The source is a stream of tokens: it gives the next ones, and waits while there are too few. -/
structure Streams (src : Source τ ε σ) (View : σ → List τ → Prop) : Prop where
  gives : ∀ {k s l}, View s l → k ≤ l.length →
    ∃ s', src k s = some (.ok (l.take k), s') ∧ View s' (l.drop k)
  waits : ∀ {k s l}, View s l → l.length < k → src k s = none

/-- The program reads pieces of which the first tokens have arrived at the stream. It reads the
pieces when all of them have, and otherwise waits. -/
theorem Streams.runOn {View : σ → List τ → Prop} (h : Streams src View) :
    ∀ {s : σ} {l more : List τ} {pieces : List (List τ)}, View s l → l ++ more = pieces.flatten →
      p.runOn ofPieces pieces = some (.ok a, rest) →
      (∃ s' left, p.runOn src s = some (.ok a, s') ∧ View s' left ∧ left ++ more = rest.flatten) ∨
      (p.runOn src s = none ∧ more ≠ []) := by
  induction p with
  | done x =>
    intro s l more pieces hs hl hrun
    cases hrun
    exact .inl ⟨s, l, rfl, hs, hl⟩
  | fail e => exact fun _ _ hrun => nomatch hrun
  | read k next ih =>
    intro s l more pieces hs hl hrun
    obtain ⟨b, pieces', hsrc, hnext⟩ := runOn_read_eq_ok hrun
    rcases ofPieces_eq_ok hsrc with ⟨rfl, rfl, rfl⟩ | ⟨hb, rfl, rfl⟩
    · obtain ⟨s₁, hgive, hs₁⟩ := h.gives hs (Nat.zero_le l.length)
      rw [runOn_read_ok hgive]
      exact ih [] hs₁ hl hnext
    · rw [List.flatten_cons] at hl
      by_cases hle : b.length ≤ l.length
      · obtain ⟨s₁, hgive, hs₁⟩ := h.gives hs hle
        have htake : l.take b.length = b := by
          have := congrArg (List.take b.length) hl
          rwa [List.take_left' rfl, List.take_append_of_le_length hle] at this
        have hdrop : l.drop b.length ++ more = pieces'.flatten := by
          have := congrArg (List.drop b.length) hl
          rwa [List.drop_left' rfl, List.drop_append_of_le_length hle] at this
        rw [htake] at hgive
        rw [runOn_read_ok hgive]
        exact ih b hs₁ hdrop hnext
      · -- The block has not arrived as a whole, so some of it is to come.
        refine .inr ⟨?_, ?_⟩
        · rw [BlockReader.runOn, h.waits hs (Nat.lt_of_not_le hle)]
        · rintro rfl
          have := congrArg List.length hl
          rw [List.append_nil, List.length_append] at this
          omega

end BlockReader

end BtmStats.Lib
