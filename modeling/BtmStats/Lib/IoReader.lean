import BtmStats.Lib.BlockReader

/-!
# `BtmStats.Lib.IoReader`: readers that give what they have

A reader in the manner of `io.Reader` of Go: a call for `size` tokens may give fewer. `readFull`
calls a reader until it has a whole block, and `buffered` puts a buffer before a reader.

There are two ways to know what a reader gives. A reader that flows gives the next tokens of a
stream, some with each call. A chunked reader gives one chunk with each call that has room for it,
and nothing is said about calls that have not. Reading blocks is safe on both: over a chunked reader
when no chunk goes beyond a block (`Chunked.delivers`), and in any way when it is buffered with room
for every chunk (`Chunked.flows_buffered`).
-/

set_option autoImplicit false

namespace BtmStats.Lib

/-- A reader. A call that gives tokens uses up more of what is left than it gives. None says that
the call waits. -/
structure IoReader (τ ε σ : Type) where
  read : Nat → σ → Option (Except ε (List τ) × σ)
  left : σ → Nat
  uses : ∀ {size s data s'}, 0 < size → read size s = some (.ok data, s') →
    left s' + data.length < left s

namespace IoReader

variable {τ ε σ : Type}

/-! ### Whole blocks -/

/-- The loop of `io.ReadFull`, with the tokens that it has got and the number of those missing.
`short` is what becomes of an error that comes after the first tokens. -/
def readFullLoop (r : IoReader τ ε σ) (short : ε → ε) (got : List τ) (k : Nat) (s : σ) :
    Option (Except ε (List τ) × σ) :=
  if hk : k = 0 then some (.ok got, s)
  else
    match hread : r.read k s with
    | none => none
    | some (.error e, s') => some (.error (if got.isEmpty then e else short e), s')
    | some (.ok data, s') =>
      have := r.uses (Nat.pos_of_ne_zero hk) hread
      readFullLoop r short (got ++ data) (k - data.length) s'
termination_by r.left s
decreasing_by omega

/-- `io.ReadFull` -/
def readFull (r : IoReader τ ε σ) (short : ε → ε) : Source τ ε σ :=
  fun k s => r.readFullLoop short [] k s

section
variable {r : IoReader τ ε σ} {short : ε → ε} {got : List τ} {k : Nat} {s s' : σ}

theorem readFullLoop_zero : r.readFullLoop short got 0 s = some (.ok got, s) := by
  rw [readFullLoop, dif_pos rfl]

theorem readFullLoop_none (hk : 0 < k) (h : r.read k s = none) :
    r.readFullLoop short got k s = none := by
  rw [readFullLoop, dif_neg (Nat.ne_of_gt hk)]
  split
  · rfl
  · next hread =>
    rw [h] at hread
    cases hread
  · next hread =>
    rw [h] at hread
    cases hread

theorem readFullLoop_ok (hk : 0 < k) {data : List τ} (h : r.read k s = some (.ok data, s')) :
    r.readFullLoop short got k s = r.readFullLoop short (got ++ data) (k - data.length) s' := by
  rw [readFullLoop, dif_neg (Nat.ne_of_gt hk)]
  split
  · next hread =>
    rw [h] at hread
    cases hread
  · next hread =>
    rw [h] at hread
    cases hread
  · next hread =>
    rw [h] at hread
    cases hread
    rfl

end

/-! ### Streams -/

/-- The reader gives the next tokens of a stream, and waits when there are none. -/
structure Flows (r : IoReader τ ε σ) (View : σ → List τ → Prop) : Prop where
  gives : ∀ {size s l}, View s l → l ≠ [] → 0 < size → ∃ data s' l',
    r.read size s = some (.ok data, s') ∧ data ≠ [] ∧ data.length ≤ size ∧ l = data ++ l' ∧
      View s' l'
  waits : ∀ {size s}, View s [] → 0 < size → r.read size s = none

section
variable {r : IoReader τ ε σ} {View : σ → List τ → Prop} (short : ε → ε)

/-- With enough tokens in the stream the loop gets the next ones. Induction on the tokens of the
stream. -/
theorem Flows.readFullLoop_gives (h : Flows r View) (m : Nat) :
    ∀ {k s l} (got : List τ), l.length ≤ m → View s l → k ≤ l.length →
      ∃ s', r.readFullLoop short got k s = some (.ok (got ++ l.take k), s') ∧
        View s' (l.drop k) := by
  induction m with
  | zero =>
    intro k s l got hm hs hk
    obtain rfl : k = 0 := by omega
    exact ⟨s, by rw [readFullLoop_zero, List.take_zero, List.append_nil], hs⟩
  | succ m ih =>
    intro k s l got hm hs hk
    rcases Nat.eq_zero_or_pos k with rfl | hpos
    · exact ⟨s, by rw [readFullLoop_zero, List.take_zero, List.append_nil], hs⟩
    · have hl : l ≠ [] := List.length_pos_iff.mp (Nat.lt_of_lt_of_le hpos hk)
      obtain ⟨data, s₁, l', hread, hdata, hsize, rfl, hs₁⟩ := h.gives hs hl hpos
      have hlen := List.length_pos_iff.mpr hdata
      rw [List.length_append] at hm hk
      obtain ⟨s', hloop, hs'⟩ :=
        ih (k := k - data.length) (got ++ data) (by omega) hs₁ (by omega)
      refine ⟨s', ?_, ?_⟩
      · rw [readFullLoop_ok hpos hread, hloop, List.take_append, List.take_of_length_le hsize,
          List.append_assoc]
      · rwa [List.drop_append, List.drop_of_length_le hsize, List.nil_append]

/-- With too few tokens in the stream the loop waits. -/
theorem Flows.readFullLoop_waits (h : Flows r View) (m : Nat) :
    ∀ {k s l} (got : List τ), l.length ≤ m → View s l → l.length < k →
      r.readFullLoop short got k s = none := by
  induction m with
  | zero =>
    intro k s l got hm hs hk
    obtain rfl : l = [] := List.length_eq_zero_iff.mp (Nat.le_zero.mp hm)
    exact readFullLoop_none hk (h.waits hs hk)
  | succ m ih =>
    intro k s l got hm hs hk
    by_cases hl : l = []
    · subst hl
      exact readFullLoop_none hk (h.waits hs hk)
    · obtain ⟨data, s₁, l', hread, hdata, hsize, rfl, hs₁⟩ :=
        h.gives hs hl (show 0 < k by omega)
      have hlen := List.length_pos_iff.mpr hdata
      rw [List.length_append] at hm hk
      rw [readFullLoop_ok (by omega) hread]
      exact ih _ (by omega) hs₁ (by omega)

/-- `io.ReadFull` on a reader that flows. -/
theorem Flows.streams (h : Flows r View) : BlockReader.Streams (r.readFull short) View where
  gives hs hk := h.readFullLoop_gives short _ [] (Nat.le_refl _) hs hk
  waits hs hk := h.readFullLoop_waits short _ [] (Nat.le_refl _) hs hk

end

/-! ### Chunks -/

/-- The reader gives chunks of at most `max` tokens, one with each call that has room for it, and
waits when there are none. -/
structure Chunked (r : IoReader τ ε σ) (max : Nat) (Holds : σ → List (List τ) → Prop) : Prop where
  gives : ∀ {k s c cs}, Holds s (c :: cs) → c.length ≤ k →
    ∃ s', r.read k s = some (.ok c, s') ∧ Holds s' cs
  waits : ∀ {k s}, Holds s [] → r.read k s = none
  fits : ∀ {s cs}, Holds s cs → ∀ c ∈ cs, c ≠ [] ∧ c.length ≤ max

section
variable {r : IoReader τ ε σ} {max : Nat} {Holds : σ → List (List τ) → Prop} (short : ε → ε)

/-- The loop reads a block that ends with a chunk. -/
theorem Chunked.readFullLoop (h : Chunked r max Holds) {ds : List (List τ)} :
    ∀ {cs : List (List τ)} {s : σ} (got : List τ), Holds s (cs ++ ds) →
      ∃ s', r.readFullLoop short got cs.flatten.length s = some (.ok (got ++ cs.flatten), s') ∧
        Holds s' ds := by
  intro cs
  induction cs with
  | nil => exact fun {s} got hs => ⟨s, by simp [readFullLoop_zero], hs⟩
  | cons c cs ih =>
    intro s got hs
    have hc := List.length_pos_iff.mpr (h.fits hs c List.mem_cons_self).1
    have hlen : (c :: cs).flatten.length = c.length + cs.flatten.length := by
      rw [List.flatten_cons, List.length_append]
    obtain ⟨s₁, hread, hs₁⟩ := h.gives (k := (c :: cs).flatten.length) hs (by omega)
    obtain ⟨s', hloop, hs'⟩ := ih (got ++ c) hs₁
    refine ⟨s', ?_, hs'⟩
    rw [readFullLoop_ok (by omega) hread, hlen, Nat.add_sub_cancel_left, hloop, List.flatten_cons,
      List.append_assoc]

/-- A state that has pieces, each of them cut into chunks of its own, and then other chunks. -/
def HoldsPieces (Holds : σ → List (List τ) → Prop) (tail : List (List τ)) (s : σ)
    (pieces : List (List τ)) : Prop :=
  ∃ css : List (List (List τ)), css.map List.flatten = pieces ∧ Holds s (css.flatten ++ tail)

/-- When the pieces are the blocks, `readFull` delivers them. -/
theorem Chunked.delivers (h : Chunked r max Holds) (tail : List (List τ)) :
    BlockReader.Delivers (r.readFull short) (HoldsPieces Holds tail) where
  zero _ := readFullLoop_zero
  gives := by
    rintro s piece rest ⟨css, hcss, hs⟩
    cases css with
    | nil => cases hcss
    | cons cs css =>
      obtain ⟨rfl, rfl⟩ := List.cons.inj hcss
      rw [List.flatten_cons, List.append_assoc] at hs
      obtain ⟨s', hread, hs'⟩ := h.readFullLoop short [] hs
      exact ⟨s', hread, css, rfl, hs'⟩

/-- Without chunks `readFull` waits. -/
theorem Chunked.readFull_waits (h : Chunked r max Holds) {s : σ} {k : Nat}
    (hs : HoldsPieces Holds [] s []) (hk : 0 < k) : r.readFull short k s = none := by
  obtain ⟨css, hcss, hs⟩ := hs
  obtain rfl := List.map_eq_nil_iff.mp hcss
  exact readFullLoop_none hk (h.waits hs)

end

/-! ### Buffers -/

/-- `Read` of `bufio.Reader`, with the tokens in the buffer. A call with an empty buffer makes one
call to the reader below: for the whole buffer, or past the buffer if it asks for as much. -/
def bufferedRead (r : IoReader τ ε σ) (bufSize : Nat) (size : Nat) :
    σ × List τ → Option (Except ε (List τ) × (σ × List τ))
  | (s, buf) =>
    if size = 0 then some (.ok [], (s, buf))
    else if 0 < buf.length then some (.ok (buf.take size), (s, buf.drop size))
    else
      match r.read (if bufSize ≤ size then size else bufSize) s with
      | none => none
      | some (.error e, s) => some (.error e, (s, []))
      | some (.ok data, s) =>
        if bufSize ≤ size then some (.ok data, (s, []))
        else some (.ok (data.take size), (s, data.drop size))

section
variable {r : IoReader τ ε σ} {bufSize size : Nat} {s s' : σ} {buf : List τ}

theorem bufferedRead_buf (hsize : 0 < size) (hbuf : buf ≠ []) :
    r.bufferedRead bufSize size (s, buf) = some (.ok (buf.take size), (s, buf.drop size)) := by
  rw [bufferedRead, if_neg (Nat.ne_of_gt hsize), if_pos (List.length_pos_iff.mpr hbuf)]

theorem bufferedRead_none (hsize : 0 < size)
    (h : r.read (if bufSize ≤ size then size else bufSize) s = none) :
    r.bufferedRead bufSize size (s, []) = none := by
  rw [bufferedRead, if_neg (Nat.ne_of_gt hsize), if_neg (by simp), h]

theorem bufferedRead_ok (hsize : 0 < size) {data : List τ}
    (h : r.read (if bufSize ≤ size then size else bufSize) s = some (.ok data, s')) :
    r.bufferedRead bufSize size (s, []) =
      if bufSize ≤ size then some (.ok data, (s', []))
      else some (.ok (data.take size), (s', data.drop size)) := by
  rw [bufferedRead, if_neg (Nat.ne_of_gt hsize), if_neg (by simp), h]

theorem bufferedRead_error (hsize : 0 < size) {e : ε}
    (h : r.read (if bufSize ≤ size then size else bufSize) s = some (.error e, s')) :
    r.bufferedRead bufSize size (s, []) = some (.error e, (s', [])) := by
  rw [bufferedRead, if_neg (Nat.ne_of_gt hsize), if_neg (by simp), h]

/-- The tokens in the buffer count as well, so that a call that gives some of them uses up more
than it gives. -/
theorem bufferedRead_uses (hbuf : 0 < bufSize) {st st' : σ × List τ} {data : List τ}
    (hsize : 0 < size) (h : r.bufferedRead bufSize size st = some (.ok data, st')) :
    2 * (r.left st'.1 + st'.2.length) + data.length < 2 * (r.left st.1 + st.2.length) := by
  obtain ⟨s, buf⟩ := st
  by_cases hnil : buf = []
  · subst hnil
    cases hread : r.read (if bufSize ≤ size then size else bufSize) s with
    | none =>
      rw [bufferedRead_none hsize hread] at h
      cases h
    | some res =>
      obtain ⟨e | got, s₁⟩ := res
      · rw [bufferedRead_error hsize hread] at h
        cases h
      · have huse := r.uses (by split <;> omega) hread
        rw [bufferedRead_ok hsize hread] at h
        split at h
        · cases h
          simp only [List.length_nil]
          omega
        · cases h
          simp only [List.length_nil, List.length_take, List.length_drop]
          omega
  · have hlen := List.length_pos_iff.mpr hnil
    rw [bufferedRead_buf hsize hnil] at h
    cases h
    simp only [List.length_take, List.length_drop]
    omega

end

/-- `bufio.Reader` -/
def buffered (r : IoReader τ ε σ) (bufSize : Nat) (hbuf : 0 < bufSize) :
    IoReader τ ε (σ × List τ) where
  read := r.bufferedRead bufSize
  left st := 2 * (r.left st.1 + st.2.length)
  uses := bufferedRead_uses hbuf

/-- What is in the buffer, and then the chunks. -/
def BufferedView (Holds : σ → List (List τ) → Prop) (st : σ × List τ) (l : List τ) : Prop :=
  ∃ cs, Holds st.1 cs ∧ l = st.2 ++ cs.flatten

/-- With room for every chunk in the buffer, the chunks are a stream. -/
theorem Chunked.flows_buffered {r : IoReader τ ε σ} {max bufSize : Nat}
    {Holds : σ → List (List τ) → Prop} (h : Chunked r max Holds) (hbuf : 0 < bufSize)
    (hmax : max ≤ bufSize) : Flows (r.buffered bufSize hbuf) (BufferedView Holds) where
  gives := by
    rintro size ⟨s, buf⟩ l ⟨cs, hs, rfl⟩ hl hsize
    by_cases hnil : buf = []
    · subst hnil
      cases cs with
      | nil => exact absurd rfl hl
      | cons c cs =>
        obtain ⟨hne, hle⟩ := h.fits hs c List.mem_cons_self
        have hlen := List.length_pos_iff.mpr hne
        obtain ⟨s', hread, hs'⟩ :=
          h.gives (k := if bufSize ≤ size then size else bufSize) hs (by split <;> omega)
        have hres := bufferedRead_ok hsize hread
        by_cases hbig : bufSize ≤ size
        · rw [if_pos hbig] at hres
          exact ⟨c, (s', []), cs.flatten, hres, hne, by omega, rfl, cs, hs', rfl⟩
        · rw [if_neg hbig] at hres
          refine ⟨c.take size, (s', c.drop size), c.drop size ++ cs.flatten, hres, ?_,
            List.length_take_le _ _, ?_, cs, hs', rfl⟩
          · rw [← List.length_pos_iff, List.length_take]
            omega
          · rw [List.nil_append, List.flatten_cons, ← List.append_assoc, List.take_append_drop]
    · have hlen := List.length_pos_iff.mpr hnil
      refine ⟨buf.take size, (s, buf.drop size), buf.drop size ++ cs.flatten,
        bufferedRead_buf hsize hnil, ?_, List.length_take_le _ _, ?_, cs, hs, rfl⟩
      · rw [← List.length_pos_iff, List.length_take]
        omega
      · rw [← List.append_assoc, List.take_append_drop]
  waits := by
    rintro size ⟨s, buf⟩ ⟨cs, hs, hl⟩ hsize
    obtain ⟨rfl, hcs⟩ := List.append_eq_nil_iff.mp hl.symm
    cases cs with
    | nil => exact bufferedRead_none hsize (h.waits hs)
    | cons c cs =>
      rw [List.flatten_cons, List.append_eq_nil_iff] at hcs
      exact absurd hcs.1 (h.fits hs c List.mem_cons_self).1

end IoReader

end BtmStats.Lib
