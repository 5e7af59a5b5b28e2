import BtmStats.Proofs.Encoding.OnWriter
import BtmStats.Spec.Encoding.Reader

/-!
# `BtmStats.Proofs.Encoding.Reader`: readers stay inside their window

A function that runs on a window reads positions of the window only, and it does what it
does on the bytes of the window alone (`exec_spec`, by induction on the function). So the
bytes around the window change nothing.

The reads of the package on windows are the reads of `Spec.Encoding.Blockchain` on the bytes
that the windows show (`Agrees`), and they never move the end of a reader. Together this
gives what `ReadExtensibleString` promises to its callers (`extensibleString_isolated`).
-/

set_option autoImplicit false

namespace BtmStats.Proofs.Blockchain

open Lib Spec Spec.Blockchain

variable {α β γ : Type} {mem : List UInt8}

/-! ### Functions with a reader -/

/-- A run on the window `r` that does what `f` does on the bytes of `r`. -/
structure RunsOn (r : Window mem) (run : Decoder.Run mem α) (out : Except Err α × List UInt8) :
    Prop where
  result : run.result = out.1
  items : run.reader.items = out.2
  seen : ∀ i ∈ run.seen, i ∈ r.positions
  lo_le : r.lo ≤ run.reader.lo
  hi_eq : run.reader.hi = r.hi

variable {r r' : Window mem} {f : Decoder α} {s : List UInt8}

/-- Reading some bytes and going on with the others. -/
theorem RunsOn.after {n : Nat} (h : n ≤ r.len) {run : Decoder.Run mem α}
    {out : Except Err α × List UInt8} (hrun : RunsOn (r.rest n h) run out) :
    RunsOn r (Decoder.Run.after r n h run) out where
  result := hrun.result
  items := hrun.items
  seen := by
    have hlo := r.lo_le
    have hlen : n ≤ r.hi - r.lo := h
    intro i hi
    rw [Window.mem_positions]
    rcases List.mem_append.mp hi with hfront | hrest
    · obtain ⟨hle, hlt⟩ := (Window.mem_positions _).mp hfront
      simp only [Window.front] at hle hlt
      omega
    · obtain ⟨hle, hlt⟩ := (Window.mem_positions _).mp (hrun.seen i hrest)
      simp only [Window.rest] at hle hlt
      omega
  lo_le := (Nat.le_add_right _ _).trans hrun.lo_le
  hi_eq := hrun.hi_eq

/-- Running on a window is running on its list, and reads inside it only. -/
theorem exec_spec (f : Decoder α) : ∀ r : Window mem, RunsOn r (f.exec r) (f.onList r.items) := by
  induction f with
  | done result =>
    intro r
    exact ⟨rfl, rfl, fun i hi => absurd hi List.not_mem_nil, Nat.le_refl _, rfl⟩
  | len next ih =>
    intro r
    rw [Decoder.exec, Decoder.onList, Window.length_items]
    exact ih _ r
  | readByte next ih =>
    intro r
    rw [Decoder.exec, Decoder.onList]
    by_cases h : 1 ≤ r.len
    · rw [dif_pos h, Window.getElem?_lo r h, ← Window.items_rest r h]
      exact (ih _ _).after h
    · -- Nothing is left, and nothing is read.
      have hnil : r.items = [] := (Window.items_eq_nil_iff r).mpr (by omega)
      have hrun := ih none r
      rw [hnil] at hrun
      rw [dif_neg h, hnil]
      exact hrun
  | read n next ih =>
    intro r
    have h : min n r.len ≤ r.len := Nat.min_le_right _ _
    have htake : r.items.take n = (r.front _ h).items := by
      rw [Window.items_front, ← Window.length_items, ← List.take_eq_take_min]
    have hdrop : r.items.drop n = (r.rest _ h).items := by
      rw [Window.items_rest, ← Window.length_items, ← List.drop_eq_drop_min]
    rw [Decoder.exec, Decoder.onList, Blockchain.read, htake, hdrop]
    simp only [Window.items_eq_nil_iff]
    exact (ih _ _).after h
  | cut l next ih =>
    intro r
    rw [Decoder.exec, Decoder.onList]
    by_cases h : l ≤ r.len
    · rw [dif_pos h, if_pos (by rwa [Window.length_items]), ← Window.items_front r h,
        ← Window.items_rest r h]
      exact (ih _ _).after h
    · rw [dif_neg h, if_neg (by rwa [Window.length_items])]
      exact ih _ r

/-! ### The reads of the package -/

/-- A read from the window `r` is a read from its bytes, and leaves the end of the reader
where it is. `view` turns the value into the value of the other read. -/
def Agrees (r : Window mem) (view : β → γ) (x : Except Err (β × Window mem))
    (y : Except Err (γ × List UInt8)) : Prop :=
  x.map (fun p => (view p.1, p.2.items)) = y ∧ ∀ p, x = .ok p → p.2.hi = r.hi

theorem agrees_error (r : Window mem) (view : β → γ) (err : Err) :
    Agrees r view (.error err) (.error err) :=
  ⟨rfl, fun _ h => by cases h⟩

theorem agrees_ok (view : β → γ) (b : β) (h : r'.hi = r.hi) :
    Agrees r view (.ok (b, r')) (.ok (view b, r'.items)) :=
  ⟨rfl, fun p hp => by cases hp; exact h⟩

/-- A read that agrees up to here, followed by reads that agree. -/
theorem Agrees.bind {δ ε : Type} {view : β → γ} {view' : δ → ε} {x : Except Err (β × Window mem)}
    {y : Except Err (γ × List UInt8)} (h : Agrees r view x y)
    {next : β × Window mem → Except Err (δ × Window mem)}
    {next' : γ × List UInt8 → Except Err (ε × List UInt8)}
    (hnext : ∀ b (r' : Window mem), r'.hi = r.hi → Agrees r view' (next (b, r')) (next' (view b,
      r'.items))) : Agrees r view' (x >>= next) (y >>= next') := by
  obtain ⟨rfl, hhi⟩ := h
  cases x with
  | error err => exact agrees_error r view' err
  | ok p => exact hnext p.1 p.2 (hhi p rfl)

/-- What a successful read from the bytes says about the window. -/
theorem Agrees.eq_ok {view : β → γ} {x : Except Err (β × Window mem)} {c : γ} {l : List UInt8}
    (h : Agrees r view x (.ok (c, l))) :
    ∃ b r', x = .ok (b, r') ∧ view b = c ∧ r'.items = l ∧ r'.hi = r.hi := by
  obtain ⟨hmap, hhi⟩ := h
  cases x with
  | error err => cases hmap
  | ok p =>
    obtain ⟨hview, hitems⟩ := Prod.mk.inj (Except.ok.inj hmap)
    exact ⟨p.1, p.2, rfl, hview, hitems, hhi p rfl⟩

/-- A window that ends where another one ends and shows the end of its elements starts
behind the others. -/
theorem lo_eq_of_items (hhi : r'.hi = r.hi) (h : r.items = s ++ r'.items) :
    r'.lo = r.lo + s.length := by
  have hlen := congrArg List.length h
  have hr := r.lo_le
  have hr' := r'.lo_le
  rw [List.length_append, Window.length_items, Window.length_items] at hlen
  simp only [Window.len] at hlen
  omega

/-- Induction along the loop: each byte shortens the window. -/
theorem readUvarintLoop_agrees (r : Window mem) (i x : Nat) :
    Agrees r id (Reader.readUvarintLoop r i x) (readUvarintLoop r.items i x) := by
  induction r, i, x using Reader.readUvarintLoop.induct with
  | case1 r i x h hnone =>
    -- The window lies inside the array, so there is a byte at its start.
    rw [Window.getElem?_lo r h, List.head?_eq_none_iff, Window.items_eq_nil_iff] at hnone
    omega
  | case2 r i x h b hb hlow hover =>
    rw [Reader.readUvarintLoop, dif_pos h, hb, Window.items_eq_cons r h hb, readUvarintLoop]
    simp only [if_pos hlow, if_pos hover]
    exact agrees_error r id _
  | case3 r i x h b hb hlow hover =>
    rw [Reader.readUvarintLoop, dif_pos h, hb, Window.items_eq_cons r h hb, readUvarintLoop]
    simp only [if_pos hlow, if_neg hover]
    exact agrees_ok id _ rfl
  | case4 r i x h b hb hlow ih =>
    rw [Reader.readUvarintLoop, dif_pos h, hb, Window.items_eq_cons r h hb, readUvarintLoop]
    simp only [if_neg hlow]
    exact ih
  | case5 r i x h =>
    have hnil : r.items = [] := (Window.items_eq_nil_iff r).mpr (by omega)
    rw [Reader.readUvarintLoop, dif_neg h, hnil, readUvarintLoop]
    exact agrees_error r id _

theorem readVarint31_agrees (r : Window mem) :
    Agrees r id (Reader.readVarint31 r) (readVarint31.run r.items) := by
  refine (readUvarintLoop_agrees r 0 0).bind fun val r' hhi => ?_
  by_cases h : val > maxInt32
  · simp only [id, if_pos h]
    exact agrees_error r id _
  · simp only [id, if_neg h]
    exact agrees_ok id val hhi

/-- The end of `ReadVarstr31`. A string of length 0 is the general case: it cuts nothing
off. -/
theorem cutOrNil_eq (l : Nat) (b : List UInt8) :
    (if l = 0 then pure [] else cut l : ReaderM (List UInt8)) b =
      if l ≤ b.length then .ok (b.take l, b.drop l) else .error RootErr.unexpectedEOF.err := by
  by_cases h0 : l = 0
  · rw [if_pos h0, h0, if_pos (Nat.zero_le _)]
    rfl
  · rw [if_neg h0, cut]
    by_cases h : l ≤ b.length
    · rw [if_pos h, if_neg (Nat.not_lt.mpr h)]
    · rw [if_neg h, if_pos (Nat.lt_of_not_le h)]

theorem readVarstr31_agrees (r : Window mem) :
    Agrees r Window.items (Reader.readVarstr31 r) (readVarstr31.run r.items) := by
  refine (readVarint31_agrees r).bind fun l r' hhi => ?_
  show Agrees r Window.items _ ((if l = 0 then pure [] else cut l : ReaderM (List UInt8)) r'.items)
  rw [cutOrNil_eq, Window.length_items]
  by_cases h : l ≤ r'.len
  · simp only [dif_pos h, if_pos h]
    rw [← Window.items_front r' h, ← Window.items_rest r' h]
    exact agrees_ok Window.items _ hhi
  · simp only [dif_neg h, if_neg h]
    exact agrees_error r _ _

/-! ### Extensible strings -/

/-- A read from a string of its own leaves the reader as it is. -/
theorem run_within (f : ReaderM α) (part b : List UInt8) :
    (within f part).run b = (f part >>= fun x => .ok (x, b)) := by
  rw [within, StateT.run_lift]
  rfl

/-- `ReadExtensibleString` on a window is the read of `Spec.Encoding.Blockchain` on its
bytes. -/
theorem readExtensibleString_agrees (f : Decoder α) (r : Window mem) :
    Agrees r (Prod.map id Window.items) (Reader.readExtensibleString f r)
      ((readExtensibleString f.toReaderM).run r.items) := by
  refine (readVarstr31_agrees r).bind fun s r' hhi => ?_
  have hrun := exec_spec f s
  show Agrees r _ _ ((within f.toReaderM s.items).run r'.items)
  rw [run_within]
  cases hout : f.onList s.items with
  | mk result suffix =>
    rw [hout] at hrun
    cases result with
    | error err =>
      have hf : f.toReaderM s.items = .error err := by rw [Decoder.toReaderM, hout]
      simp only [hrun.result, hf]
      exact agrees_error r _ err
    | ok a =>
      obtain rfl := hrun.items
      have hf : f.toReaderM s.items = .ok (a, (f.exec s).reader.items) := by
        rw [Decoder.toReaderM, hout]
      simp only [hrun.result, hf]
      exact agrees_ok (Prod.map id Window.items) (a, (f.exec s).reader) hhi

/-- Where a string stands: behind the integer with its length, and in front of the reader
that is left. -/
theorem readVarstr31_layout {s : Window mem} (h : Reader.readVarstr31 r = .ok (s, r')) :
    ∃ len, IsVarint31 len s.len ∧ r.items = len ++ (s.items ++ r'.items) ∧
      s.lo = r.lo + len.length ∧ r'.lo = s.hi ∧ r'.hi = r.hi := by
  cases hl : Reader.readVarint31 r with
  | error err =>
    rw [Reader.readVarstr31, hl] at h
    cases h
  | ok p =>
    obtain ⟨l, r₁⟩ := p
    rw [Reader.readVarstr31, hl] at h
    simp only [bind, Except.bind] at h
    by_cases hle : l ≤ r₁.len
    · rw [dif_pos hle] at h
      obtain ⟨rfl, rfl⟩ := Prod.mk.inj (Except.ok.inj h)
      obtain ⟨hrun, hhi⟩ := readVarint31_agrees r
      rw [hl] at hrun hhi
      obtain ⟨len, hitems, hlen⟩ := readVarint31_reads.split hrun.symm
      have hlo : r₁.lo = r.lo + len.length := lo_eq_of_items (hhi _ rfl) hitems
      refine ⟨len, ?_, ?_, hlo, rfl, hhi _ rfl⟩
      · rw [Window.len_front]
        exact hlen
      · rw [Window.items_front_append_rest]
        exact hitems
    · rw [dif_neg hle] at h
      cases h

/-- The bytes of `WriteExtensibleString` are read back by the function that reads its body,
the suffix included. -/
theorem readExtensibleString_append {body : List UInt8} {x : α}
    (hf : ∀ t, f.onList (body ++ t) = (.ok x, t)) (hlen : (body ++ s).length ≤ maxInt32)
    (rest : List UInt8) :
    (readExtensibleString f.toReaderM).run (varstrBytes (body ++ s) ++ rest) =
      .ok ((x, s), rest) := by
  have hstr := readVarstr31_reads.append (writeVarstr31_spec (writeVarstr31_eq hlen)) rest
  rw [readExtensibleString, StateT.run_bind, hstr]
  show (within f.toReaderM (body ++ s)).run rest = _
  have hbody : f.toReaderM (body ++ s) = .ok (x, s) := by
    rw [Decoder.toReaderM, hf s]
  rw [run_within, hbody]
  rfl

/-- What is written around a body that `f` reads is read back, whatever array it stands
in. -/
theorem extensibleString_roundTrip {body : List UInt8} {x : α}
    (hf : ∀ t, f.onList (body ++ t) = (.ok x, t)) (hlen : (body ++ s).length ≤ maxInt32)
    {rest : List UInt8} (hitems : r.items = varstrBytes (body ++ s) ++ rest) :
    ∃ suffix r', Reader.readExtensibleString f r = .ok ((x, suffix), r') ∧
      suffix.items = s ∧ r'.items = rest := by
  have hagrees := readExtensibleString_agrees f r
  rw [hitems, readExtensibleString_append hf hlen rest] at hagrees
  obtain ⟨⟨a, suffix⟩, r', hread, hview, hrest, -⟩ := hagrees.eq_ok
  obtain ⟨rfl, hsuffix⟩ := Prod.mk.inj hview
  exact ⟨suffix, r', hread, hsuffix, hrest⟩

/-- `f` reads positions of the declared string only. -/
theorem seenByDecoder_declared {i : Nat} (hi : i ∈ Reader.seenByDecoder f r) :
    ∃ len l, IsVarint31 len l ∧ len <+: r.items ∧ r.lo + len.length ≤ i ∧
      i < r.lo + len.length + l := by
  rw [Reader.seenByDecoder] at hi
  cases hstr : Reader.readVarstr31 r with
  | error err =>
    -- `f` is not called.
    rw [hstr] at hi
    exact absurd hi List.not_mem_nil
  | ok p =>
    obtain ⟨s, r'⟩ := p
    rw [hstr] at hi
    obtain ⟨len, hlen, hitems, hlo, -, -⟩ := readVarstr31_layout hstr
    obtain ⟨hle, hlt⟩ := (Window.mem_positions s).mp ((exec_spec f s).seen i hi)
    have hs := s.lo_le
    refine ⟨len, s.len, hlen, ⟨_, hitems.symm⟩, by omega, ?_⟩
    rw [Window.len]
    omega

/-- After success the reader stands behind the declared string, and `f` did what it does on
the bytes of the string. -/
theorem readExtensibleString_layout {suffix : Window mem} {a : α}
    (hread : Reader.readExtensibleString f r = .ok ((a, suffix), r')) :
    ∃ len s, IsVarint31 len s.length ∧ r.items = len ++ (s ++ r'.items) ∧
      r'.lo = r.lo + len.length + s.length ∧ r'.hi = r.hi ∧
      f.onList s = (.ok a, suffix.items) := by
  cases hstr : Reader.readVarstr31 r with
  | error err =>
    rw [Reader.readExtensibleString, hstr] at hread
    cases hread
  | ok p =>
    obtain ⟨s, r₁⟩ := p
    obtain ⟨len, hlen, hitems, hlo, hend, hhi⟩ := readVarstr31_layout hstr
    have hrun := exec_spec f s
    rw [Reader.readExtensibleString, hstr] at hread
    simp only [bind, Except.bind] at hread
    cases hres : (f.exec s).result with
    | error err =>
      rw [hres] at hread
      cases hread
    | ok b =>
      rw [hres] at hread
      cases hread
      refine ⟨len, s.items, ?_, hitems, ?_, hhi, ?_⟩
      · rwa [Window.length_items]
      · have hs := s.lo_le
        rw [Window.length_items, Window.len]
        omega
      · rw [← hres, hrun.result, hrun.items]

/-- For every function `f` with a reader: what `WriteExtensibleString` writes around a body
that `f` reads is read back, whatever array it stands in; and on every reader `f` reads
positions of the declared string only, and the reader is left behind it. -/
theorem extensibleString_isolated (f : Decoder α) :
    (∀ (g : α → List UInt8) (x : α) (s : List UInt8),
      (∀ t, f.onList (g x ++ t) = (.ok x, t)) → (g x).length + s.length ≤ maxInt32 →
      ∀ {σ : Type} (under : IoWriter σ) (taken : σ → List UInt8),
      CountedWriter.Lawful under taken → ∀ pooled : FixedBytes 9,
      ∃ out, Emits under taken (OnWriter.writeExtensibleString under pooled s (.ok (g x))) out ∧
        ∀ (mem : List UInt8) (r : Window mem) (rest : List UInt8), r.items = out ++ rest →
          ∃ suffix r', Reader.readExtensibleString f r = .ok ((x, suffix), r') ∧
            suffix.items = s ∧ r'.items = rest) ∧
    ∀ (mem : List UInt8) (r : Window mem),
      (∀ i ∈ Reader.seenByDecoder f r, ∃ len l, IsVarint31 len l ∧ len <+: r.items ∧
        r.lo + len.length ≤ i ∧ i < r.lo + len.length + l) ∧
      ∀ a suffix r', Reader.readExtensibleString f r = .ok ((a, suffix), r') →
        ∃ len s, IsVarint31 len s.length ∧ r.items = len ++ (s ++ r'.items) ∧
          r'.lo = r.lo + len.length + s.length ∧ r'.hi = r.hi ∧
          f.onList s = (.ok a, suffix.items) := by
  refine ⟨?_, fun mem r => ⟨fun i hi => seenByDecoder_declared hi, fun a suffix r' hread =>
    readExtensibleString_layout hread⟩⟩
  intro g x s hf hlen σ under taken law pooled
  have hlen' : (g x ++ s).length ≤ maxInt32 := by rwa [List.length_append]
  exact ⟨_, writeExtensibleString_emits law pooled hlen', fun mem r rest hitems =>
    extensibleString_roundTrip hf hlen' hitems⟩

/-- A function that reads one byte. -/
def byteDecoder : Decoder UInt8 :=
  .readByte fun b => .done (b.elim (.error RootErr.eof.err) .ok)

/-- A body of one byte with a suffix of one byte. -/
theorem extensibleString_isolated_byte :
    ∃ out, Emits bufferWrite id
        (OnWriter.writeExtensibleString bufferWrite (.replicate 9 0xff) [7] (.ok [5])) out ∧
      ∀ (mem : List UInt8) (r : Window mem) (rest : List UInt8), r.items = out ++ rest →
        ∃ suffix r', Reader.readExtensibleString byteDecoder r = .ok ((5, suffix), r') ∧
          suffix.items = [7] ∧ r'.items = rest :=
  (extensibleString_isolated byteDecoder).1 (fun x => [x]) 5 [7] (fun _ => rfl) (by decide)
    bufferWrite id bufferWrite_lawful _

end BtmStats.Proofs.Blockchain
