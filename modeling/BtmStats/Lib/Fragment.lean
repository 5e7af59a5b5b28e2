import Mathlib.Data.List.Basic

/-!
# `BtmStats.Lib.Fragment`: messages cut into fragments and put together again

A sender queues messages, takes one at a time from the queue and cuts it into
fragments of a bounded size; the last fragment of a message is marked. A receiver
collects fragments in a buffer and delivers the buffer at the mark. `Stream` is the
state of both ends and of the fragments on their way, and `Stream.Step` is what can
happen to it.

`reassemble` is what the receiver will make of fragments. The invariant of a stream
says that the accepted messages are the delivered ones, those that the fragments in
flight complete, the one being cut, and the queued ones.
-/

set_option autoImplicit false

namespace BtmStats.Lib

variable {α : Type}

/-- A piece of a message, with the mark that the message ends here. -/
structure Fragment (α : Type) where
  last : Bool
  body : List α

/-- The messages that fragments complete when `buf` was collected before, and what
remains collected. -/
def reassemble : List α → List (Fragment α) → List (List α) × List α
  | buf, [] => ([], buf)
  | buf, f :: fs =>
    if f.last then
      ((buf ++ f.body) :: (reassemble [] fs).1, (reassemble [] fs).2)
    else reassemble (buf ++ f.body) fs

@[simp] theorem reassemble_nil (buf : List α) : reassemble buf [] = ([], buf) := rfl

theorem reassemble_cons_last (buf : List α) {f : Fragment α} (fs : List (Fragment α))
    (hf : f.last = true) : reassemble buf (f :: fs) =
      ((buf ++ f.body) :: (reassemble [] fs).1, (reassemble [] fs).2) := by
  rw [reassemble, if_pos hf]

theorem reassemble_cons_more (buf : List α) {f : Fragment α} (fs : List (Fragment α))
    (hf : f.last = false) : reassemble buf (f :: fs) = reassemble (buf ++ f.body) fs := by
  rw [reassemble, hf]
  rfl

/-- Reassembly goes on where it stopped. -/
theorem reassemble_append (buf : List α) (fs gs : List (Fragment α)) :
    reassemble buf (fs ++ gs) =
      ((reassemble buf fs).1 ++ (reassemble (reassemble buf fs).2 gs).1,
        (reassemble (reassemble buf fs).2 gs).2) := by
  induction fs generalizing buf with
  | nil => rfl
  | cons f fs ih =>
    rw [List.cons_append]
    cases hf : f.last with
    | true => simp only [reassemble_cons_last _ _ hf, ih, List.cons_append]
    | false => simp only [reassemble_cons_more _ _ hf, ih]

/-- A bound on all that the fragments lead to bounds what is collected already. -/
theorem length_le_of_reassemble {n : Nat} {buf : List α} {fs : List (Fragment α)}
    (hdone : ∀ m ∈ (reassemble buf fs).1, m.length ≤ n)
    (hrest : (reassemble buf fs).2.length ≤ n) : buf.length ≤ n := by
  induction fs generalizing buf with
  | nil => exact hrest
  | cons f fs ih =>
    -- The buffer is part of the message that the next mark completes, or of the rest.
    have hlen : (buf ++ f.body).length ≤ n := by
      cases hf : f.last with
      | true =>
        rw [reassemble_cons_last _ _ hf] at hdone
        exact hdone _ List.mem_cons_self
      | false =>
        rw [reassemble_cons_more _ _ hf] at hdone hrest
        exact ih hdone hrest
    rw [List.length_append] at hlen
    omega

/-! ### The number of fragments of a message -/

/-- The number of fragments of at most `size` items that a message is cut into. -/
def pieces (size : Nat) (m : List α) : Nat := (m.length + size - 1) / size

@[simp] theorem pieces_nil {size : Nat} (hsize : 0 < size) : pieces size ([] : List α) = 0 :=
  Nat.div_eq_of_lt (by rw [List.length_nil]; omega)

/-- Cutting off a fragment leaves one fragment less. -/
theorem pieces_drop {size : Nat} (hsize : 0 < size) {m : List α} (hm : m ≠ []) :
    pieces size m = pieces size (m.drop size) + 1 := by
  have hpos : 0 < m.length := List.length_pos_iff.mpr hm
  rw [pieces, pieces, List.length_drop]
  by_cases hle : m.length ≤ size
  · -- One fragment is enough, so nothing is left to cut.
    rw [Nat.sub_eq_zero_of_le hle, Nat.zero_add, Nat.div_eq_of_lt (by omega : size - 1 < size)]
    exact Nat.div_eq_of_lt_le (by omega) (by omega)
  · have hsplit : m.length + size - 1 = (m.length - size + size - 1) + size := by omega
    rw [hsplit, Nat.add_div_right _ hsize]

theorem eq_nil_of_pieces {size : Nat} (hsize : 0 < size) {m : List α} (h : pieces size m = 0) :
    m = [] := by
  by_contra hm
  rw [pieces_drop hsize hm] at h
  cases h

/-! ### Streams -/

/-- Both ends of a stream of messages. -/
structure Stream (α : Type) where
  accepted : List (List α)
  queue : List (List α)
  sending : List α
  flight : List (Fragment α)
  recving : List α
  delivered : List (List α)

namespace Stream

/-- The stream before the first message. -/
def empty : Stream α := ⟨[], [], [], [], [], []⟩

/-- What can happen to a stream: a message is accepted, the next message is taken
from the queue, a fragment is cut off, a fragment arrives. -/
inductive Step (size : Nat) : Stream α → Stream α → Prop
  | accept (s : Stream α) (m : List α) (hm : m ≠ []) :
      Step size s { s with accepted := s.accepted ++ [m], queue := s.queue ++ [m] }
  | load (s : Stream α) (m : List α) (q : List (List α)) (hs : s.sending = [])
      (hq : s.queue = m :: q) : Step size s { s with sending := m, queue := q }
  | cut (s : Stream α) (hs : s.sending ≠ []) :
      Step size s { s with
        sending := s.sending.drop size
        flight := s.flight ++ [⟨decide (s.sending.length ≤ size), s.sending.take size⟩] }
  | arriveLast (s : Stream α) (f : Fragment α) (fs : List (Fragment α))
      (hfl : s.flight = f :: fs) (hf : f.last = true) :
      Step size s { s with
        flight := fs, recving := [], delivered := s.delivered ++ [s.recving ++ f.body] }
  | arriveMore (s : Stream α) (f : Fragment α) (fs : List (Fragment α))
      (hfl : s.flight = f :: fs) (hf : f.last = false) :
      Step size s { s with flight := fs, recving := s.recving ++ f.body }

/-- The message that is being cut, with what the fragments in flight leave collected
of it. -/
def partly (s : Stream α) : List (List α) :=
  if s.sending = [] then [] else [(reassemble s.recving s.flight).2 ++ s.sending]

/-- No message is lost, doubled or reordered. -/
structure Inv (s : Stream α) : Prop where
  accepted_eq : s.accepted =
    s.delivered ++ (reassemble s.recving s.flight).1 ++ s.partly ++ s.queue
  nonempty : ∀ m ∈ s.accepted, m ≠ []
  flight_nonempty : ∀ f ∈ s.flight, f.body ≠ []
  idle : s.sending = [] → (reassemble s.recving s.flight).2 = []

theorem Inv.empty : Inv (empty : Stream α) :=
  ⟨rfl, fun _ h => absurd h List.not_mem_nil, fun _ h => absurd h List.not_mem_nil, fun _ => rfl⟩

variable {size : Nat} {s t : Stream α}

theorem partly_of_idle (hs : s.sending = []) : s.partly = [] := if_pos hs

theorem partly_of_busy (hs : s.sending ≠ []) :
    s.partly = [(reassemble s.recving s.flight).2 ++ s.sending] := if_neg hs

/-- Cutting off a fragment: the last one completes the message, another one moves
its items from `sending` to what is collected. -/
theorem Inv.cut (h : Inv s) (hsize : 0 < size) (hs : s.sending ≠ []) : Inv { s with
    sending := s.sending.drop size
    flight := s.flight ++ [⟨decide (s.sending.length ≤ size), s.sending.take size⟩] } := by
  have heq := h.accepted_eq
  rw [partly_of_busy hs] at heq
  have htake : s.sending.take size ≠ [] := by
    intro hnil
    rcases List.take_eq_nil_iff.mp hnil with hz | hz
    · omega
    · exact hs hz
  have hflight : ∀ f ∈ s.flight ++ [⟨decide (s.sending.length ≤ size), s.sending.take size⟩],
      f.body ≠ [] := by
    intro f hf
    rcases List.mem_append.mp hf with hf | hf
    · exact h.flight_nonempty f hf
    · rw [List.mem_singleton.mp hf]
      exact htake
  by_cases hle : s.sending.length ≤ size
  · -- The whole rest goes out, marked as the last fragment.
    have hdrop : s.sending.drop size = [] := List.drop_eq_nil_of_le hle
    have hre : reassemble s.recving (s.flight ++ [⟨true, s.sending.take size⟩]) =
        ((reassemble s.recving s.flight).1 ++ [(reassemble s.recving s.flight).2 ++ s.sending],
          []) := by
      rw [reassemble_append, reassemble_cons_last _ _ rfl, List.take_of_length_le hle]
      rfl
    simp only [decide_eq_true hle] at hflight ⊢
    refine ⟨?_, h.nonempty, hflight, fun _ => by rw [hre]⟩
    rw [partly_of_idle hdrop, hre, heq]
    simp only [List.append_assoc, List.nil_append]
  · -- A part stays behind, and what was cut off is collected in front of it.
    have hdrop : s.sending.drop size ≠ [] := by
      rw [Ne, List.drop_eq_nil_iff]
      exact hle
    have hre : reassemble s.recving (s.flight ++ [⟨false, s.sending.take size⟩]) =
        ((reassemble s.recving s.flight).1,
          (reassemble s.recving s.flight).2 ++ s.sending.take size) := by
      rw [reassemble_append, reassemble_cons_more _ _ rfl, reassemble_nil, List.append_nil]
    simp only [decide_eq_false hle] at hflight ⊢
    refine ⟨?_, h.nonempty, hflight, fun hnil => absurd hnil hdrop⟩
    rw [partly_of_busy hdrop, hre, heq]
    simp only [List.append_assoc, List.take_append_drop]

/-- A fragment arrives. What is collected at the end stays the same, and so does what is delivered
in the end. -/
theorem Inv.arrive (h : Inv s) {f : Fragment α} {fs : List (Fragment α)}
    (hfl : s.flight = f :: fs) {recving : List α} {delivered : List (List α)}
    (hrest : (reassemble s.recving s.flight).2 = (reassemble recving fs).2)
    (hdone : s.delivered ++ (reassemble s.recving s.flight).1 =
      delivered ++ (reassemble recving fs).1) :
    Inv { s with flight := fs, recving := recving, delivered := delivered } := by
  refine ⟨?_, h.nonempty, fun g hg => h.flight_nonempty g (by rw [hfl]; exact .tail _ hg),
    fun hs => ?_⟩
  · rw [h.accepted_eq, partly, partly, hdone, hrest]
  · rw [← h.idle hs, hrest]

/-- Every step keeps the invariant. -/
theorem Step.inv (hsize : 0 < size) (hstep : Step size s t) (h : Inv s) : Inv t := by
  have heq := h.accepted_eq
  cases hstep with
  | accept m hm =>
    refine ⟨?_, ?_, h.flight_nonempty, h.idle⟩
    · -- The new message is last on both sides.
      show s.accepted ++ [m] = s.delivered ++ _ ++ s.partly ++ (s.queue ++ [m])
      rw [heq, List.append_assoc _ s.queue]
    · intro m' hm'
      rcases List.mem_append.mp hm' with hm' | hm'
      · exact h.nonempty m' hm'
      · rw [List.mem_singleton.mp hm']
        exact hm
  | load m q hs hq =>
    have hm : m ≠ [] := h.nonempty m (by rw [heq, hq]; simp)
    refine ⟨?_, h.nonempty, h.flight_nonempty, fun hnil => absurd hnil hm⟩
    -- Nothing of the message is in flight yet.
    rw [partly_of_busy hm, h.idle hs, heq, partly_of_idle hs, hq]
    simp only [List.nil_append, List.append_nil, List.append_assoc, List.singleton_append]
  | cut hs => exact h.cut hsize hs
  | arriveLast f fs hfl hf =>
    -- The message that the fragment completes moves from the front of `reassemble` to the
    -- end of `delivered`.
    have hre := reassemble_cons_last s.recving fs hf
    rw [← hfl] at hre
    apply h.arrive hfl
    · rw [hre]
    · rw [hre, List.append_assoc, List.singleton_append]
  | arriveMore f fs hfl hf =>
    -- The body of the fragment moves into the buffer, so `reassemble` gives the same.
    have hre := reassemble_cons_more s.recving fs hf
    rw [← hfl] at hre
    apply h.arrive hfl
    · rw [hre]
    · rw [hre]

/-- The receiver has room for the next fragment when it has room for every message. -/
theorem Inv.fits (h : Inv s) {n : Nat} (hn : ∀ m ∈ s.accepted, m.length ≤ n)
    {f : Fragment α} {fs : List (Fragment α)} (hfl : s.flight = f :: fs) :
    s.recving.length + f.body.length ≤ n := by
  have hdone : ∀ m ∈ (reassemble s.recving s.flight).1, m.length ≤ n := by
    intro m hm
    apply hn
    rw [h.accepted_eq]
    simp [hm]
  have hrest : (reassemble s.recving s.flight).2.length ≤ n := by
    by_cases hs : s.sending = []
    · rw [h.idle hs]
      exact Nat.zero_le n
    · -- What stays collected is the start of the message that is being cut.
      have hmem : (reassemble s.recving s.flight).2 ++ s.sending ∈ s.accepted := by
        rw [h.accepted_eq, partly_of_busy hs]
        simp
      have hlen := hn _ hmem
      rw [List.length_append] at hlen
      omega
  rw [hfl] at hdone hrest
  rw [← List.length_append]
  cases hf : f.last with
  | true =>
    rw [reassemble_cons_last _ _ hf] at hdone
    exact hdone _ List.mem_cons_self
  | false =>
    rw [reassemble_cons_more _ _ hf] at hdone hrest
    exact length_le_of_reassemble hdone hrest

/-- The messages delivered are the first ones accepted. -/
theorem Inv.delivered_initial (h : Inv s) : s.delivered <+: s.accepted := by
  rw [h.accepted_eq, List.append_assoc, List.append_assoc]
  exact List.prefix_append _ _

/-- When nothing is left to send or in flight, all is delivered and nothing is left
collected. -/
theorem Inv.drained (h : Inv s) (hq : s.queue = []) (hs : s.sending = []) (hfl : s.flight = []) :
    s.delivered = s.accepted ∧ s.recving = [] := by
  have heq := h.accepted_eq
  have hidle := h.idle hs
  rw [partly_of_idle hs, hq, hfl] at heq
  rw [hfl] at hidle
  refine ⟨?_, hidle⟩
  rw [heq]
  simp only [reassemble_nil, List.append_nil]

end Stream

end BtmStats.Lib
