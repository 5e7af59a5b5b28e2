import BtmStats.Proofs.P2p.Nonces
import Mathlib.Data.List.Iterate

/-!
# `BtmStats.Proofs.P2p.SecretConnection`: what arrives at the other end

Each direction of a connection is a link of its own: what one end sends and what the
other end has received of it (`linkFrom`). `write_spec`, `read_frame`, `read_empty`
and `read_leftover` say what a call does, and `LinkInv` is the invariant of a link
over whole runs: the bytes in flight are sealed frames, and the nonce that the
receiver expects is the one of the first of them.

`Read` loses what it copies from the bytes left of the last frame, because it returns
`n = 0` for them. `lost` counts these bytes over a run, and `Balanced` accounts for
every byte.
-/

set_option autoImplicit false

namespace BtmStats.Proofs.P2p

open Lib Spec Spec.P2p

section
variable (box : SecretBox)

/-! ### `Write` -/

/-- The chunks sealed one after the other, with the nonces from `nonce` on. -/
def sealedFrames (key : FixedBytes 32) : Nonce → List (List UInt8) → List (Nonce × List UInt8)
  | _, [] => []
  | nonce, c :: cs =>
    (nonce, box.sealBox (makeFrame c) nonce key) :: sealedFrames key (incr2Nonce nonce) cs

/-- The bytes of frames. -/
def frameBytes (frames : List (Nonce × List UInt8)) : List UInt8 := (frames.map Prod.snd).flatten

/-- A chunk that fits a frame. -/
def Fits (c : List UInt8) : Prop := 1 ≤ c.length ∧ c.length ≤ dataMaxSize

variable {box}

theorem sealedFrames_append (key : FixedBytes 32) (ds : List (List UInt8)) :
    ∀ (cs : List (List UInt8)) (nonce : Nonce), sealedFrames box key nonce (cs ++ ds) =
      sealedFrames box key nonce cs ++ sealedFrames box key (incr2Nonce^[cs.length] nonce) ds := by
  intro cs
  induction cs with
  | nil => exact fun _ => rfl
  | cons c cs ih =>
    intro nonce
    rw [List.cons_append, sealedFrames, ih]
    rfl

theorem frameBytes_append (fs gs : List (Nonce × List UInt8)) :
    frameBytes (fs ++ gs) = frameBytes fs ++ frameBytes gs := by
  rw [frameBytes, List.map_append, List.flatten_append]
  rfl

/-- The nonces of frames are consecutive. -/
theorem map_fst_sealedFrames (key : FixedBytes 32) :
    ∀ (cs : List (List UInt8)) (nonce : Nonce),
      (sealedFrames box key nonce cs).map Prod.fst = List.iterate incr2Nonce nonce cs.length := by
  intro cs
  induction cs with
  | nil => exact fun _ => rfl
  | cons c cs ih =>
    intro nonce
    rw [sealedFrames, List.map_cons, ih]
    rfl

variable (box) in
/-- The loop of `Write` ends when nothing is left to send. -/
theorem writeLoop_nil (sc : SecretConnection) (frames : List (Nonce × List UInt8)) (n : Nat) :
    SecretConnection.writeLoop box (fun _ => none) sc [] frames n = ⟨sc, frames, n, none⟩ := by
  rw [SecretConnection.writeLoop, if_pos rfl]

variable (box) in
/-- The loop of `Write` over a connection that takes every frame. Induction on the
number of bytes left. -/
theorem writeLoop_spec (k : Nat) :
    ∀ (sc : SecretConnection) (data : List UInt8) (frames : List (Nonce × List UInt8)) (n : Nat),
      data.length ≤ k → ∃ chunks : List (List UInt8), chunks.flatten = data ∧
        (∀ c ∈ chunks, Fits c) ∧
        SecretConnection.writeLoop box (fun _ => none) sc data frames n =
          ⟨{ sc with sendNonce := incr2Nonce^[chunks.length] sc.sendNonce },
            frames ++ sealedFrames box sc.shrSecret sc.sendNonce chunks, n + data.length,
            none⟩ := by
  induction k with
  | zero =>
    intro sc data frames n hk
    obtain rfl : data = [] := List.length_eq_zero_iff.mp (Nat.le_zero.mp hk)
    refine ⟨[], rfl, by simp, ?_⟩
    rw [writeLoop_nil, sealedFrames, List.append_nil]
    rfl
  | succ k ih =>
    intro sc data frames n hk
    by_cases hdata : data = []
    · subst hdata
      refine ⟨[], rfl, by simp, ?_⟩
      rw [writeLoop_nil, sealedFrames, List.append_nil]
      rfl
    · have hpos : 0 < data.length := List.length_pos_iff.mpr hdata
      have hmax : 0 < dataMaxSize := by decide
      -- One turn of the loop: a chunk is cut off and sealed with the next nonce.
      let chunk := data.take dataMaxSize
      obtain ⟨chunks, hflat, hfits, hrun⟩ :=
        ih { sc with sendNonce := incr2Nonce sc.sendNonce } (data.drop dataMaxSize)
          (frames ++ [(sc.sendNonce, box.sealBox (makeFrame chunk) sc.sendNonce sc.shrSecret)])
          (n + chunk.length) (by rw [List.length_drop]; omega)
      refine ⟨chunk :: chunks, ?_, ?_, ?_⟩
      · rw [List.flatten_cons, hflat, List.take_append_drop]
      · refine List.forall_mem_cons.mpr ⟨?_, hfits⟩
        rw [Fits, List.length_take]
        omega
      · have hlen : n + chunk.length + (data.drop dataMaxSize).length = n + data.length := by
          rw [List.length_take, List.length_drop]
          omega
        rw [SecretConnection.writeLoop, if_neg hdata]
        simp only []
        rw [hrun, hlen, sealedFrames, List.append_assoc]
        rfl

variable (box) in
/-- `Write` cuts its data into chunks and sends them all. -/
theorem write_spec (sc : SecretConnection) (data : List UInt8) :
    ∃ chunks : List (List UInt8), chunks.flatten = data ∧ (∀ c ∈ chunks, Fits c) ∧
      SecretConnection.write box (fun _ => none) sc data =
        ⟨{ sc with sendNonce := incr2Nonce^[chunks.length] sc.sendNonce },
          sealedFrames box sc.shrSecret sc.sendNonce chunks, data.length, none⟩ := by
  obtain ⟨chunks, hflat, hfits, hrun⟩ :=
    writeLoop_spec box data.length sc data [] 0 (Nat.le_refl _)
  rw [List.nil_append, Nat.zero_add] at hrun
  exact ⟨chunks, hflat, hfits, hrun⟩

/-! ### `Read` -/

variable {c : List UInt8} {sc : SecretConnection}

theorem length_makeFrame (hc : c.length ≤ dataMaxSize) : (makeFrame c).length = totalFrameSize := by
  rw [makeFrame, List.length_append, List.length_append, length_toBytesBE, List.length_replicate,
    totalFrameSize]
  omega

/-- The length field of a frame. -/
theorem chunkLength_makeFrame (hc : c.length ≤ dataMaxSize) :
    ofBytesBE ((makeFrame c).take dataLenSize) = c.length := by
  rw [makeFrame, List.append_assoc, List.take_left' (length_toBytesBE _ _)]
  refine ofBytesBE_toBytesBE_of_lt (Nat.lt_of_le_of_lt hc ?_)
  decide

/-- The chunk of a frame. -/
theorem chunk_makeFrame (c : List UInt8) :
    ((makeFrame c).drop dataLenSize).take c.length = c := by
  rw [makeFrame, List.append_assoc, List.drop_left' (length_toBytesBE _ _), List.take_left' rfl]

/-- What is left behind the bytes that were copied. -/
private theorem drop_length_take (l : List UInt8) (size : Nat) :
    l.drop (l.take size).length = l.drop size := by
  rw [List.length_take]
  rcases Nat.le_total size l.length with hle | hle
  · rw [Nat.min_eq_left hle]
  · rw [Nat.min_eq_right hle, List.drop_length, List.drop_of_length_le hle]

/-- With bytes left from the last frame, `Read` copies from them, and returns 0. -/
theorem read_leftover (h : sc.recvBuffer ≠ []) (wire : List UInt8) (size : Nat) :
    SecretConnection.read box sc wire size =
      ⟨{ sc with recvBuffer := sc.recvBuffer.drop size }, wire, none, sc.recvBuffer.take size, 0,
        none⟩ := by
  rw [SecretConnection.read, if_pos (List.length_pos_iff.mpr h)]
  simp only [drop_length_take]

/-- With nothing in flight, `Read` reports the end of the stream. -/
theorem read_empty (h : sc.recvBuffer = []) (size : Nat) :
    SecretConnection.read box sc [] size = ⟨sc, [], none, [], 0, some RootErr.eof.err⟩ := by
  rw [SecretConnection.read, if_neg (by simp [h]), if_pos (by decide)]
  rfl

/-- `Read` of the next frame. -/
theorem read_frame (doc : box.Documented) (h : sc.recvBuffer = []) (hc : c.length ≤ dataMaxSize)
    (rest : List UInt8) (size : Nat) :
    SecretConnection.read box sc
        (box.sealBox (makeFrame c) sc.recvNonce sc.shrSecret ++ rest) size =
      ⟨{ sc with recvNonce := incr2Nonce sc.recvNonce, recvBuffer := c.drop size }, rest,
        some sc.recvNonce, c.take size, (c.take size).length, none⟩ := by
  -- `io.ReadFull` takes exactly one sealed frame from the wire.
  have hlen : (box.sealBox (makeFrame c) sc.recvNonce sc.shrSecret).length = sealedFrameSize := by
    rw [doc.length_seal, length_makeFrame hc, sealedFrameSize]
  rw [SecretConnection.read, if_neg (by simp [h]),
    if_neg (by rw [List.length_append]; omega), List.take_left' hlen, List.drop_left' hlen,
    doc.open_seal]
  simp only [chunkLength_makeFrame hc, chunk_makeFrame, drop_length_take,
    if_neg (Nat.not_lt.mpr hc), gt_iff_lt]

/-! ### One direction of a connection -/

/-- What `p` sends and what the other end has received of it. -/
structure Link where
  sendKey : FixedBytes 32
  recvKey : FixedBytes 32
  sendNonce : Nonce
  recvNonce : Nonce
  wire : List UInt8
  recvBuffer : List UInt8
  written : List UInt8
  delivered : List UInt8
  sealNonces : List Nonce
  openNonces : List Nonce

/-- The direction of a connection that starts at `p`. -/
def linkFrom (w : World) (p : Party) : Link where
  sendKey := (w p).sc.shrSecret
  recvKey := (w p.other).sc.shrSecret
  sendNonce := (w p).sc.sendNonce
  recvNonce := (w p.other).sc.recvNonce
  wire := (w p).wire
  recvBuffer := (w p.other).sc.recvBuffer
  written := (w p).written
  delivered := (w p.other).delivered
  sealNonces := (w p).sealNonces
  openNonces := (w p.other).openNonces

variable (box) in
/-- The link with the chunks that are in flight. -/
structure LinkInv (l : Link) (chunks : List (List UInt8)) : Prop where
  key_eq : l.recvKey = l.sendKey
  fits : ∀ c ∈ chunks, Fits c
  wire_eq : l.wire = frameBytes (sealedFrames box l.sendKey l.recvNonce chunks)
  sendNonce_eq : l.sendNonce = incr2Nonce^[chunks.length] l.recvNonce
  sealNonces_eq : l.sealNonces = l.openNonces ++ List.iterate incr2Nonce l.recvNonce chunks.length

variable (box) in
/-- All that a call can do to the link that starts at `p`. -/
inductive LinkStep (p : Party) :
    Op → Link → List (List UInt8) → Link → List (List UInt8) → Prop
  /-- Calls for the other direction, and a `Read` that finds nothing. -/
  | idle {op l cs} (hread : ∀ size, op = .read p.other size → l.recvBuffer = []) :
      (∀ data, op ≠ .write p data) → LinkStep p op l cs l cs
  | write {l cs} (data new) : new.flatten = data → (∀ c ∈ new, Fits c) →
      LinkStep p (.write p data) l cs { l with
        sendNonce := incr2Nonce^[new.length] l.sendNonce
        wire := l.wire ++ frameBytes (sealedFrames box l.sendKey l.sendNonce new)
        written := l.written ++ data
        sealNonces := l.sealNonces ++ List.iterate incr2Nonce l.sendNonce new.length } (cs ++ new)
  | leftover {l cs} (size) : l.recvBuffer ≠ [] →
      LinkStep p (.read p.other size) l cs
        { l with recvBuffer := l.recvBuffer.drop size } cs
  | frame {l c cs} (size) : l.recvBuffer = [] →
      LinkStep p (.read p.other size) l (c :: cs) { l with
        recvNonce := incr2Nonce l.recvNonce
        wire := frameBytes (sealedFrames box l.sendKey (incr2Nonce l.recvNonce) cs)
        recvBuffer := c.drop size
        delivered := l.delivered ++ c.take size
        openNonces := l.openNonces ++ [l.recvNonce] } cs

variable {p : Party} {cs cs' : List (List UInt8)} {l l' : Link} {w : World} {op : Op}

theorem other_ne (p : Party) : p.other ≠ p := by
  cases p <;> decide

theorem other_other (p : Party) : p.other.other = p := by
  cases p <;> rfl

variable (box) in
/-- A `Write` at the start of the link. -/
theorem link_write (w : World) (p : Party) (data : List UInt8) (cs : List (List UInt8)) :
    ∃ new, LinkStep box p (.write p data) (linkFrom w p) cs
      (linkFrom (w.step box (.write p data)) p) (cs ++ new) := by
  obtain ⟨new, hflat, hfits, hrun⟩ := write_spec box (w p).sc data
  have hlink : linkFrom (w.step box (.write p data)) p = { linkFrom w p with
      sendNonce := incr2Nonce^[new.length] (w p).sc.sendNonce
      wire := (w p).wire ++ frameBytes (sealedFrames box (w p).sc.shrSecret (w p).sc.sendNonce new)
      written := (w p).written ++ data
      sealNonces := (w p).sealNonces ++
        List.iterate incr2Nonce (w p).sc.sendNonce new.length } := by
    simp only [linkFrom, World.step, hrun, Function.update_self,
      Function.update_of_ne (other_ne p), map_fst_sealedFrames, frameBytes]
  rw [hlink]
  exact ⟨new, .write data new hflat hfits⟩

/-- A `Write` at the other end does not touch the link. -/
theorem link_write_other (w : World) (p : Party) (data : List UInt8) :
    linkFrom (w.step box (.write p.other data)) p = linkFrom w p := by
  obtain ⟨new, -, -, hrun⟩ := write_spec box (w p.other).sc data
  simp only [linkFrom, World.step, hrun, Function.update_self,
    Function.update_of_ne (other_ne p).symm]

variable (box) in
/-- `Read` keeps the sending side of a connection. -/
theorem read_sendSide (sc : SecretConnection) (wire : List UInt8) (size : Nat) :
    (SecretConnection.read box sc wire size).sc.sendNonce = sc.sendNonce ∧
      (SecretConnection.read box sc wire size).sc.shrSecret = sc.shrSecret := by
  rw [SecretConnection.read]
  split
  · exact ⟨rfl, rfl⟩
  · split
    · exact ⟨rfl, rfl⟩
    · simp only []
      split
      · exact ⟨rfl, rfl⟩
      · split <;> exact ⟨rfl, rfl⟩

/-- A `Read` at the start of the link does not touch it. -/
theorem link_read_self (w : World) (p : Party) (size : Nat) :
    linkFrom (w.step box (.read p size)) p = linkFrom w p := by
  obtain ⟨hnonce, hkey⟩ := read_sendSide box (w p).sc (w p.other).wire size
  simp only [linkFrom, World.step, Function.update_self, Function.update_of_ne (other_ne p),
    Function.update_of_ne (other_ne p).symm, hnonce, hkey]

/-- A `Read` at the end of the link. -/
theorem link_read (doc : box.Documented) (h : LinkInv box (linkFrom w p) cs) (size : Nat) :
    ∃ cs', LinkStep box p (.read p.other size) (linkFrom w p) cs
      (linkFrom (w.step box (.read p.other size)) p) cs' := by
  have hne := other_ne p
  have hwire : (w p).wire =
      frameBytes (sealedFrames box (w p.other).sc.shrSecret (w p.other).sc.recvNonce cs) := by
    rw [show (w p.other).sc.shrSecret = (w p).sc.shrSecret from h.key_eq]
    exact h.wire_eq
  by_cases hbuf : (w p.other).sc.recvBuffer = []
  · cases cs with
    | nil =>
      -- Nothing is in flight: `Read` fails and changes nothing.
      have hnil : (w p).wire = [] := hwire
      have hlink : linkFrom (w.step box (.read p.other size)) p = linkFrom w p := by
        simp only [linkFrom, World.step, other_other, hnil, read_empty hbuf,
          Function.update_self, Function.update_of_ne hne, Function.update_of_ne hne.symm]
        simp
      rw [hlink]
      exact ⟨[], .idle (fun _ _ => hbuf) (by simp)⟩
    | cons c cs =>
      -- The first frame in flight is the one that the receiver's nonce opens.
      have hc : c.length ≤ dataMaxSize := (h.fits c List.mem_cons_self).2
      have hframe := read_frame doc hbuf hc
        (frameBytes (sealedFrames box (w p.other).sc.shrSecret
          (incr2Nonce (w p.other).sc.recvNonce) cs)) size
      have hsplit : (w p).wire = box.sealBox (makeFrame c) (w p.other).sc.recvNonce
          (w p.other).sc.shrSecret ++ frameBytes (sealedFrames box (w p.other).sc.shrSecret
          (incr2Nonce (w p.other).sc.recvNonce) cs) := hwire
      have hlink : linkFrom (w.step box (.read p.other size)) p = { linkFrom w p with
          recvNonce := incr2Nonce (w p.other).sc.recvNonce
          wire := frameBytes (sealedFrames box (w p).sc.shrSecret
            (incr2Nonce (w p.other).sc.recvNonce) cs)
          recvBuffer := c.drop size
          delivered := (w p.other).delivered ++ c.take size
          openNonces := (w p.other).openNonces ++ [(w p.other).sc.recvNonce] } := by
        rw [← show (w p.other).sc.shrSecret = (w p).sc.shrSecret from h.key_eq]
        simp only [linkFrom, World.step, other_other, hsplit, hframe,
          Function.update_self, Function.update_of_ne hne, Function.update_of_ne hne.symm,
          ReadResult.data, if_true, List.take_take, Option.toList_some]
        simp
      rw [hlink]
      exact ⟨cs, .frame size hbuf⟩
  · -- Bytes are left of the last frame: they are dropped from the buffer and not counted.
    have hlink : linkFrom (w.step box (.read p.other size)) p =
        { linkFrom w p with recvBuffer := (w p.other).sc.recvBuffer.drop size } := by
      simp only [linkFrom, World.step, other_other, read_leftover hbuf,
        Function.update_self, Function.update_of_ne hne, Function.update_of_ne hne.symm,
        ReadResult.data, if_true, List.take_zero, Option.toList_none, List.append_nil]
    rw [hlink]
    exact ⟨cs, .leftover size hbuf⟩

/-- Every call is a step of the link. -/
theorem link_step (doc : box.Documented) (h : LinkInv box (linkFrom w p) cs) (op : Op) :
    ∃ cs', LinkStep box p op (linkFrom w p) cs (linkFrom (w.step box op) p) cs' := by
  cases op with
  | write q data =>
    by_cases hq : q = p
    · subst hq
      obtain ⟨new, hstep⟩ := link_write box w q data cs
      exact ⟨cs ++ new, hstep⟩
    · obtain rfl : q = p.other := by
        cases q <;> cases p <;> simp_all [Party.other]
      rw [link_write_other]
      exact ⟨cs, .idle (by simp) fun data' hop => hq (Op.write.inj hop).1⟩
  | read q size =>
    by_cases hq : q = p
    · subst hq
      rw [link_read_self]
      exact ⟨cs, .idle (fun _ hop => absurd (Op.read.inj hop).1.symm (other_ne q)) (by simp)⟩
    · obtain rfl : q = p.other := by
        cases q <;> cases p <;> simp_all [Party.other]
      exact link_read doc h size

/-! ### Invariants of a link -/

/-- A step keeps the invariant of the frames in flight. -/
theorem LinkStep.inv (hstep : LinkStep box p op l cs l' cs') (h : LinkInv box l cs) :
    LinkInv box l' cs' := by
  cases hstep with
  | idle _ _ => exact h
  | leftover size _ => exact ⟨h.key_eq, h.fits, h.wire_eq, h.sendNonce_eq, h.sealNonces_eq⟩
  | write data new hflat hfits =>
    refine ⟨h.key_eq, ?_, ?_, ?_, ?_⟩
    · intro c hc
      -- The new frames follow those in flight, and so do their nonces.
      exact (List.mem_append.mp hc).elim (h.fits c) (hfits c)
    · show _ = frameBytes (sealedFrames box l.sendKey l.recvNonce (cs ++ new))
      rw [sealedFrames_append, frameBytes_append, ← h.wire_eq, ← h.sendNonce_eq]
    · show incr2Nonce^[new.length] l.sendNonce = _
      rw [h.sendNonce_eq, ← Function.iterate_add_apply, List.length_append, Nat.add_comm]
    · show l.sealNonces ++ _ = _
      rw [h.sealNonces_eq, h.sendNonce_eq, List.append_assoc, List.length_append,
        List.iterate_add]
  | @frame _ c _ size _ =>
    obtain ⟨-, hfits⟩ := List.forall_mem_cons.mp h.fits
    -- The nonce of the first frame moves from the ones in flight to the opened ones.
    refine ⟨h.key_eq, hfits, rfl, h.sendNonce_eq, ?_⟩
    show l.sealNonces = l.openNonces ++ [l.recvNonce] ++ _
    rw [h.sealNonces_eq, List.append_assoc]
    rfl

/-- The nonces that an end has sealed with are consecutive from `n₀` on. -/
def SealedFrom (n₀ : Nonce) (l : Link) : Prop :=
  l.sealNonces = List.iterate incr2Nonce n₀ l.sealNonces.length ∧
    l.sendNonce = incr2Nonce^[l.sealNonces.length] n₀

theorem LinkStep.sealedFrom {n₀ : Nonce} (hstep : LinkStep box p op l cs l' cs')
    (h : SealedFrom n₀ l) : SealedFrom n₀ l' := by
  obtain ⟨hseal, hsend⟩ := h
  cases hstep with
  | idle _ _ => exact ⟨hseal, hsend⟩
  | leftover size _ => exact ⟨hseal, hsend⟩
  | frame size _ => exact ⟨hseal, hsend⟩
  | write data new hflat hfits =>
    have hlen : (l.sealNonces ++ List.iterate incr2Nonce l.sendNonce new.length).length =
        l.sealNonces.length + new.length := by
      rw [List.length_append, List.length_iterate]
    refine ⟨?_, ?_⟩
    · show l.sealNonces ++ List.iterate incr2Nonce l.sendNonce new.length = _
      rw [hlen, List.iterate_add, ← hsend, ← hseal]
    · show incr2Nonce^[new.length] l.sendNonce = _
      rw [hlen, hsend, ← Function.iterate_add_apply, Nat.add_comm]

/-- What was delivered, what is left of the last frame and what is in flight make up
what was written. -/
def Lossless (l : Link) (cs : List (List UInt8)) : Prop :=
  l.delivered ++ l.recvBuffer ++ cs.flatten = l.written

/-- A step that finds no bytes left of the last frame loses nothing. -/
theorem LinkStep.lossless (hstep : LinkStep box p op l cs l' cs') (h : Lossless l cs)
    (hclean : ∀ size, op = .read p.other size → l.recvBuffer = []) : Lossless l' cs' := by
  cases hstep with
  | idle _ _ => exact h
  | leftover size hne => exact absurd (hclean size rfl) hne
  | write data new hflat _ =>
    show l.delivered ++ l.recvBuffer ++ (cs ++ new).flatten = l.written ++ data
    rw [List.flatten_append, ← List.append_assoc, h, hflat]
  | @frame _ c _ size hnil =>
    show l.delivered ++ c.take size ++ c.drop size ++ cs'.flatten = l.written
    rw [← h, hnil, List.append_nil, List.append_assoc l.delivered, List.take_append_drop,
      List.flatten_cons, List.append_assoc]

/-- The number of bytes that a call takes from the bytes left of the last frame. -/
def lostBy (p : Party) (l : Link) : Op → Nat
  | .read q size => if q = p.other then min size l.recvBuffer.length else 0
  | .write _ _ => 0

/-- The accounts of a link after `k` bytes have been lost. -/
def Balanced (l : Link) (cs : List (List UInt8)) (k : Nat) : Prop :=
  l.delivered.length + k + l.recvBuffer.length + cs.flatten.length = l.written.length

/-- A step keeps the accounts. -/
theorem LinkStep.balanced {k : Nat} (hstep : LinkStep box p op l cs l' cs') (h : Balanced l cs k) :
    Balanced l' cs' (k + lostBy p l op) := by
  rw [Balanced] at h
  cases hstep with
  | idle hread _ =>
    -- An idle `Read` at the end of the link finds an empty buffer.
    have hzero : lostBy p l op = 0 := by
      cases op with
      | write q data => rfl
      | read q size =>
        rw [lostBy]
        split
        · rename_i hq
          rw [hread size (by rw [hq])]
          simp
        · rfl
    rw [hzero]
    exact h
  | leftover size _ =>
    show l.delivered.length + (k + lostBy p l _) + (l.recvBuffer.drop size).length +
      cs.flatten.length = l.written.length
    rw [lostBy, if_pos rfl, List.length_drop]
    omega
  | write data new hflat _ =>
    show l.delivered.length + (k + 0) + l.recvBuffer.length + (cs ++ new).flatten.length =
      (l.written ++ data).length
    rw [List.flatten_append, List.length_append, List.length_append, hflat]
    omega
  | @frame _ c _ size hnil =>
    show (l.delivered ++ c.take size).length + (k + lostBy p l _) + (c.drop size).length +
      cs'.flatten.length = l.written.length
    rw [lostBy, if_pos rfl, List.length_append, List.length_take, List.length_drop]
    rw [hnil, List.flatten_cons, List.length_append] at h
    rw [hnil]
    simp only [List.length_nil] at h ⊢
    omega

/-! ### Runs -/

variable (box) in
/-- In the run, every `Read` at the end of the link finds no bytes left of the last
frame. -/
def CleanReads (p : Party) : World → List Op → Prop
  | _, [] => True
  | w, op :: ops => (∀ size, op = .read p.other size → (w p.other).sc.recvBuffer = []) ∧
      CleanReads p (w.step box op) ops

variable (box) in
/-- The number of bytes that the `Read` calls at the end of the link lose in a run. -/
def lost (p : Party) : World → List Op → Nat
  | _, [] => 0
  | w, op :: ops => lostBy p (linkFrom w p) op + lost p (w.step box op) ops

/-- A run keeps the invariants of a link, and the accounts. -/
theorem run_link (doc : box.Documented) {n₀ : Nonce} :
    ∀ (ops : List Op) (w : World) (cs : List (List UInt8)) (k : Nat),
      LinkInv box (linkFrom w p) cs → SealedFrom n₀ (linkFrom w p) →
      Balanced (linkFrom w p) cs k →
      ∃ cs', LinkInv box (linkFrom (w.run box ops) p) cs' ∧
        SealedFrom n₀ (linkFrom (w.run box ops) p) ∧
        Balanced (linkFrom (w.run box ops) p) cs' (k + lost box p w ops) ∧
        (CleanReads box p w ops → Lossless (linkFrom w p) cs →
          Lossless (linkFrom (w.run box ops) p) cs') := by
  intro ops
  induction ops with
  | nil => exact fun w cs k h hseal hbal => ⟨cs, h, hseal, hbal, fun _ hloss => hloss⟩
  | cons op ops ih =>
    intro w cs k h hseal hbal
    obtain ⟨cs₁, hstep⟩ := link_step doc h op
    obtain ⟨cs', h', hseal', hbal', hloss'⟩ :=
      ih (w.step box op) cs₁ _ (hstep.inv h) (hstep.sealedFrom hseal) (hstep.balanced hbal)
    refine ⟨cs', h', hseal', ?_, fun hclean hloss => ?_⟩
    · rw [lost, ← Nat.add_assoc]
      exact hbal'
    · exact hloss' hclean.2 (hstep.lossless hloss hclean.1)

/-- Reads into buffers of at least one byte lose nothing exactly when they are clean. -/
theorem lost_eq_zero_iff :
    ∀ (ops : List Op) (w : World), (∀ q size, Op.read q size ∈ ops → 1 ≤ size) →
      (lost box p w ops = 0 ↔ CleanReads box p w ops) := by
  intro ops
  induction ops with
  | nil => exact fun _ _ => ⟨fun _ => trivial, fun _ => rfl⟩
  | cons op ops ih =>
    intro w hsize
    rw [lost, CleanReads, Nat.add_eq_zero_iff,
      ih _ fun q size hmem => hsize q size (List.mem_cons_of_mem op hmem)]
    -- It remains to look at the first call.
    refine and_congr_left fun _ => ?_
    cases op with
    | write q data => simp [lostBy]
    | read q size =>
      have hpos : 1 ≤ size := hsize q size List.mem_cons_self
      rw [lostBy]
      by_cases hq : q = p.other
      · subst hq
        rw [if_pos rfl]
        constructor
        · intro hmin size' _
          apply List.length_eq_zero_iff.mp
          show (linkFrom w p).recvBuffer.length = 0
          omega
        · intro hnil
          have hbuf : (linkFrom w p).recvBuffer = [] := hnil size rfl
          rw [hbuf]
          simp
      · rw [if_neg hq]
        constructor
        · exact fun _ size' hop => absurd (Op.read.inj hop).1 hq
        · exact fun _ => rfl

/-! ### Connections from the start -/

/-- Two ends that have not been used, with one key and mirrored nonces. -/
def Fresh (w : World) : Prop :=
  ∀ p, w p = End.fresh (w p).sc ∧ (w p).sc.recvBuffer = [] ∧
    (w p).sc.sendNonce = (w p.other).sc.recvNonce ∧
    (w p).sc.shrSecret = (w p.other).sc.shrSecret

/-- Nothing that `p` sent is in flight or left in the buffer of the other end. -/
def Drained (w : World) (p : Party) : Prop :=
  (w p).wire = [] ∧ (w p.other).sc.recvBuffer = []

/-- The link of a fresh connection. -/
theorem linkFrom_fresh (h : Fresh w) (p : Party) :
    linkFrom w p = ⟨(w p).sc.shrSecret, (w p).sc.shrSecret, (w p).sc.sendNonce,
      (w p).sc.sendNonce, [], [], [], [], [], []⟩ := by
  obtain ⟨hp, -, hnonce, hkey⟩ := h p
  obtain ⟨hq, hbuf, -, -⟩ := h p.other
  rw [linkFrom, hp, hq]
  simp only [End.fresh, hbuf, ← hnonce, ← hkey]

/-- A run from a fresh connection. -/
theorem run_fresh (doc : box.Documented) (h : Fresh w) (p : Party) (ops : List Op) :
    ∃ cs, LinkInv box (linkFrom (w.run box ops) p) cs ∧
      SealedFrom (w p).sc.sendNonce (linkFrom (w.run box ops) p) ∧
      Balanced (linkFrom (w.run box ops) p) cs (lost box p w ops) ∧
      (CleanReads box p w ops → Lossless (linkFrom (w.run box ops) p) cs) := by
  have hlink := linkFrom_fresh h p
  have hinv : LinkInv box (linkFrom w p) [] := by
    rw [hlink]
    exact ⟨rfl, by simp, rfl, rfl, rfl⟩
  have hseal : SealedFrom (w p).sc.sendNonce (linkFrom w p) := by
    rw [hlink]
    exact ⟨rfl, rfl⟩
  have hbal : Balanced (linkFrom w p) [] 0 := by
    rw [hlink]
    rfl
  have hloss : Lossless (linkFrom w p) [] := by
    rw [hlink]
    rfl
  obtain ⟨cs, h1, h2, h3, h4⟩ := run_link doc ops w [] 0 hinv hseal hbal
  rw [Nat.zero_add] at h3
  exact ⟨cs, h1, h2, h3, fun hclean => h4 hclean hloss⟩

/-- With no bytes in flight there is no chunk in flight. -/
theorem LinkInv.chunks_eq_nil (doc : box.Documented) (h : LinkInv box l cs) (hwire : l.wire = []) :
    cs = [] := by
  cases cs with
  | nil => rfl
  | cons c cs =>
    -- A sealed frame has at least the bytes of the overhead.
    have hlen := congrArg List.length (hwire.symm.trans h.wire_eq)
    rw [sealedFrames, frameBytes, List.map_cons, List.flatten_cons, List.length_append,
      doc.length_seal, List.length_nil, overhead] at hlen
    omega

/-- What `Read` returns of what was written at the other end. If every `Read` finds no
bytes left of the last frame, the bytes returned are a prefix of those written, and
all of them once everything is drained. In a drained state they are all of them only
then. -/
theorem read_returns_written (doc : box.Documented) {w₀ : World} (h₀ : Fresh w₀) (p : Party)
    (ops : List Op) (hsize : ∀ q size, Op.read q size ∈ ops → 1 ≤ size) :
    let w := w₀.run box ops
    (CleanReads box p w₀ ops → (w p.other).delivered <+: (w p).written ∧
      (Drained w p → (w p.other).delivered = (w p).written)) ∧
    (Drained w p → ((w p.other).delivered = (w p).written ↔ CleanReads box p w₀ ops)) := by
  intro w
  obtain ⟨cs, hinv, -, hbal, hloss⟩ := run_fresh doc h₀ p ops
  have hwhole : CleanReads box p w₀ ops → Drained w p →
      (w p.other).delivered = (w p).written := by
    rintro hclean ⟨hwire, hbuf⟩
    obtain rfl := hinv.chunks_eq_nil doc hwire
    have h := hloss hclean
    rw [Lossless, show (linkFrom (w₀.run box ops) p).recvBuffer = [] from hbuf, List.append_nil,
      List.flatten_nil, List.append_nil] at h
    exact h
  refine ⟨fun hclean => ⟨?_, hwhole hclean⟩, fun hdrained => ⟨fun heq => ?_, fun hclean =>
    hwhole hclean hdrained⟩⟩
  · have h := hloss hclean
    rw [Lossless, List.append_assoc] at h
    exact ⟨_, h⟩
  · obtain ⟨hwire, hbuf⟩ := hdrained
    obtain rfl := hinv.chunks_eq_nil doc hwire
    rw [← lost_eq_zero_iff ops w₀ hsize]
    -- By the accounts, what is missing at the end is what was lost.
    have hlen : (w p.other).delivered.length = (w p).written.length := by rw [heq]
    rw [Balanced, show (linkFrom (w₀.run box ops) p).recvBuffer = [] from hbuf] at hbal
    have hbal' : (w p.other).delivered.length + lost box p w₀ ops + 0 + 0 =
        (w p).written.length := hbal
    omega

/-- The ends that a handshake with the ephemeral keys `a` and `b` constructs. At each
end the key of the other one is at an address of its own. -/
def handshake (ripemd160 : List UInt8 → FixedBytes 20) (a b shrSecret : FixedBytes 32) : World
  | .a => .fresh (makeConnection ripemd160 ⟨0, a⟩ ⟨1, b⟩ shrSecret)
  | .b => .fresh (makeConnection ripemd160 ⟨0, b⟩ ⟨1, a⟩ shrSecret)

/-- A handshake with different ephemeral keys gives a fresh connection, and the two
directions start with different parities. -/
theorem handshake_fresh (ripemd160 : List UInt8 → FixedBytes 20) {a b : FixedBytes 32}
    (hne : a ≠ b) (shrSecret : FixedBytes 32) :
    Fresh (handshake ripemd160 a b shrSecret) ∧
      ∀ p, ofBytesBE (handshake ripemd160 a b shrSecret p).sc.sendNonce.1 % 2 ≠
        ofBytesBE (handshake ripemd160 a b shrSecret p.other).sc.sendNonce.1 % 2 := by
  obtain ⟨hsend, hrecv, hparity⟩ := makeConnection_mirror ripemd160 ⟨0, a⟩ ⟨0, b⟩ ⟨1, a⟩ ⟨1, b⟩
    shrSecret hne rfl rfl Nat.zero_ne_one Nat.zero_ne_one
  refine ⟨fun p => ?_, fun p => ?_⟩
  · cases p with
    | a => exact ⟨rfl, rfl, hsend, rfl⟩
    | b => exact ⟨rfl, rfl, hrecv.symm, rfl⟩
  · cases p with
    | a =>
      intro h
      apply hparity
      rw [hrecv]
      exact h
    | b =>
      intro h
      apply hparity
      rw [hrecv]
      exact h.symm

end

/-! ### A concrete connection -/

/-- A box that shows its message, with 16 zero bytes behind it. -/
def plainBox : SecretBox where
  sealBox m _ _ := m ++ List.replicate 16 0
  openBox c _ _ := some (c.take (c.length - 16))

theorem plainBox_documented : plainBox.Documented where
  open_seal m _ _ := by
    show some ((m ++ List.replicate 16 0).take ((m ++ List.replicate 16 0).length - 16)) = some m
    rw [List.length_append, List.length_replicate, Nat.add_sub_cancel, List.take_left' rfl]
  length_seal m _ _ := by
    show (m ++ List.replicate 16 0).length = _
    rw [List.length_append, List.length_replicate, overhead]

/-- A key of 32 equal bytes. -/
def plainKey (b : UInt8) : FixedBytes 32 := ⟨List.replicate 32 b, List.length_replicate⟩

def plainDigest : List UInt8 → FixedBytes 20 := fun _ => ⟨List.replicate 20 0, rfl⟩

/-- A connection after a handshake. -/
def plainWorld : World := handshake plainDigest (plainKey 0) (plainKey 1) (plainKey 2)

theorem plainKey_ne : plainKey 0 ≠ plainKey 1 := by
  decide

/-- Three bytes fit one frame. -/
theorem write_three (sc : SecretConnection) :
    SecretConnection.write plainBox (fun _ => none) sc [1, 2, 3] =
      ⟨{ sc with sendNonce := incr2Nonce sc.sendNonce },
        [(sc.sendNonce, plainBox.sealBox (makeFrame [1, 2, 3]) sc.sendNonce sc.shrSecret)], 3,
        none⟩ := by
  rw [SecretConnection.write, SecretConnection.writeLoop, if_neg (by simp)]
  simp only []
  rw [SecretConnection.writeLoop, if_pos (by rfl)]
  rfl

/-- Three bytes are written and read with two buffers of two bytes. The second `Read`
copies the third byte and returns 0. -/
theorem read_loses_leftover :
    plainBox.Documented ∧ Fresh plainWorld ∧
      let w := plainWorld.run plainBox [.write .a [1, 2, 3], .read .b 2, .read .b 2]
      Drained w .a ∧ (w .a).written = [1, 2, 3] ∧ (w .b).delivered = [1, 2] := by
  refine ⟨plainBox_documented, (handshake_fresh plainDigest plainKey_ne _).1, ?_⟩
  have hrun : plainWorld.run plainBox [.write .a [1, 2, 3], .read .b 2, .read .b 2] =
      ((plainWorld.step plainBox (.write .a [1, 2, 3])).step plainBox (.read .b 2)).step plainBox
        (.read .b 2) := rfl
  rw [hrun, show plainWorld.step plainBox (.write .a [1, 2, 3]) = _ by
    rw [World.step, write_three]]
  exact ⟨⟨by decide +kernel, by decide +kernel⟩, rfl, by decide +kernel⟩

/-- The same bytes read with one buffer of three bytes. -/
theorem read_three_bytes :
    let ops := [Op.write .a [1, 2, 3], .read .b 3]
    let w := plainWorld.run plainBox ops
    CleanReads plainBox .a plainWorld ops ∧ (w .b).delivered <+: (w .a).written := by
  intro ops w
  have hfresh : Fresh plainWorld := (handshake_fresh plainDigest plainKey_ne _).1
  have hclean : CleanReads plainBox .a plainWorld ops := by
    refine ⟨by simp, fun size _ => ?_, trivial⟩
    rw [World.step, write_three]
    rfl
  have hsize : ∀ q size, Op.read q size ∈ ops → 1 ≤ size := by
    intro q size hmem
    simp only [ops, List.mem_cons, List.not_mem_nil, or_false, reduceCtorEq, false_or,
      Op.read.injEq] at hmem
    omega
  exact ⟨hclean,
    ((read_returns_written plainBox_documented hfresh .a ops hsize).1 hclean).1⟩

end BtmStats.Proofs.P2p
