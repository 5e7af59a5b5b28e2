import BtmStats.Proofs.P2p.Transport

/-!
# `BtmStats.Proofs.P2p.Session`: a session delivers what was sent

A session is a `Pipe` once the handshake is read: the bytes of the pipe are those in the buffer of
the receiving end, then those of the frames in flight, then those in the buffer of the sending end.
`SessionInv` says this, and before it what the receiving end has still to read of the handshake.
Every event of the session is an event of the pipe, or none at all.
-/

set_option autoImplicit false

namespace BtmStats.Proofs.P2p

open Lib Lib.BlockReader Spec Spec.P2p

section
variable {box : SecretBox} {auth : FixedBytes authSigMsgSize} {info : NodeInfoMsg}
variable {cap : UInt8 → Int} {s : Session}

/-! ### The sending end -/

/-- A session that has `flight` on the way, as a pipe. -/
def sessionPipe (s : Session) (flight : List UInt8) : Pipe :=
  ⟨s.sender, s.bufReader ++ flight ++ s.bufWriter, s.receiver, s.accepted, s.delivered, s.ended⟩

variable (box) in
/-- The session with other bytes at its sending end, and these chunks in flight. -/
def Moved (s s' : Session) (chunks : List (List UInt8)) : Prop :=
  ∃ sendConn wire buf,
    s' = { s with sendConn := sendConn, wire := wire, bufWriter := buf } ∧
    InFlight box sendConn s.recvConn wire chunks

variable {chunks : List (List UInt8)} {s' : Session} {item : Item}

theorem Moved.flight (h : Moved box s s' chunks) :
    InFlight box s'.sendConn s'.recvConn s'.wire chunks := by
  obtain ⟨_, _, _, rfl, hflight⟩ := h
  exact hflight

theorem Moved.trans {s'' : Session} {chunks' : List (List UInt8)} (h : Moved box s s' chunks)
    (h' : Moved box s' s'' chunks') : Moved box s s'' chunks' := by
  obtain ⟨_, _, _, rfl, -⟩ := h
  obtain ⟨sendConn, wire, buf, rfl, hflight⟩ := h'
  exact ⟨sendConn, wire, buf, rfl, hflight⟩

/-- Bytes are put into the buffer. -/
theorem Moved.buffer (h : Moved box s s' chunks) (buf : List UInt8) :
    Moved box s { s' with bufWriter := buf } chunks := by
  obtain ⟨sendConn, wire, _, rfl, hflight⟩ := h
  exact ⟨sendConn, wire, buf, rfl, hflight⟩

theorem moved_refl (h : InFlight box s.sendConn s.recvConn s.wire chunks) : Moved box s s chunks :=
  ⟨s.sendConn, s.wire, s.bufWriter, rfl, h⟩

theorem connWrite_moved (h : InFlight box s.sendConn s.recvConn s.wire chunks) (data : List UInt8) :
    ∃ new : List (List UInt8), new.flatten = data ∧
      Moved box s (s.connWrite box data) (chunks ++ new) ∧
      (s.connWrite box data).bufWriter = s.bufWriter := by
  obtain ⟨new, hflat, hnew⟩ := h.write data
  exact ⟨new, hflat, ⟨_, _, s.bufWriter, rfl, hnew⟩, rfl⟩

/-- `Flush` empties the buffer into frames. -/
theorem flush_moved (h : InFlight box s.sendConn s.recvConn s.wire chunks) :
    ∃ new : List (List UInt8), new.flatten = s.bufWriter ∧
      Moved box s (s.flush box) (chunks ++ new) ∧ (s.flush box).bufWriter = [] := by
  by_cases hbuf : s.bufWriter = []
  · have hsame : s.flush box = s := if_pos (List.length_eq_zero_iff.mpr hbuf)
    rw [hsame]
    refine ⟨[], hbuf.symm, ?_, hbuf⟩
    rw [List.append_nil]
    exact moved_refl h
  · have hflush : s.flush box = { s.connWrite box s.bufWriter with bufWriter := [] } :=
      if_neg (List.length_eq_zero_iff.not.mpr hbuf)
    rw [hflush]
    obtain ⟨new, hflat, hmoved, -⟩ := connWrite_moved h s.bufWriter
    exact ⟨new, hflat, hmoved.buffer [], rfl⟩

/-- `Write` of the buffer: what it has sent and what it holds are the bytes it had and the new
ones. -/
theorem bufWrite_moved (h : InFlight box s.sendConn s.recvConn s.wire chunks) (p : List UInt8) :
    ∃ new : List (List UInt8), Moved box s (s.bufWrite box p) (chunks ++ new) ∧
      new.flatten ++ (s.bufWrite box p).bufWriter = s.bufWriter ++ p := by
  unfold Session.bufWrite
  simp only []
  split
  · refine ⟨[], ?_, rfl⟩
    rw [List.append_nil]
    exact (moved_refl h).buffer _
  · split
    · next hempty =>
      obtain ⟨new, hflat, hmoved, hbuf⟩ := connWrite_moved h p
      refine ⟨new, hmoved, ?_⟩
      rw [hbuf, hflat, List.length_eq_zero_iff.mp hempty, List.append_nil, List.nil_append]
    · -- The buffer is filled up and flushed, and the rest goes on.
      let available := minWriteBufferSize - s.bufWriter.length
      have hfull := (moved_refl h).buffer (s.bufWriter ++ p.take available)
      obtain ⟨new, hflat, hflush, hempty⟩ := flush_moved hfull.flight
      have hmoved := hfull.trans hflush
      have hbytes : new.flatten ++ p.drop available = s.bufWriter ++ p := by
        rw [hflat, List.append_assoc, List.take_append_drop]
      split
      · exact ⟨new, hmoved.buffer _, hbytes⟩
      · obtain ⟨new', hflat', hwrite, hbuf⟩ := connWrite_moved hmoved.flight (p.drop available)
        refine ⟨new ++ new', ?_, ?_⟩
        · rw [← List.append_assoc]
          exact hmoved.trans hwrite
        · rw [hbuf, hempty, List.append_nil, List.flatten_append, hflat', hbytes]

/-- The pipe of a session whose sending end has taken in `p`. -/
theorem Moved.pipe {new : List (List UInt8)} (h : Moved box s s' chunks) {p : List UInt8}
    (hbytes : new.flatten ++ s'.bufWriter = s.bufWriter ++ p) (flight : List UInt8) :
    sessionPipe s' (flight ++ new.flatten) =
      { sessionPipe s flight with wire := (sessionPipe s flight).wire ++ p } := by
  obtain ⟨_, _, _, rfl, -⟩ := h
  simp only [sessionPipe, List.append_assoc] at hbytes ⊢
  rw [hbytes]

/-- The event of the pipe that an event of the sending end is. A flush is none. -/
def SendOp.pipeOps : SendOp → List PipeOp
  | .send chID bytes timedOut => [.send chID bytes timedOut]
  | .trySend chID bytes => [.trySend chID bytes]
  | .sendMsgPacket ratio => [.sendMsgPacket ratio]
  | .ping => [.ping]
  | .pong => [.pong]
  | .updateStats decay => [.updateStats decay]
  | .flush => []

/-- What is written is flushed at once. -/
theorem signal_moved (h : InFlight box s.sendConn s.recvConn s.wire chunks) (p : List UInt8) :
    ∃ new : List (List UInt8), Moved box s ((s.bufWrite box p).flush box) (chunks ++ new) ∧
      new.flatten ++ ((s.bufWrite box p).flush box).bufWriter = s.bufWriter ++ p := by
  obtain ⟨new, hwrite, hbytes⟩ := bufWrite_moved h p
  obtain ⟨new', hflat, hflush, hempty⟩ := flush_moved hwrite.flight
  refine ⟨new ++ new', ?_, ?_⟩
  · rw [← List.append_assoc]
    exact hwrite.trans hflush
  · rw [hempty, List.append_nil, List.flatten_append, hflat, hbytes]

variable (box) in
/-- An event of the sending end moves bytes towards the network, and is an event of the pipe. -/
theorem sendStep_spec (h : InFlight box s.sendConn s.recvConn s.wire chunks) (op : SendOp) :
    ∃ (sender : MConnection) (accepted : Record) (new : List (List UInt8)),
      Moved box { s with sender := sender, accepted := accepted } (s.sendStep box op)
        (chunks ++ new) ∧
      ∀ flight, sessionPipe (s.sendStep box op) (flight ++ new.flatten) =
        (sessionPipe s flight).run goWire (SendOp.pipeOps op) := by
  -- Nothing is written: the session is the one with the new sender.
  have hidle : ∀ (sender : MConnection) (accepted : Record),
      Moved box { s with sender := sender, accepted := accepted }
        { s with sender := sender, accepted := accepted } (chunks ++ []) := by
    intro sender accepted
    rw [List.append_nil]
    exact moved_refl h
  cases op with
  | send chID bytes timedOut =>
    refine ⟨_, _, [], hidle _ _, fun flight => ?_⟩
    rw [List.flatten_nil, List.append_nil]
    rfl
  | trySend chID bytes =>
    refine ⟨_, _, [], hidle _ _, fun flight => ?_⟩
    rw [List.flatten_nil, List.append_nil]
    rfl
  | updateStats decay =>
    refine ⟨_, _, [], hidle _ _, fun flight => ?_⟩
    rw [List.flatten_nil, List.append_nil]
    rfl
  | sendMsgPacket ratio =>
    let res := s.sender.sendMsgPacket goWire ratio false
    obtain ⟨new, hmoved, hbytes⟩ :=
      bufWrite_moved (s := { s with sender := res.conn }) h res.written
    exact ⟨_, _, new, hmoved, fun flight => hmoved.pipe hbytes flight⟩
  | ping =>
    obtain ⟨new, hmoved, hbytes⟩ := signal_moved h [packetTypePing]
    exact ⟨_, _, new, hmoved, fun flight => hmoved.pipe hbytes flight⟩
  | pong =>
    obtain ⟨new, hmoved, hbytes⟩ := signal_moved h [packetTypePong]
    exact ⟨_, _, new, hmoved, fun flight => hmoved.pipe hbytes flight⟩
  | flush =>
    obtain ⟨new, hflat, hmoved, hempty⟩ := flush_moved h
    refine ⟨_, _, new, hmoved, fun flight => ?_⟩
    have hpipe := hmoved.pipe (p := []) (by rw [hflat, hempty]) flight
    rwa [List.append_nil] at hpipe

/-! ### The receiving end -/

/-- A read of the handshake: it gets its value, or waits for writes that are still to be made. -/
theorem runOn_connReader (doc : box.Documented) {css : List (List (List UInt8))}
    {tail rest : List (List UInt8)}
    (h : InFlight box s.sendConn s.recvConn s.wire (css.flatten ++ tail))
    (hearly : s.hello ≠ [] → tail = []) {α : Type} {p : BlockReader UInt8 Err α}
    {pieces : Wire.Blocks.Pieces} {a : α} (hp : Reads p pieces a)
    (hawaits : css.map List.flatten ++ s.hello = solid pieces ++ rest) :
    (∃ st css', p.runOn ((connReader box).readFull shortErr) (s.recvConn, s.wire) =
        some (.ok a, st) ∧
      InFlight box s.sendConn st.1 st.2 (List.flatten css' ++ tail) ∧
      rest = css'.map List.flatten ++ s.hello) ∨
    (p.runOn ((connReader box).readFull shortErr) (s.recvConn, s.wire) = none ∧
      s.hello ≠ []) := by
  have hchunked := connReader_chunked s.sendConn doc
  have hrun := hp rest
  rw [← hawaits] at hrun
  refine ((hchunked.delivers shortErr tail).runOn (fun hmore => ?_) (s := (s.recvConn, s.wire))
    ⟨css, rfl, h⟩ hrun).imp ?_ id
  · obtain rfl := hearly hmore
    exact hchunked.readFull_waits shortErr
  · rintro ⟨st, left, hread, ⟨css', rfl, hflight⟩, hleft⟩
    exact ⟨st, css', hread, hflight, hleft⟩

/-- What `recvPacket` does with the bytes of an item, it does after it has read the item. -/
theorem recvPacket_item (c : MConnection) (h : item.Small) (rest : List UInt8) :
    c.recvPacket goWire (item.bytes goWire ++ rest) =
      (c.handlePacket (itemPacket item)).map fun res => ⟨res.1, rest, res.2⟩ := by
  cases item with
  | ping => rfl
  | pong => rfl
  | msg pkt =>
    show c.recvPacket goWire (packetTypeMsg :: (goWire.writeBinary pkt ++ rest)) = _
    rw [MConnection.recvPacket, if_neg (by decide), if_neg (by decide), if_pos rfl,
      goWire_documented.read_write pkt rest h, itemPacket, MConnection.handlePacket]
    cases hch : c.channel? pkt.channelID with
    | none => simp only [hch, Except.map]
    | some found =>
      obtain ⟨p, channel⟩ := found
      rcases hrecv : channel.recvMsgPacket pkt with ⟨channel', e | msgBytes⟩
      · simp only [hch, hrecv, Except.map]
      · simp only [hch, hrecv, Except.map]

theorem Item.small_of_packets {snd rcv : Channels} {accepted delivered : Record} {wire : List UInt8}
    {items : List Item} (h : WireInv goWire cap snd rcv accepted delivered wire (item :: items)) :
    item.Small := by
  cases item with
  | msg pkt => exact (h.packets pkt List.mem_cons_self).1
  | _ => exact trivial

/-- The receive routine takes in the first item. -/
theorem handlePacket_spec {snd : Channels} {accepted delivered : Record} {wire : List UInt8}
    {items : List Item} {c : MConnection}
    (h : WireInv goWire cap snd c.channels accepted delivered wire (item :: items)) :
    ∃ res, c.handlePacket (itemPacket item) = .ok res ∧
      WireInv goWire cap snd res.1.channels accepted (delivered ++ res.2.toList)
        (items.map (Item.bytes goWire)).flatten items := by
  obtain ⟨res, hres, hnext⟩ := recvPacket_spec goWire_documented h
  rw [h.wire_eq, List.map_cons, List.flatten_cons,
    recvPacket_item c (Item.small_of_packets h)] at hres
  cases hhandle : c.handlePacket (itemPacket item) with
  | error e =>
    rw [hhandle] at hres
    cases hres
  | ok got =>
    rw [hhandle] at hres
    cases hres
    exact ⟨got, rfl, hnext⟩

/-! ### The invariant -/

/-- What the receiving end has read of the handshake, and what it has still to read. -/
def Awaits (auth : FixedBytes authSigMsgSize) (info : NodeInfoMsg) :
    Phase → Wire.Blocks.Pieces → Prop
  | .auth, pieces => pieces = solid (auth.1 :: info.write)
  | .info a, pieces => a = auth.1 ∧ pieces = solid info.write
  | .running a i, pieces => a = auth.1 ∧ i = info ∧ pieces = []

variable (box auth info cap) in
/-- `css` are the chunks of the handshake in flight, one list for each write, and `tail` the chunks
of packets behind them. -/
structure SessionInv (s : Session) (css : List (List (List UInt8))) (tail : List (List UInt8))
    (items : List Item) : Prop where
  flight : InFlight box s.sendConn s.recvConn s.wire (css.flatten ++ tail)
  awaits : Awaits auth info s.phase (css.map List.flatten ++ s.hello)
  early : s.hello ≠ [] → tail = []
  unbuffered : (∀ a i, s.phase ≠ .running a i) → s.bufReader = []
  pipe : PipeInv goWire cap (sessionPipe s tail.flatten) items

variable {css : List (List (List UInt8))} {tail : List (List UInt8)} {items : List Item}

/-- The next write of the handshake. -/
theorem SessionInv.hello (h : SessionInv box auth info cap s css tail items) :
    ∃ css', SessionInv box auth info cap (s.step box .hello) css' tail items ∧
      (s.step box .hello).hello = s.hello.tail ∧
      ∀ flight, sessionPipe (s.step box .hello) flight = sessionPipe s flight := by
  cases hs : s.hello with
  | nil =>
    have hstep : s.step box .hello = s := by rw [Session.step, hs]
    rw [hstep, hs]
    exact ⟨css, h, rfl, fun _ => rfl⟩
  | cons piece rest =>
    have hstep : s.step box .hello = { s.connWrite box piece with hello := rest } := by
      rw [Session.step, hs]
    obtain rfl := h.early (by rw [hs]; exact List.cons_ne_nil _ _)
    obtain ⟨new, rfl, hmoved, -⟩ := connWrite_moved h.flight piece
    have hawaits := h.awaits
    rw [hs] at hawaits
    rw [hstep]
    refine ⟨css ++ [new], ⟨?_, ?_, fun _ => rfl, h.unbuffered, h.pipe⟩, rfl, fun _ => rfl⟩
    · have hflight := hmoved.flight
      rw [List.append_nil] at hflight
      rw [List.append_nil, List.flatten_append, List.flatten_singleton]
      exact hflight
    · rw [List.map_append, List.map_singleton, List.append_assoc]
      exact hawaits

variable (box) in
/-- After the handshake the `MConnection` of the sending end is there. -/
theorem step_conn (hhello : s.hello = []) (op : SendOp) :
    s.step box (.conn op) = s.sendStep box op := if_neg (not_not.mpr hhello)

/-- An event of the `MConnection` at the sending end. -/
theorem SessionInv.conn (h : SessionInv box auth info cap s css tail items) (hhello : s.hello = [])
    (op : SendOp) (hmsg : Acceptable cap (s.sendStep box op).accepted) :
    ∃ tail' items', SessionInv box auth info cap (s.sendStep box op) css tail' items' ∧
      sessionPipe (s.sendStep box op) tail'.flatten =
        (sessionPipe s tail.flatten).run goWire (SendOp.pipeOps op) ∧
      (s.sendStep box op).hello = [] ∧ (s.sendStep box op).phase = s.phase := by
  obtain ⟨sender, accepted, new, hmoved, hpipe⟩ := sendStep_spec box h.flight op
  have hrun := hpipe tail.flatten
  rw [← List.flatten_append] at hrun
  have hflight := hmoved.flight
  obtain ⟨_, _, _, hstep, -⟩ := hmoved
  have hsame : (s.sendStep box op).hello = s.hello ∧ (s.sendStep box op).phase = s.phase ∧
      (s.sendStep box op).bufReader = s.bufReader := by
    rw [hstep]
    exact ⟨rfl, rfl, rfl⟩
  obtain ⟨items', hinv⟩ := h.pipe.run goWire_documented (SendOp.pipeOps op) (by
    rw [← hrun]
    exact hmsg)
  rw [← hrun] at hinv
  refine ⟨tail ++ new, items', ⟨?_, ?_, ?_, ?_, hinv⟩, hrun, hsame.1.trans hhello, hsame.2.1⟩
  · rwa [← List.append_assoc]
  · rw [hsame.1, hsame.2.1]
    exact h.awaits
  · rw [hsame.1]
    exact fun hne => absurd hhello hne
  · rw [hsame.2.1, hsame.2.2]
    exact h.unbuffered

/-- Nothing has happened at the sending end. -/
structure SameSender (s s' : Session) : Prop where
  hello : s'.hello = s.hello
  bufWriter : s'.bufWriter = s.bufWriter
  sender : s'.sender = s.sender
  accepted : s'.accepted = s.accepted

theorem sameSender_refl (s : Session) : SameSender s s := ⟨rfl, rfl, rfl, rfl⟩

/-- A read of the handshake at the receiving end, with the phase after it. -/
theorem SessionInv.helloRead (doc : box.Documented)
    (h : SessionInv box auth info cap s css tail items) {α : Type} {p : BlockReader UInt8 Err α}
    {pieces rest : Wire.Blocks.Pieces} {a : α} (hp : Reads p pieces a) (next : α → Phase)
    (hawaits : css.map List.flatten ++ s.hello = solid pieces ++ rest)
    (hnext : Awaits auth info (next a) rest) (hbuf : s.bufReader = []) :
    let s' := s.helloRead next
      (p.runOn ((connReader box).readFull shortErr) (s.recvConn, s.wire))
    (∃ css', SessionInv box auth info cap s' css' tail items ∧ SameSender s s' ∧
      s'.phase = next a) ∨ (s' = s ∧ s.hello ≠ []) := by
  intro s'
  rcases runOn_connReader doc h.flight h.early hp hawaits with
    ⟨st, css', hread, hflight, hrest⟩ | ⟨hread, hne⟩
  · refine .inl ⟨css', ?_⟩
    have hs' : s' = { s with recvConn := st.1, wire := st.2, phase := next a } := by
      show s.helloRead next _ = _
      rw [hread]
      rfl
    rw [hs']
    exact ⟨⟨hflight, hrest ▸ hnext, h.early, fun _ => hbuf, h.pipe⟩, ⟨rfl, rfl, rfl, rfl⟩, rfl⟩
  · refine .inr ⟨?_, hne⟩
    show s.helloRead next _ = _
    rw [hread]
    rfl

/-- The receive routine waits for a packet that has not arrived as a whole, and otherwise takes in
the first item. -/
theorem SessionInv.recvPacket (doc : box.Documented)
    (h : SessionInv box auth info cap s css tail items) {a : List UInt8} {i : NodeInfoMsg}
    (hphase : s.phase = .running a i) :
    (s.recvStep box = s ∧ (items = [] ∨ s.bufWriter ≠ [])) ∨
    (∃ item items' tail', items = item :: items' ∧
      SessionInv box auth info cap (s.recvStep box) [] tail' items' ∧
      SameSender s (s.recvStep box) ∧ (s.recvStep box).phase = s.phase) := by
  obtain ⟨rfl, hhello⟩ : css = [] ∧ s.hello = [] := by
    have hawaits := h.awaits
    rw [hphase] at hawaits
    obtain ⟨hnil, hhello⟩ := List.append_eq_nil_iff.mp hawaits.2.2
    exact ⟨List.map_eq_nil_iff.mp hnil, hhello⟩
  have hended : s.ended = none := h.pipe.ended
  have hwire : s.bufReader ++ tail.flatten ++ s.bufWriter =
      (items.map (Item.bytes goWire)).flatten := h.pipe.wire.wire_eq
  have hstreams := ((connReader_chunked s.sendConn doc).flows_buffered
    (show 0 < minReadBufferSize by decide) (Nat.le_refl _)).streams shortErr
  have hview : IoReader.BufferedView (fun st => InFlight box s.sendConn st.1 st.2)
      ((s.recvConn, s.wire), s.bufReader) (s.bufReader ++ tail.flatten) := ⟨tail, h.flight, rfl⟩
  -- A read that waits leaves the session as it is.
  have hwaits : readPacket.runOn
      (((connReader box).buffered minReadBufferSize (by decide)).readFull shortErr)
      ((s.recvConn, s.wire), s.bufReader) = none → s.recvStep box = s := by
    intro hread
    simp only [Session.recvStep, hended, hphase, hread, ne_eq, not_true_eq_false, if_false]
  cases items with
  | nil =>
    -- Nothing has arrived. A ping would be the next item.
    obtain ⟨hnil, -⟩ := List.append_eq_nil_iff.mp hwire
    have hflat : s.bufReader ++ tail.flatten ++ [packetTypePing] =
        [[packetTypePing]].flatten := by
      rw [hnil]
      rfl
    rcases hstreams.runOn hview hflat (reads_readPacket (show Item.Small .ping from trivial) [])
      with ⟨_, left, -, -, hleft⟩ | ⟨hread, -⟩
    · exact absurd (List.append_eq_nil_iff.mp hleft).2 (List.cons_ne_nil _ _)
    · exact .inl ⟨hwaits hread, .inl rfl⟩
  | cons item items =>
    have hsmall := Item.small_of_packets h.pipe.wire
    have hflat : s.bufReader ++ tail.flatten ++ s.bufWriter =
        (solid (itemPieces item) ++ [(items.map (Item.bytes goWire)).flatten]).flatten := by
      rw [hwire, List.flatten_append, flatten_solid, flatten_itemPieces hsmall,
        List.flatten_singleton]
      rfl
    rcases hstreams.runOn hview hflat (reads_readPacket hsmall _) with
      ⟨⟨⟨sc, wire⟩, buf⟩, left, hread, ⟨tail', hflight, rfl⟩, hleft⟩ | ⟨hread, hmore⟩
    · obtain ⟨res, hres, hnext⟩ := handlePacket_spec h.pipe.wire
      have hstep : s.recvStep box = { s with
          recvConn := sc, wire := wire, bufReader := buf
          receiver := res.1, delivered := s.delivered ++ res.2.toList } := by
        have hhandle : s.receiver.handlePacket (itemPacket item) = .ok res := hres
        simp only [Session.recvStep, hended, hphase, hread, hhandle, ne_eq, not_true_eq_false,
          if_false]
      rw [List.flatten_singleton] at hleft
      rw [← hleft] at hnext
      refine .inr ⟨item, items, tail', rfl, ?_⟩
      rw [hstep]
      exact ⟨⟨hflight, h.awaits, fun hne => absurd hhello hne,
        fun hne => absurd hphase (hne a i), hended, hnext⟩, ⟨rfl, rfl, rfl, rfl⟩, rfl⟩
    · exact .inl ⟨hwaits hread, .inr hmore⟩

/-- The reads that the receiving end has still to make. -/
def toRecv : Phase → List Item → Nat
  | .auth, items => items.length + 2
  | .info _, items => items.length + 1
  | .running _ _, items => items.length

/-- A read at the receiving end changes nothing at the other one. If all that was sent is on its
way, there is one read less to make. -/
theorem SessionInv.recv (doc : box.Documented)
    (hinfo : info.write.flatten.length ≤ maxNodeInfoSize)
    (h : SessionInv box auth info cap s css tail items) :
    ∃ css' tail' items', SessionInv box auth info cap (s.recvStep box) css' tail' items' ∧
      SameSender s (s.recvStep box) ∧
      (s.hello = [] → s.bufWriter = [] →
        toRecv (s.recvStep box).phase items' = toRecv s.phase items - 1) := by
  have hended : s.ended = none := h.pipe.ended
  have hawaits := h.awaits
  have hbuf := h.unbuffered
  cases hphase : s.phase with
  | auth =>
    rw [hphase] at hawaits hbuf
    have hstep : s.recvStep box = s.helloRead .info
        (readAuthSig.runOn ((connReader box).readFull shortErr) (s.recvConn, s.wire)) := by
      simp only [Session.recvStep, hended, hphase, ne_eq, not_true_eq_false, if_false]
    rw [hstep]
    have hsolid : css.map List.flatten ++ s.hello = solid [auth.1] ++ solid info.write := by
      rw [← solid_append]
      exact hawaits
    rcases h.helloRead doc (reads_readAuthSig auth) .info hsolid ⟨rfl, rfl⟩ (hbuf nofun) with
      ⟨css', hinv, hsame, hnext⟩ | ⟨hs', hne⟩
    · exact ⟨css', tail, items, hinv, hsame, fun _ _ => by rw [hnext]; rfl⟩
    · rw [hs']
      exact ⟨css, tail, items, h, sameSender_refl s, fun hnil => absurd hnil hne⟩
  | info a =>
    rw [hphase] at hawaits hbuf
    obtain ⟨rfl, hpieces⟩ := hawaits
    have hstep : s.recvStep box = s.helloRead (.running auth.1)
        (readNodeInfo.runOn ((connReader box).readFull shortErr) (s.recvConn, s.wire)) := by
      simp only [Session.recvStep, hended, hphase, ne_eq, not_true_eq_false, if_false]
    rw [hstep]
    rcases h.helloRead doc (reads_readNodeInfo hinfo) (.running auth.1)
      (hpieces.trans (List.append_nil _).symm) ⟨rfl, rfl, rfl⟩ (hbuf nofun) with
      ⟨css', hinv, hsame, hnext⟩ | ⟨hs', hne⟩
    · exact ⟨css', tail, items, hinv, hsame, fun _ _ => by rw [hnext]; rfl⟩
    · rw [hs']
      exact ⟨css, tail, items, h, sameSender_refl s, fun hnil => absurd hnil hne⟩
  | running a i =>
    rcases h.recvPacket doc hphase with
      ⟨hs', hwait⟩ | ⟨item, items', tail', rfl, hinv, hsame, hsame'⟩
    · rw [hs']
      refine ⟨css, tail, items, h, sameSender_refl s, fun _ hnil => ?_⟩
      rcases hwait with rfl | hne
      · rw [hphase]
        rfl
      · exact absurd hnil hne
    · refine ⟨[], tail', items', hinv, hsame, fun _ _ => ?_⟩
      rw [hsame', hphase]
      rfl

/-! ### Runs -/

variable (box) in
theorem accepted_flush (s : Session) : (s.flush box).accepted = s.accepted := by
  unfold Session.flush
  split <;> rfl

variable (box) in
theorem accepted_bufWrite (s : Session) (p : List UInt8) :
    (s.bufWrite box p).accepted = s.accepted := by
  unfold Session.bufWrite
  simp only []
  split
  · rfl
  · split
    · rfl
    · split
      · exact accepted_flush box _
      · exact accepted_flush box { s with bufWriter := _ }

variable (box) in
theorem accepted_recvStep (s : Session) : (s.recvStep box).accepted = s.accepted := by
  have hhello : ∀ {α : Type} (next : α → Phase)
      (res : Option (Except Err α × (SecretConnection × List UInt8))),
      (s.helloRead next res).accepted = s.accepted := by
    intro α next res
    unfold Session.helloRead
    split <;> rfl
  unfold Session.recvStep
  split
  · rfl
  · split
    · exact hhello _ _
    · exact hhello _ _
    · split
      · rfl
      · rfl
      · simp only []
        split <;> rfl

variable (box) in
/-- An event adds to the accepted messages. -/
theorem session_accepted_step (s : Session) (op : SessionOp) :
    ∃ more, (s.step box op).accepted = s.accepted ++ more := by
  cases op with
  | hello =>
    refine ⟨[], ?_⟩
    rw [Session.step, List.append_nil]
    split <;> rfl
  | recv => exact ⟨[], (accepted_recvStep box s).trans (List.append_nil _).symm⟩
  | conn op =>
    rw [Session.step]
    split
    · exact ⟨[], (List.append_nil _).symm⟩
    · cases op with
      | send chID bytes timedOut => exact ⟨_, rfl⟩
      | trySend chID bytes => exact ⟨_, rfl⟩
      | updateStats decay => exact ⟨[], (List.append_nil _).symm⟩
      | sendMsgPacket ratio =>
        exact ⟨[], (accepted_bufWrite box _ _).trans (List.append_nil _).symm⟩
      | ping =>
        refine ⟨[], ((accepted_flush box _).trans (accepted_bufWrite box s _)).trans ?_⟩
        exact (List.append_nil _).symm
      | pong =>
        refine ⟨[], ((accepted_flush box _).trans (accepted_bufWrite box s _)).trans ?_⟩
        exact (List.append_nil _).symm
      | flush => exact ⟨[], (accepted_flush box s).trans (List.append_nil _).symm⟩

/-- Every event keeps the invariant. -/
theorem SessionInv.step (doc : box.Documented)
    (hinfo : info.write.flatten.length ≤ maxNodeInfoSize)
    (h : SessionInv box auth info cap s css tail items) (op : SessionOp)
    (hmsg : Acceptable cap (s.step box op).accepted) :
    ∃ css' tail' items', SessionInv box auth info cap (s.step box op) css' tail' items' := by
  cases op with
  | hello =>
    obtain ⟨css', hinv, -⟩ := h.hello
    exact ⟨css', tail, items, hinv⟩
  | recv =>
    obtain ⟨css', tail', items', hinv, -⟩ := h.recv doc hinfo
    exact ⟨css', tail', items', hinv⟩
  | conn op =>
    by_cases hhello : s.hello = []
    · rw [step_conn box hhello] at hmsg ⊢
      obtain ⟨tail', items', hinv, -⟩ := h.conn hhello op hmsg
      exact ⟨css, tail', items', hinv⟩
    · have hstep : s.step box (.conn op) = s := if_pos hhello
      rw [hstep]
      exact ⟨css, tail, items, h⟩

/-- A run whose accepted messages fit at the receiver keeps the invariant. -/
theorem SessionInv.run (doc : box.Documented)
    (hinfo : info.write.flatten.length ≤ maxNodeInfoSize)
    (h : SessionInv box auth info cap s css tail items) (ops : List SessionOp)
    (hmsg : Acceptable cap (s.run box ops).accepted) :
    ∃ css' tail' items', SessionInv box auth info cap (s.run box ops) css' tail' items' := by
  induction ops using List.reverseRecOn with
  | nil => exact ⟨css, tail, items, h⟩
  | append_singleton ops op ih =>
    have hrun : s.run box (ops ++ [op]) = (s.run box ops).step box op := List.foldl_append ..
    rw [hrun] at hmsg ⊢
    obtain ⟨more, hmore⟩ := session_accepted_step box (s.run box ops) op
    obtain ⟨css', tail', items', hinv⟩ := ih (hmore ▸ hmsg).of_append.1
    exact hinv.step doc hinfo op hmsg

/-- All writes of the handshake are made. -/
theorem SessionInv.hellos (h : SessionInv box auth info cap s css tail items) (n : Nat) :
    ∃ css', SessionInv box auth info cap (s.run box (List.replicate n .hello)) css' tail items ∧
      (s.run box (List.replicate n .hello)).hello = s.hello.drop n ∧
      ∀ flight, sessionPipe (s.run box (List.replicate n .hello)) flight =
        sessionPipe s flight := by
  induction n generalizing s css with
  | zero => exact ⟨css, h, rfl, fun _ => rfl⟩
  | succ n ih =>
    obtain ⟨css', hinv, hhello, hpipe⟩ := h.hello
    obtain ⟨css'', hinv', hhello', hpipe'⟩ := ih hinv
    refine ⟨css'', hinv', ?_, fun flight => (hpipe' flight).trans (hpipe flight)⟩
    refine hhello'.trans ?_
    rw [hhello, List.drop_tail]

/-- Calls of `sendMsgPacket`, with any picks. -/
theorem SessionInv.sends (h : SessionInv box auth info cap s css tail items)
    (hhello : s.hello = []) (hmsg : Acceptable cap s.accepted) (ratios : List Ratio) :
    let s' := s.run box (ratios.map fun ratio => .conn (.sendMsgPacket ratio))
    ∃ tail' items', SessionInv box auth info cap s' css tail' items' ∧ s'.hello = [] ∧
      sessionPipe s' tail'.flatten =
        (sessionPipe s tail.flatten).run goWire (ratios.map .sendMsgPacket) := by
  induction ratios generalizing s tail items with
  | nil => exact ⟨tail, items, h, hhello, rfl⟩
  | cons ratio ratios ih =>
    have hacc : (s.sendStep box (.sendMsgPacket ratio)).accepted = s.accepted :=
      accepted_bufWrite box _ _
    obtain ⟨tail₁, items₁, hinv, hpipe, hhello₁, -⟩ :=
      h.conn hhello (.sendMsgPacket ratio) (hacc ▸ hmsg)
    obtain ⟨tail', items', hinv', hhello', hpipe'⟩ := ih hinv hhello₁ (hacc ▸ hmsg)
    have hrun : s.run box ((ratio :: ratios).map fun ratio => .conn (.sendMsgPacket ratio)) =
        (s.sendStep box (.sendMsgPacket ratio)).run box
          (ratios.map fun ratio => .conn (.sendMsgPacket ratio)) := by
      rw [← step_conn box hhello]
      rfl
    rw [hrun]
    refine ⟨tail', items', hinv', hhello', hpipe'.trans ?_⟩
    rw [hpipe]
    rfl

/-- Reads at the receiving end, when all that was sent is on its way. -/
theorem SessionInv.recvs (doc : box.Documented)
    (hinfo : info.write.flatten.length ≤ maxNodeInfoSize)
    (h : SessionInv box auth info cap s css tail items) (hhello : s.hello = [])
    (hbuf : s.bufWriter = []) (j : Nat) :
    let s' := s.run box (List.replicate j .recv)
    ∃ css' tail' items', SessionInv box auth info cap s' css' tail' items' ∧ SameSender s s' ∧
      toRecv s'.phase items' = toRecv s.phase items - j := by
  induction j generalizing s css tail items with
  | zero => exact ⟨css, tail, items, h, sameSender_refl s, rfl⟩
  | succ j ih =>
    obtain ⟨css₁, tail₁, items₁, hinv, hsame, hless⟩ := h.recv doc hinfo
    obtain ⟨css', tail', items', hinv', hsame', hleft⟩ :=
      ih hinv (hsame.hello.trans hhello) (hsame.bufWriter.trans hbuf)
    refine ⟨css', tail', items', hinv', ⟨hsame'.hello.trans hsame.hello,
      hsame'.bufWriter.trans hsame.bufWriter, hsame'.sender.trans hsame.sender,
      hsame'.accepted.trans hsame.accepted⟩, hleft.trans ?_⟩
    rw [hless hhello hbuf]
    omega

/-- With nothing left to send and to read, the receiving end has everything. -/
theorem SessionInv.complete (h : SessionInv box auth info cap s css tail items)
    (hidle : Exhausted s.sender) (hread : toRecv s.phase items = 0) :
    s.phase = .running auth.1 info ∧
      ∀ chID, onChannel chID s.delivered = onChannel chID s.accepted := by
  have hawaits := h.awaits
  cases hphase : s.phase with
  | auth =>
    rw [hphase] at hread
    cases hread
  | info a =>
    rw [hphase] at hread
    cases hread
  | running a i =>
    rw [hphase] at hawaits hread
    obtain ⟨rfl, rfl, -⟩ := hawaits
    obtain rfl : items = [] := List.length_eq_zero_iff.mp hread
    exact ⟨rfl, fun chID => (h.pipe.complete hidle h.pipe.wire.wire_eq chID).1⟩

/-- Enough packets and a flush put all that was accepted on its way. -/
theorem SessionInv.sendAll (h : SessionInv box auth info cap s css tail items)
    (hhello : s.hello = []) (hmsg : Acceptable cap s.accepted) {ratios : List Ratio}
    (hlen : toSend s.sender.channels ≤ ratios.length) :
    let s' := s.run box (ratios.map (fun ratio => .conn (.sendMsgPacket ratio)) ++ [.conn .flush])
    ∃ tail' items', SessionInv box auth info cap s' css tail' items' ∧ s'.hello = [] ∧
      s'.bufWriter = [] ∧ Exhausted s'.sender ∧ s'.accepted = s.accepted := by
  intro s'
  obtain ⟨tail₁, items₁, hsent, hhello₁, hpipe₁⟩ := h.sends hhello hmsg ratios
  obtain ⟨_, hinv, hleft, hacc⟩ := h.pipe.sends ratios
  have hzero := hleft.trans (Nat.sub_eq_zero_of_le hlen)
  rw [← hpipe₁] at hinv hzero hacc
  let s₁ := s.run box (ratios.map fun ratio => .conn (.sendMsgPacket ratio))
  have hs' : s' = s₁.sendStep box .flush := by
    rw [← step_conn box hhello₁]
    exact List.foldl_append ..
  have hacc' : (s₁.sendStep box .flush).accepted = s.accepted :=
    (accepted_flush box s₁).trans hacc
  -- The flush is no event of the pipe.
  obtain ⟨tail', items', hflushed, hpipe', hhello', -⟩ :=
    hsent.conn hhello₁ .flush (by rw [hacc']; exact hmsg)
  obtain ⟨_, -, -, hempty⟩ := flush_moved hsent.flight
  have hsender : (s₁.sendStep box .flush).sender = s₁.sender := congrArg Pipe.sender hpipe'
  rw [hs']
  refine ⟨tail', items', hflushed, hhello', hempty, ?_, hacc'⟩
  rw [hsender]
  exact hinv.wire.toSend_eq_zero_iff.mp hzero

/-- The rest of a session: enough packets, a flush and enough reads. -/
theorem SessionInv.finish (doc : box.Documented)
    (hinfo : info.write.flatten.length ≤ maxNodeInfoSize)
    (h : SessionInv box auth info cap s css tail items) (hhello : s.hello = [])
    (hmsg : Acceptable cap s.accepted) {ratios : List Ratio}
    (hlen : toSend s.sender.channels ≤ ratios.length) :
    ∃ k, ∀ j, k ≤ j →
      let s' := s.run box ((ratios.map (fun ratio => .conn (.sendMsgPacket ratio)) ++
        [.conn .flush]) ++ List.replicate j .recv)
      s'.ended = none ∧ s'.phase = .running auth.1 info ∧ s'.accepted = s.accepted ∧
        ∀ chID, onChannel chID s'.delivered = onChannel chID s.accepted := by
  obtain ⟨tail₁, items₁, hsent, hhello₁, hempty, hidle, hacc⟩ := h.sendAll hhello hmsg hlen
  let s₁ := s.run box
    (ratios.map (fun ratio => .conn (.sendMsgPacket ratio)) ++ [.conn .flush])
  refine ⟨toRecv s₁.phase items₁, fun j hj => ?_⟩
  obtain ⟨css', tail', items', hread, hsame, hdone⟩ := hsent.recvs doc hinfo hhello₁ hempty j
  obtain ⟨hphase, hall⟩ :=
    hread.complete (hsame.sender ▸ hidle) (hdone.trans (Nat.sub_eq_zero_of_le hj))
  have hacc' := hsame.accepted.trans hacc
  rw [show s.run box (_ ++ List.replicate j .recv) = _ from List.foldl_append ..]
  exact ⟨hread.pipe.ended, hphase, hacc', fun chID => hacc' ▸ hall chID⟩

/-! ### Sessions from the start -/

/-- The session of the end `p` with the other end, after the exchange of the ephemeral keys. -/
def sessionFrom (ripemd160 : List UInt8 → FixedBytes 20) (a b shrSecret : FixedBytes 32) (p : Party)
    (auth : FixedBytes authSigMsgSize) (info : NodeInfoMsg) (sender receiver : MConnection) :
    Session :=
  Session.fresh (handshake ripemd160 a b shrSecret p).sc
    (handshake ripemd160 a b shrSecret p.other).sc auth info sender receiver

variable {a b : FixedBytes 32} {sendDescs recvDescs : List ChannelDescriptor}
variable {sender receiver : MConnection}

theorem SessionInv.fresh (ripemd160 : List UInt8 → FixedBytes 20) (hne : a ≠ b)
    (shrSecret : FixedBytes 32) (p : Party)
    (hsender : newMConnection sendDescs = .ok sender)
    (hreceiver : newMConnection recvDescs = .ok receiver)
    (hids : (sendDescs.map ChannelDescriptor.id).Nodup)
    (hknown : ∀ desc ∈ sendDescs, desc.id ∈ recvDescs.map ChannelDescriptor.id) :
    SessionInv box auth info (capacity receiver.channels)
      (sessionFrom ripemd160 a b shrSecret p auth info sender receiver) [] [] [] := by
  obtain ⟨-, -, hnonce, hkey⟩ := (handshake_fresh ripemd160 hne shrSecret).1 p
  obtain ⟨-, hclean, -, -⟩ := (handshake_fresh ripemd160 hne shrSecret).1 p.other
  exact ⟨⟨hkey.symm, by simp, rfl, hnonce, hclean⟩, rfl, fun _ => rfl, fun _ => rfl,
    PipeInv.fresh hsender hreceiver hids hknown⟩

/-- Along every run of a session the receiving end meets no error and nothing is left of a frame, so
`Read` never loses bytes there. It reads the authentication message and the `NodeInfo` that were
sent, and the messages delivered on a channel are the first ones accepted on it. -/
theorem session_delivers_in_order (doc : box.Documented)
    (ripemd160 : List UInt8 → FixedBytes 20) (hne : a ≠ b) (shrSecret : FixedBytes 32) (p : Party)
    (hinfo : info.write.flatten.length ≤ maxNodeInfoSize)
    (hsender : newMConnection sendDescs = .ok sender)
    (hreceiver : newMConnection recvDescs = .ok receiver)
    (hids : (sendDescs.map ChannelDescriptor.id).Nodup)
    (hknown : ∀ desc ∈ sendDescs, desc.id ∈ recvDescs.map ChannelDescriptor.id)
    (ops : List SessionOp)
    (hmsg : Acceptable (capacity receiver.channels)
      ((sessionFrom ripemd160 a b shrSecret p auth info sender receiver).run box ops).accepted) :
    let s := (sessionFrom ripemd160 a b shrSecret p auth info sender receiver).run box ops
    s.ended = none ∧ s.recvConn.recvBuffer = [] ∧
    (s.phase = .auth ∨ s.phase = .info auth.1 ∨ s.phase = .running auth.1 info) ∧
    ∀ chID, onChannel chID s.delivered <+: onChannel chID s.accepted := by
  intro s
  obtain ⟨css, tail, items, hinv⟩ :=
    (SessionInv.fresh ripemd160 hne shrSecret p hsender hreceiver hids hknown).run doc hinfo ops
      hmsg
  refine ⟨hinv.pipe.ended, hinv.flight.clean, ?_,
    fun k => (hinv.pipe.wire.streams k).delivered_initial⟩
  have hawaits := hinv.awaits
  cases hphase : s.phase with
  | auth => exact .inl rfl
  | info auth' =>
    rw [hphase] at hawaits
    obtain ⟨rfl, -⟩ := hawaits
    exact .inr (.inl rfl)
  | running auth' info' =>
    rw [hphase] at hawaits
    obtain ⟨rfl, rfl, -⟩ := hawaits
    exact .inr (.inr rfl)

/-- Every session can be finished from where it is: the handshake is written, enough packets are
sent whichever channels they are picked from, the buffer is flushed, and the other end reads. Then
it has the handshake and all the messages that were accepted. -/
theorem session_delivers_everything (doc : box.Documented)
    (ripemd160 : List UInt8 → FixedBytes 20) (hne : a ≠ b) (shrSecret : FixedBytes 32) (p : Party)
    (hinfo : info.write.flatten.length ≤ maxNodeInfoSize)
    (hsender : newMConnection sendDescs = .ok sender)
    (hreceiver : newMConnection recvDescs = .ok receiver)
    (hids : (sendDescs.map ChannelDescriptor.id).Nodup)
    (hknown : ∀ desc ∈ sendDescs, desc.id ∈ recvDescs.map ChannelDescriptor.id)
    (ops : List SessionOp)
    (hmsg : Acceptable (capacity receiver.channels)
      ((sessionFrom ripemd160 a b shrSecret p auth info sender receiver).run box ops).accepted) :
    let s := (sessionFrom ripemd160 a b shrSecret p auth info sender receiver).run box ops
    ∃ n, ∀ ratios : List Ratio, n ≤ ratios.length → ∃ k, ∀ j, k ≤ j →
      let s' := s.run box (List.replicate s.hello.length .hello ++
        ((ratios.map (fun ratio => .conn (.sendMsgPacket ratio)) ++ [.conn .flush]) ++
          List.replicate j .recv))
      s'.ended = none ∧ s'.phase = .running auth.1 info ∧ s'.accepted = s.accepted ∧
        ∀ chID, onChannel chID s'.delivered = onChannel chID s.accepted := by
  intro s
  obtain ⟨css, tail, items, hinv⟩ :=
    (SessionInv.fresh ripemd160 hne shrSecret p hsender hreceiver hids hknown).run doc hinfo ops
      hmsg
  obtain ⟨css', hhello, hnil, hpipe⟩ := hinv.hellos s.hello.length
  let s₁ := s.run box (List.replicate s.hello.length .hello)
  have hsender : s₁.sender = s.sender := congrArg Pipe.sender (hpipe [])
  have hacc : s₁.accepted = s.accepted := congrArg Pipe.accepted (hpipe [])
  refine ⟨toSend s.sender.channels, fun ratios hlen => ?_⟩
  obtain ⟨k, hk⟩ := hhello.finish doc hinfo (hnil.trans (List.drop_length ..)) (hacc ▸ hmsg)
    (show toSend s₁.sender.channels ≤ ratios.length by rwa [hsender])
  refine ⟨k, fun j hj => ?_⟩
  have hrun := hk j hj
  rw [show (s.run box (List.replicate s.hello.length .hello)).accepted = s.accepted from hacc]
    at hrun
  rw [show s.run box (List.replicate s.hello.length .hello ++ _) = s₁.run box _ from
    List.foldl_append ..]
  exact hrun

end

/-! ### A concrete session -/

def plainInfo : NodeInfoMsg :=
  ⟨⟨plainKey 3, [0x6d], [], [0x30], [0x31, 0x2e, 0x30, 0x2e, 0x30]⟩, [], [[0x78], []]⟩

def plainSession : Session :=
  sessionFrom plainDigest (plainKey 0) (plainKey 1) (plainKey 2) .a (.replicate _ 0) plainInfo
    plainConn plainConn

/-- The handshake is written, and a message is queued. -/
def plainOps : List SessionOp :=
  List.replicate plainSession.hello.length .hello ++ [.conn (.trySend 1 [8, 9])]

theorem plainSession_accepted :
    (plainSession.run plainBox plainOps).accepted = [(1, [8, 9])] := by
  have hnew : newMConnection [plainDesc 1, plainDesc 2] = .ok plainConn := rfl
  have hfresh : SessionInv plainBox (.replicate _ 0) plainInfo (capacity plainConn.channels)
      plainSession [] [] [] :=
    SessionInv.fresh plainDigest plainKey_ne _ .a hnew hnew (by decide) (by decide)
  obtain ⟨_, -, hhello, hpipe⟩ := hfresh.hellos plainSession.hello.length
  let s := plainSession.run plainBox (List.replicate plainSession.hello.length .hello)
  have hsender : s.sender = plainConn := congrArg Pipe.sender (hpipe [])
  have hacc : s.accepted = [] := congrArg Pipe.accepted (hpipe [])
  have hrun : plainSession.run plainBox plainOps = s.sendStep plainBox (.trySend 1 [8, 9]) := by
    rw [← step_conn plainBox (hhello.trans (List.drop_length ..))]
    exact List.foldl_append ..
  rw [hrun]
  show s.accepted ++ (if (s.sender.trySend 1 [8, 9]).2 then [(1, [8, 9])] else []) = _
  rw [hacc, hsender]
  rfl

theorem plainSession_acceptable :
    Acceptable (capacity plainConn.channels) (plainSession.run plainBox plainOps).accepted := by
  rw [plainSession_accepted]
  intro chID m hm
  rw [onChannel_singleton] at hm
  split at hm
  · next hk =>
    subst hk
    rw [List.mem_singleton.mp hm]
    exact ⟨by simp, by decide⟩
  · exact absurd hm List.not_mem_nil

/-- A session with a message on its way is in order. -/
theorem plainSession_in_order :
    let s := plainSession.run plainBox plainOps
    s.accepted = [(1, [8, 9])] ∧ s.ended = none ∧ s.recvConn.recvBuffer = [] := by
  have hnew : newMConnection [plainDesc 1, plainDesc 2] = .ok plainConn := rfl
  obtain ⟨hended, hclean, -⟩ := session_delivers_in_order plainBox_documented plainDigest
    plainKey_ne (plainKey 2) .a (by decide) hnew hnew (by decide) (by decide) plainOps
    plainSession_acceptable
  exact ⟨plainSession_accepted, hended, hclean⟩

/-- The message arrives at the other end. -/
theorem plainSession_arrives :
    ∃ ops, let s := (plainSession.run plainBox plainOps).run plainBox ops
      s.phase = .running (List.replicate authSigMsgSize 0) plainInfo ∧
        onChannel 1 s.delivered = [[8, 9]] := by
  have hnew : newMConnection [plainDesc 1, plainDesc 2] = .ok plainConn := rfl
  obtain ⟨n, hn⟩ := session_delivers_everything plainBox_documented plainDigest plainKey_ne
    (plainKey 2) .a (by decide) hnew hnew (by decide) (by decide) plainOps plainSession_acceptable
  obtain ⟨k, hk⟩ := hn (List.replicate n firstRatio) (Nat.le_of_eq List.length_replicate.symm)
  obtain ⟨-, hphase, -, hall⟩ := hk k (Nat.le_refl k)
  refine ⟨_, hphase, (hall 1).trans ?_⟩
  show onChannel 1 (plainSession.run plainBox plainOps).accepted = _
  rw [plainSession_accepted]
  rfl

end BtmStats.Proofs.P2p
