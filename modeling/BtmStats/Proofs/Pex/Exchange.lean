import BtmStats.Proofs.Pex.Entries
import BtmStats.Proofs.Pex.Selection
import BtmStats.Proofs.Wire.Slices
import BtmStats.Spec.Pex.Exchange

/-!
# `BtmStats.Proofs.Pex.Exchange`: where the addresses of a network come from

A message of the peer exchange is decoded as it was sent if it is in the limit, and not at all
otherwise (`decodeMessage_binaryBytes`). The limit holds for the bytes of a message, not for an IP,
so the forms of a message are compared under a limit that both have.

The exchange spreads addresses and makes up none (`addresses_originate`): along every interleaving,
an address in a book was passed to it by the node itself or came in with a message of a node that
does not follow the protocol. `ExchangeInv` says so for the books, for the messages of honest nodes
and for the addresses that wait to be added, and it has the reasons for which peers were stopped.
-/

set_option autoImplicit false

namespace BtmStats.Proofs.Pex

open Lib Spec Spec.Pex Spec.Wire Proofs.Wire

/-! ### The forms of a message -/

section
variable {lmt lmt' n : Nat} {s : List UInt8}

/-- The strings that are read as an address. -/
def AddrForm (lmt n : Nat) (s : List UInt8) (na : NetAddress) : Prop :=
  ∃ t ip, s = t ++ writeUint16 na.port ∧ na.ip = some ip ∧ SliceForm t ip ∧ n + t.length ≤ lmt

/-- The strings that are read as the fields of a message. -/
def FieldsForm (lmt : Nat) (b : UInt8) (n : Nat) (s : List UInt8) : PexMessage → Prop
  | .request => b = msgTypeRequest ∧ s = []
  | .addrs list => b = msgTypeAddrs ∧ SliceOfForm lmt (PointerForm (AddrForm lmt)) n s list

/-- The strings that are read as a message or as nil. -/
def MessageForm (lmt n : Nat) (s : List UInt8) (v : Option PexMessage) : Prop :=
  (s = [0] ∧ v = none) ∨
    ∃ b fields m, s = b :: fields ∧ v = some m ∧ FieldsForm lmt b (n + 1) fields m

theorem AddrForm.mono (hle : lmt ≤ lmt') {na : NetAddress} (h : AddrForm lmt n s na) :
    AddrForm lmt' n s na := by
  obtain ⟨t, ip, rfl, hip, hform, ht⟩ := h
  exact ⟨t, ip, rfl, hip, hform, ht.trans hle⟩

theorem MessageForm.mono (hle : lmt ≤ lmt') {v : Option PexMessage} (h : MessageForm lmt n s v) :
    MessageForm lmt' n s v := by
  rcases h with h | ⟨b, fields, m, rfl, rfl, hfields⟩
  · exact .inl h
  · refine .inr ⟨b, fields, m, rfl, rfl, ?_⟩
    cases m with
    | request => exact hfields
    | addrs list =>
      exact ⟨hfields.1, hfields.2.mono hle fun _ _ _ h => h.mono fun _ _ _ h => h.mono hle⟩

theorem scans_netAddress (hlmt : lmt ≠ 0) (hmax : (lmt : Int) ≤ maxSliceLength) :
    Scans (NetAddress.read lmt) (AddrForm lmt) := by
  refine (scans_bind (scans_readByteSlice hlmt hmax) fun ip => scans_map scans_readUint16
    fun port => (⟨some ip, port⟩ : NetAddress)).congr fun n s na => ?_
  constructor
  · rintro ⟨t, _, ip, rfl, ⟨hform, hle⟩, port, rfl, rfl⟩
    exact ⟨t, ip, rfl, rfl, hform, hle⟩
  · obtain ⟨_, port⟩ := na
    rintro ⟨t, ip, rfl, rfl, hform, hle⟩
    exact ⟨t, _, ip, rfl, ⟨hform, hle⟩, port, rfl, rfl⟩

theorem scans_byteToType (hlmt : lmt ≠ 0) (hmax : (lmt : Int) ≤ maxSliceLength) (b : UInt8)
    (r : Reader PexMessage) (hr : PexMessage.byteToType lmt b = some r) :
    Scans r (FieldsForm lmt b) := by
  unfold PexMessage.byteToType at hr
  split at hr
  · next hb =>
    cases hr
    refine (scans_pure PexMessage.request).congr fun n s m => ?_
    constructor
    · rintro ⟨rfl, rfl⟩
      exact ⟨hb, rfl⟩
    · intro hm
      cases m with
      | request => exact ⟨hm.2, rfl⟩
      | addrs list => exact absurd (hb.symm.trans hm.1) (by decide)
  · next hb =>
    split at hr
    · next hb' =>
      cases hr
      refine (scans_map (scans_readSliceOf hlmt (scans_readPointer
        (scans_netAddress hlmt hmax))) PexMessage.addrs).congr fun n s m => ?_
      constructor
      · rintro ⟨list, hlist, rfl⟩
        exact ⟨hb', hlist⟩
      · intro hm
        cases m with
        | request => exact absurd hm.1 hb
        | addrs list => exact ⟨list, hm.2, rfl⟩
    · cases hr

theorem scans_read (hlmt : lmt ≠ 0) (hmax : (lmt : Int) ≤ maxSliceLength) :
    Scans (PexMessage.read lmt) (fun n s v => MessageForm lmt n s v ∧ n + s.length ≤ lmt) := by
  refine scans_limited (scans_readInterface _ (scans_byteToType hlmt hmax) ?_) hlmt _
  intro b n s m hm
  cases m with
  | request =>
    obtain ⟨rfl, -⟩ := hm
    exact ⟨by decide, Option.some_ne_none _⟩
  | addrs list =>
    obtain ⟨rfl, -⟩ := hm
    exact ⟨by decide, Option.some_ne_none _⟩

/-! ### What is written -/

theorem length_writeVarint_le {i : Int64} (h : ¬ i < 0) : (writeVarint i).length ≤ 9 := by
  rw [writeVarint_of_nonneg h, List.length_cons, length_toBytesBE]
  have := (lt_pow_uvarintSize i.toUInt64).2
  omega

theorem length_le_length_write (na : NetAddress) : na.bytes.length + 2 ≤ na.write.length := by
  rw [NetAddress.write, writeByteSlice, List.length_append, List.length_append, writeUint16,
    length_toBytesBE]
  omega

theorem length_write_le (na : NetAddress) (h : (na.bytes.length : Int) ≤ maxSliceLength) :
    na.write.length ≤ na.bytes.length + 11 := by
  have := length_writeVarint_le (not_ofNat_neg h)
  rw [NetAddress.write, writeByteSlice, List.length_append, List.length_append, writeUint16,
    length_toBytesBE]
  omega

/-- The address that is read when this one was written: a nil IP becomes an empty one. -/
def NetAddress.sent (na : NetAddress) : NetAddress := { na with ip := some na.bytes }

theorem sent_of_ne_nil {na : NetAddress} (h : na.bytes ≠ []) : NetAddress.sent na = na := by
  obtain ⟨_ | ip, port⟩ := na
  · exact absurd rfl h
  · rfl

theorem addrForm_write (na : NetAddress) (hmax : (lmt : Int) ≤ maxSliceLength)
    (h : n + na.write.length ≤ lmt) : AddrForm lmt n na.write (NetAddress.sent na) := by
  have hip := length_le_length_write na
  refine ⟨writeByteSlice na.bytes, _, rfl, rfl, sliceForm_writeByteSlice (by omega), ?_⟩
  rw [NetAddress.write, List.length_append] at h
  omega

theorem one_le_length_writePointer (v : Option NetAddress) :
    1 ≤ (writePointer NetAddress.write v).length := by
  cases v with
  | none => exact Nat.le_refl 1
  | some na => exact Nat.le_add_left 1 _

theorem length_le_length_flatMap (list : List (Option NetAddress)) :
    list.length ≤ (list.flatMap (writePointer NetAddress.write)).length := by
  induction list with
  | nil => exact Nat.le_refl 0
  | cons v list ih =>
    have := one_le_length_writePointer v
    rw [List.flatMap_cons, List.length_append, List.length_cons]
    omega

/-- The message that is read when this one was written. -/
def PexMessage.sent : PexMessage → PexMessage
  | .request => .request
  | .addrs list => .addrs (list.map (Option.map NetAddress.sent))

/-- Nil and the empty IP are written alike. -/
theorem binaryBytes_sent (m : PexMessage) : (PexMessage.sent m).binaryBytes = m.binaryBytes := by
  cases m with
  | request => rfl
  | addrs list =>
    have hwrite : ∀ v, writePointer NetAddress.write (v.map NetAddress.sent) =
        writePointer NetAddress.write v := by
      rintro (_ | na) <;> rfl
    simp only [PexMessage.sent, PexMessage.binaryBytes, writeSliceOf, List.length_map,
      List.flatMap_map, hwrite]

/-- A message in the limit is written in one of the forms of what is read. -/
theorem messageForm_binaryBytes {m : PexMessage} (hmax : (lmt : Int) ≤ maxSliceLength)
    (h : m.binaryBytes.length ≤ lmt) :
    MessageForm lmt 0 m.binaryBytes (some (PexMessage.sent m)) := by
  rw [← binaryBytes_sent] at h ⊢
  cases m with
  | request => exact .inr ⟨_, _, _, rfl, rfl, rfl, rfl⟩
  | addrs list =>
    refine .inr ⟨_, _, _, rfl, rfl, rfl, sliceOfForm_writeSliceOf (fun v hv n hn => ?_) ?_ ?_⟩
    · refine pointerForm_writePointer fun na hna => ?_
      subst hna
      obtain ⟨v, -, hv⟩ := List.mem_map.mp hv
      obtain ⟨na, rfl, rfl⟩ := Option.map_eq_some_iff.mp hv
      rw [writePointer, List.length_cons] at hn
      exact addrForm_write (NetAddress.sent na) hmax (by omega)
    · have := length_le_length_flatMap (list.map (Option.map NetAddress.sent))
      rw [PexMessage.sent, PexMessage.binaryBytes, writeSliceOf, List.length_cons,
        List.length_append] at h
      omega
    · rw [PexMessage.sent, PexMessage.binaryBytes, List.length_cons] at h
      omega

/-- Addresses with short IPs make a short message. -/
theorem length_binaryBytes_addrs_le (list : List (Option NetAddress)) (k : Nat)
    (hk : (k : Int) ≤ maxSliceLength) (hlen : (list.length : Int) ≤ maxSliceLength)
    (h : ∀ na, some na ∈ list → na.bytes.length ≤ k) :
    (PexMessage.addrs list).binaryBytes.length ≤ 10 + list.length * (k + 12) := by
  have hcount := length_writeVarint_le (not_ofNat_neg hlen)
  have helems : (list.flatMap (writePointer NetAddress.write)).length ≤
      list.length * (k + 12) := by
    clear hlen hcount
    induction list with
    | nil => exact Nat.zero_le _
    | cons v list ih =>
      have hrest := ih fun na hna => h na (.tail _ hna)
      have hv : (writePointer NetAddress.write v).length ≤ k + 12 := by
        cases v with
        | none => exact Nat.le_add_left 1 _
        | some na =>
          have hna := h na List.mem_cons_self
          have := length_write_le na (by omega)
          rw [writePointer, List.length_cons]
          omega
      rw [List.flatMap_cons, List.length_append, List.length_cons, Nat.succ_mul]
      omega
  rw [PexMessage.binaryBytes, writeSliceOf, List.length_cons, List.length_append]
  omega

end

/-! ### Decoding -/

theorem maxPexMessageSize_le : (maxPexMessageSize : Int) ≤ maxSliceLength := by decide

/-- What is decoded without an error is in the limit, and of the form of the message. -/
theorem decodeMessage_form {bz : List UInt8} {d : DecodedPex} (h : decodeMessage bz = .ok d)
    (herr : d.err = none) : ∃ s r, bz = s ++ r ∧ s.length ≤ maxPexMessageSize ∧
      MessageForm maxPexMessageSize 0 s d.msg := by
  cases bz with
  | nil => cases h
  | cons b bz =>
    cases h
    have hscans := scans_read (by decide) maxPexMessageSize_le
    obtain ⟨s, r, v, hbz, hform, hlen⟩ := (hscans.ends_iff (b :: bz) 0).mp herr
    have hrun := hscans.append ⟨hform, hlen⟩ r
    rw [← hbz] at hrun
    refine ⟨s, r, hbz, by omega, ?_⟩
    show MessageForm _ _ _ ((PexMessage.read maxPexMessageSize).run ⟨b :: bz, 0, none⟩).1
    rw [hrun]
    exact hform

theorem binaryBytes_ne_nil (m : PexMessage) : m.binaryBytes ≠ [] := by
  cases m <;> exact List.cons_ne_nil _ _

/-- The limit is what decides whether a message is decoded, and nothing else is decoded of it. Only
a nil IP becomes an empty one. -/
theorem decodeMessage_binaryBytes {m : PexMessage}
    (hmax : (m.binaryBytes.length : Int) ≤ maxSliceLength) {d : DecodedPex}
    (h : decodeMessage m.binaryBytes = .ok d) :
    (d.err = none ↔ m.binaryBytes.length ≤ maxPexMessageSize) ∧
      (d.err = none → d.msg = some (PexMessage.sent m)) := by
  have hmsg : d.err = none → d.msg = some (PexMessage.sent m) ∧
      m.binaryBytes.length ≤ maxPexMessageSize := by
    intro herr
    obtain ⟨s, r, hbytes, hlen, hform⟩ := decodeMessage_form h herr
    -- Under a limit that both have, one input is read in one way.
    have hle := Nat.le_max_left maxPexMessageSize m.binaryBytes.length
    have hle' := Nat.le_max_right maxPexMessageSize m.binaryBytes.length
    have hbound : ((max maxPexMessageSize m.binaryBytes.length : Nat) : Int) ≤ maxSliceLength := by
      have := maxPexMessageSize_le
      omega
    have hwritten := messageForm_binaryBytes hbound hle'
    have heq : s ++ r = m.binaryBytes ++ [] := by rw [List.append_nil, hbytes]
    obtain ⟨rfl, -, hv⟩ := (scans_read (by rw [maxPexMessageSize]; omega) hbound).unique
      (n := 0) ⟨hform.mono hle, by omega⟩ ⟨hwritten, by omega⟩ heq
    exact ⟨hv, hlen⟩
  refine ⟨⟨fun herr => (hmsg herr).2, fun hlen => ?_⟩, fun herr => (hmsg herr).1⟩
  have hrun := (scans_read (by decide) maxPexMessageSize_le).append (n := 0)
    ⟨messageForm_binaryBytes maxPexMessageSize_le hlen, by omega⟩ []
  rw [List.append_nil] at hrun
  obtain ⟨b, bz, hcons⟩ := List.exists_cons_of_ne_nil (binaryBytes_ne_nil m)
  rw [hcons] at h hrun
  cases h
  show ((PexMessage.read maxPexMessageSize).run ⟨b :: bz, 0, none⟩).2.err = none
  rw [hrun]

/-- Where `Receive` goes with a message. -/
theorem receive_cases (src : Option NetAddress) (reached : Bool) (bytes : List UInt8) :
    receive src reached bytes = .ok (.stop .limit) ∨
    (bytes = [] ∧ ∃ e, receive src reached bytes = .error e) ∨
    ∃ d, decodeMessage bytes = .ok d ∧
      ((d.err ≠ none ∧ receive src reached bytes = .ok (.stop (.undecodable bytes))) ∨
        receive src reached bytes = .ok .answer ∨ receive src reached bytes = .ok .ignore ∨
        ∃ src' list, d.err = none ∧ d.msg = some (.addrs list) ∧
          receive src reached bytes = .ok (.addAddrs src' list)) := by
  cases reached with
  | true => exact .inl rfl
  | false =>
    refine .inr ?_
    cases bytes with
    | nil => exact .inl ⟨rfl, _, rfl⟩
    | cons b bz =>
      obtain ⟨d, hdecode⟩ : ∃ d, decodeMessage (b :: bz) = .ok d := ⟨_, rfl⟩
      refine .inr ⟨d, hdecode, ?_⟩
      obtain ⟨msgType, msg, err⟩ := d
      simp only [receive, hdecode, bind, Except.bind]
      cases err with
      | some err => exact .inl ⟨Option.some_ne_none err, rfl⟩
      | none =>
        refine .inr ?_
        cases msg with
        | none => exact .inr (.inl rfl)
        | some m =>
          cases m with
          | request => exact .inl rfl
          | addrs list =>
            cases src with
            | none => exact .inr (.inl rfl)
            | some src => exact .inr (.inr ⟨src, list, rfl, rfl, rfl⟩)

/-! ### The addresses of a book -/

/-- Every address that the book knows has the property. -/
def KnownAddrs (P : NetAddress → Prop) (c : Contents) : Prop :=
  ∀ s ka, c.known s = some ka → P ka.addr

section
variable {P : NetAddress → Prop} {c : Contents} {env : Env} {a a' : AddrBook}

theorem KnownAddrs.set (h : KnownAddrs P c) {s : Str} {v : Option KnownAddress}
    (hv : ∀ ka, v = some ka → P ka.addr) : KnownAddrs P (c.set s v) := by
  intro s' ka hka
  by_cases hs : s' = s
  · subst hs
    rw [Contents.known_set_self] at hka
    exact hv ka hka
  · rw [Contents.known_set_of_ne _ hs] at hka
    exact h s' ka hka

theorem KnownAddrs.expireNew (h : KnownAddrs P c) (chance : Contents.Chance) (i : Nat) :
    KnownAddrs P (c.expireNew chance i) := by
  unfold Contents.expireNew
  split
  · exact h
  · refine h.set fun ka hka => ?_
    obtain ⟨ka', hknown, hdrop⟩ := Option.bind_eq_some_iff.mp hka
    unfold Contents.dropRef at hdrop
    split at hdrop
    · cases hdrop
    · cases hdrop
      exact h _ ka' hknown

/-- `addAddress` brings in no address but the one passed. -/
theorem KnownAddrs.addAddress (h : KnownAddrs P c) (chance : Contents.Chance)
    {addr src : Option NetAddress} (hP : ∀ na, addr = some na → P na) :
    KnownAddrs P (c.addAddress env chance addr src).1 := by
  unfold Contents.addAddress
  split
  · next na src =>
    split
    · exact h
    split
    · exact h
    split
    · exact h
    · next ka hpick =>
      have hka : P ka.addr := by
        unfold Contents.pickKnown at hpick
        split at hpick
        · cases hpick
          exact hP na rfl
        · next ka' hknown =>
          split at hpick
          · cases hpick
          · cases hpick
            exact h _ _ hknown
      unfold Contents.addToNewBucket
      split
      · exact h
      · refine KnownAddrs.set ?_ fun ka' hka' => ?_
        · split
          · exact h.expireNew _ _
          · exact h
        · cases hka'
          exact hka
  · exact h

/-- A call brings in the address that it is given, and no other. -/
theorem KnownAddrs.step (hinv : RepInv env a) (h : KnownAddrs P (contents a))
    {op : AddrBook.Op} (hop : ∀ chance na src, op = .addAddress chance (some na) src → P na)
    (hstep : a.step env op = .ok a') : KnownAddrs P (contents a') := by
  rw [(contents_of_step hinv hstep).2]
  cases op with
  | addAddress chance addr src =>
    exact h.addAddress _ fun na hna => hop chance na src (by rw [hna])
  | markGood now addr =>
    refine h.set fun ka hka => ?_
    obtain ⟨ka', hknown, hka⟩ := Option.bind_eq_some_iff.mp hka
    split at hka
    · unfold Contents.moved at hka
      dsimp only at hka
      split at hka
      · cases hka
      · cases hka
        exact h _ ka' hknown
    · cases hka
      exact h _ ka' hknown
  | markAttempt now addr =>
    refine h.set fun ka hka => ?_
    obtain ⟨ka', hknown, rfl⟩ := Option.map_eq_some_iff.mp hka
    exact h _ ka' hknown
  | removeAddress addr => exact h.set fun ka hka => absurd hka (Option.some_ne_none ka).symm
  | addOurAddress addr => exact h

theorem KnownAddrs.step_addAddress (h : KnownAddrs P (contents a)) (hinv : RepInv env a)
    {na : NetAddress} (hna : P na) {chance : Chance} {src : Option NetAddress}
    (hstep : a.step env (.addAddress chance (some na) src) = .ok a') :
    KnownAddrs P (contents a') := by
  refine h.step hinv (fun _ _ _ hop => ?_) hstep
  cases hop
  exact hna

/-- A book that does not take an address will not take it later. -/
theorem not_accepts_step (hinv : RepInv env a) {op : AddrBook.Op}
    (hstep : a.step env op = .ok a') {na : NetAddress} (h : ¬ Accepts env a na) :
    ¬ Accepts env a' na := by
  have hours := (step_entries hinv hstep (env.str na)).1
  have hstrict : a'.routabilityStrict = a.routabilityStrict := by
    have hcont := congrArg Contents.routabilityStrict (contents_of_step hinv hstep).2
    refine hcont.trans ?_
    cases op with
    | addAddress chance addr src => exact (Contents.addAddress_header ..).1
    | markGood | markAttempt | removeAddress | addOurAddress => rfl
  intro hacc
  refine h ⟨fun hmem => hacc.1 (hours hmem), ?_⟩
  rw [← hstrict]
  exact hacc.2

/-- `AddAddress` returns an error for nil and for an address that the book does not take. -/
theorem addAddress_refuses (hinv : RepInv env a) {chance : Chance} {addr : Option NetAddress}
    {src : NetAddress} {err : Err}
    (h : a.addAddress env chance addr (some src) = .ok (a', some err)) :
    ∀ na, addr = some na → ¬ Accepts env a na := by
  rintro na rfl hacc
  obtain ⟨a₁, err₁, hadd, -, hcont⟩ := addAddress_spec hinv chance (some na) (some src)
  rw [h] at hadd
  cases hadd
  have herr := congrArg Prod.snd hcont
  unfold Contents.addAddress at herr
  dsimp only at herr
  rw [if_neg (show env.str na ∉ (contents a).ourAddrs from hacc.1),
    if_neg (show ¬ ((contents a).routabilityStrict = true ∧ env.routable na = false) from
      hacc.2)] at herr
  split at herr <;> cases herr

end

/-! ### Where addresses come from -/

section
variable (events : List ExchangeEvent)

/-- A node has passed the address to `AddAddress` by itself, as for a seed or an inbound peer. -/
def CalledWith (na : NetAddress) : Prop :=
  ∃ node chance src, .call node (.addAddress chance (some na) src) ∈ events

/-- The address has come in with a message of a node that does not follow the protocol. -/
def InjectedAddr (na : NetAddress) : Prop :=
  ∃ sender receiver bytes d list, .inject sender receiver bytes ∈ events ∧
    decodeMessage bytes = .ok d ∧ d.err = none ∧ d.msg = some (.addrs list) ∧ some na ∈ list

/-- The address has come in one of the two ways. A nil IP may have become an empty one since. -/
def Origin (na : NetAddress) : Prop :=
  ∃ na', (CalledWith events na' ∨ InjectedAddr events na') ∧ (na = na' ∨ na = NetAddress.sent na')

/-- The messages of the nodes that follow the protocol. -/
def Honest : PexMessage → Prop
  | .request => True
  | .addrs list => list.length ≤ 250 ∧ ∀ v ∈ list, ∃ na, v = some na ∧ Origin events na

/-- An address of a message that has arrived. Nil is in no message of an honest node. -/
def Carried (sender receiver : Nat) : Option NetAddress → Prop
  | none => ∃ bytes, .inject sender receiver bytes ∈ events
  | some na => Origin events na

/-- Why a node has stopped a peer. An honest peer is stopped over the bytes of a message only if
they are too many and have an address in them that is longer than IPv6. -/
def Justified (env : Env) (books : Nat → AddrBook) (s : Stop) : Prop :=
  match s.reason with
  | .limit | .sendFailed => True
  | .undecodable bytes => .inject s.peer s.node bytes ∈ events ∨
      maxPexMessageSize < bytes.length ∧ ∃ list na, bytes = (PexMessage.addrs list).binaryBytes ∧
        some na ∈ list ∧ Origin events na ∧ 16 < na.bytes.length
  | .panicked bytes => bytes = [] ∧ .inject s.peer s.node bytes ∈ events
  | .refused none => ∃ bytes, .inject s.peer s.node bytes ∈ events
  | .refused (some na) => Origin events na ∧ ¬ Accepts env (books s.node) na

structure ExchangeInv (env : Env) (x : Exchange) : Prop where
  books : ∀ node, RepInv env (x.books node)
  known : ∀ node, KnownAddrs (Origin events) (contents (x.books node))
  wire : ∀ p ∈ x.wire, .inject p.sender p.receiver p.bytes ∈ events ∨
    ∃ m, p.bytes = m.binaryBytes ∧ Honest events m
  calls : ∀ c ∈ x.calls, ∀ v ∈ c.rest, Carried events c.sender c.receiver v
  stops : ∀ s ∈ x.stops, Justified events env x.books s

end

section
variable {events : List ExchangeEvent} {env : Env} {x : Exchange} {na : NetAddress}

theorem InjectedAddr.length_le (h : InjectedAddr events na) :
    na.bytes.length ≤ maxPexMessageSize := by
  obtain ⟨-, -, bytes, d, list, -, hdecode, herr, hmsg, hna⟩ := h
  obtain ⟨s, -, -, -, hform⟩ := decodeMessage_form hdecode herr
  rw [hmsg] at hform
  rcases hform with ⟨-, hnone⟩ | ⟨b, fields, m, -, hm, hfields⟩
  · exact absurd hnone (Option.some_ne_none _)
  · cases hm
    obtain ⟨-, s₁, s₂, i, -, -, -, helems⟩ := hfields
    obtain ⟨n, _, t, -, u, ip, -, hip, ⟨pre, rfl, -⟩, hle⟩ := helems.of_mem hna
    rw [List.length_append] at hle
    rw [NetAddress.bytes, hip, Option.getD_some]
    omega

/-- No address that a node passes to its book has an IP of more than 4 MB. -/
def ModestCalls (events : List ExchangeEvent) : Prop :=
  ∀ na, CalledWith events na → na.bytes.length ≤ 2 ^ 22

theorem Origin.length_le (hcalls : ModestCalls events) (h : Origin events na) :
    na.bytes.length ≤ 2 ^ 22 := by
  obtain ⟨na', hna', hsent⟩ := h
  have hlen : na'.bytes.length ≤ 2 ^ 22 :=
    hna'.elim (hcalls na') fun hinjected => hinjected.length_le.trans (by decide)
  rcases hsent with rfl | rfl
  · exact hlen
  · exact hlen

theorem Origin.sent (h : Origin events na) : Origin events (NetAddress.sent na) := by
  obtain ⟨na', hna', rfl | rfl⟩ := h
  · exact ⟨_, hna', .inr rfl⟩
  · exact ⟨_, hna', .inr rfl⟩

theorem Honest.length_le (hcalls : ModestCalls events) {m : PexMessage} (h : Honest events m) :
    (m.binaryBytes.length : Int) ≤ maxSliceLength := by
  cases m with
  | request => decide
  | addrs list =>
    have hcount := h.1
    have hlen := length_binaryBytes_addrs_le list (2 ^ 22) (by decide)
      (by rw [maxSliceLength]; omega) fun na hna => by
        obtain ⟨na', hv, horigin⟩ := h.2 _ hna
        cases hv
        exact horigin.length_le hcalls
    rw [maxSliceLength]
    omega

/-- A message of an honest node that is too long has a long address. -/
theorem Honest.long_address {m : PexMessage} (h : Honest events m)
    (hlong : maxPexMessageSize < m.binaryBytes.length) :
    ∃ list na, m = .addrs list ∧ some na ∈ list ∧ Origin events na ∧ 16 < na.bytes.length := by
  cases m with
  | request => exact absurd hlong (by decide)
  | addrs list =>
    have hcount := h.1
    by_contra hnot
    have hlen := length_binaryBytes_addrs_le list 16 (by decide)
      (by rw [maxSliceLength]; omega) fun na hna => by
        obtain ⟨na', hv, horigin⟩ := h.2 _ hna
        cases hv
        exact Nat.le_of_not_lt fun hlt => hnot ⟨list, na, rfl, hna, horigin, hlt⟩
    rw [maxPexMessageSize] at hlong
    omega

/-! ### Steps of the network -/

theorem ExchangeInv.stop (h : ExchangeInv events env x) {node peer : Nat} {reason : StopReason}
    (hreason : Justified events env x.books ⟨node, peer, reason⟩) :
    ExchangeInv events env (x.stop node peer reason) := by
  refine { h with stops := fun s hs => ?_ }
  rcases List.mem_append.mp hs with hs | hs
  · exact h.stops s hs
  · rw [List.mem_singleton.mp hs]
    exact hreason

theorem ExchangeInv.send (h : ExchangeInv events env x) {m : PexMessage} (hm : Honest events m)
    (node peer : Nat) (sent : Bool) : ExchangeInv events env (x.send node peer m sent) := by
  cases sent with
  | false => exact h.stop trivial
  | true =>
    refine { h with wire := fun p hp => ?_ }
    rcases List.mem_append.mp hp with hp | hp
    · exact h.wire p hp
    · rw [List.mem_singleton.mp hp]
      exact .inr ⟨m, rfl, hm⟩

theorem ExchangeInv.sendSelection (h : ExchangeInv events env x) (node peer : Nat)
    (order : IterOrder Nat) (draws : Nat → Nat) (sent : Bool) :
    ∃ x', x.sendSelection node peer order draws sent = .ok x' ∧ ExchangeInv events env x' := by
  obtain ⟨l, hl, hlen, -, hknown⟩ := getSelection_spec (h.books node) order draws
  have hm : Honest events (.addrs (l.map some)) := by
    refine ⟨?_, fun v hv => ?_⟩
    · rw [List.length_map, hlen, selectionSize]
      omega
    · obtain ⟨na, hna, rfl⟩ := List.mem_map.mp hv
      obtain ⟨ka, hka, rfl⟩ := hknown na hna
      exact ⟨ka.addr, rfl, h.known node _ ka hka⟩
  refine ⟨_, ?_, h.send hm node peer sent⟩
  rw [Exchange.sendSelection, hl]
  rfl

/-- A call on a book that brings in only addresses with an origin. -/
theorem ExchangeInv.setBook (h : ExchangeInv events env x) {node : Nat} {op : AddrBook.Op}
    {book : AddrBook} (hstep : (x.books node).step env op = .ok book)
    (hop : ∀ chance na src, op = .addAddress chance (some na) src → Origin events na) :
    ExchangeInv events env (x.setBook node book) := by
  have hbooks : ∀ i, (x.setBook node book).books i = if i = node then book else x.books i :=
    fun i => Function.update_apply ..
  refine { h with books := fun i => ?_, known := fun i => ?_, stops := fun s hs => ?_ }
  · rw [hbooks]
    split
    · exact (contents_of_step (h.books node) hstep).1
    · exact h.books i
  · rw [hbooks]
    split
    · exact (h.known node).step (h.books node) hop hstep
    · exact h.known i
  · have hs' := h.stops s hs
    obtain ⟨i, peer, reason⟩ := s
    cases reason with
    | limit | sendFailed | undecodable | panicked => exact hs'
    | refused v =>
      cases v with
      | none => exact hs'
      | some na =>
        refine ⟨hs'.1, ?_⟩
        rw [hbooks]
        split
        · next hi =>
          subst hi
          exact not_accepts_step (h.books _) hstep hs'.2
        · exact hs'.2

/-- A message that arrives. -/
theorem ExchangeInv.receive (hcalls : ModestCalls events) (h : ExchangeInv events env x)
    (srcAddr : Nat → Nat → Option NetAddress) (i : Nat) (reached : Bool) (order : IterOrder Nat)
    (draws : Nat → Nat) (sent : Bool) :
    ∃ x', x.step env srcAddr (.receive i reached order draws sent) = .ok x' ∧
      ExchangeInv events env x' := by
  simp only [Exchange.step]
  cases hp : x.wire[i]? with
  | none => exact ⟨x, rfl, h⟩
  | some p =>
    have hwire := h.wire p (List.mem_of_getElem? hp)
    simp only
    rcases receive_cases (srcAddr p.receiver p.sender) reached p.bytes with
      heq | ⟨hnil, e, heq⟩ | ⟨d, hdecode, ⟨herr, heq⟩ | heq | heq | ⟨src, list, herr, hmsg, heq⟩⟩
      <;> rw [heq]
    · exact ⟨_, rfl, h.stop trivial⟩
    · refine ⟨_, rfl, h.stop ⟨hnil, ?_⟩⟩
      rcases hwire with hinject | ⟨m, hm, -⟩
      · exact hinject
      · exact absurd (hm.symm.trans hnil) (binaryBytes_ne_nil m)
    · refine ⟨_, rfl, h.stop ?_⟩
      rcases hwire with hinject | ⟨m, hm, honest⟩
      · exact .inl hinject
      · rw [hm] at hdecode
        have hlimit := (decodeMessage_binaryBytes (honest.length_le hcalls) hdecode).1
        have hsize : maxPexMessageSize < m.binaryBytes.length :=
          Nat.lt_of_not_le fun hle => herr (hlimit.mpr hle)
        obtain ⟨list, na, rfl, hna, horigin, hlong⟩ := honest.long_address hsize
        exact .inr ⟨hm ▸ hsize, list, na, hm, hna, horigin, hlong⟩
    · exact h.sendSelection _ _ order draws sent
    · exact ⟨x, rfl, h⟩
    · refine ⟨_, rfl, { h with calls := fun c hc => ?_ }⟩
      rcases List.mem_append.mp hc with hc | hc
      · exact h.calls c hc
      · rw [List.mem_singleton.mp hc]
        intro v hv
        rcases hwire with hinject | ⟨m, hm, honest⟩
        · cases v with
          | none => exact ⟨p.bytes, hinject⟩
          | some na =>
            exact ⟨na, .inr ⟨_, _, _, d, list, hinject, hdecode, herr, hmsg, hv⟩, .inl rfl⟩
        · -- The message of an honest node is decoded as it was sent.
          rw [hm] at hdecode
          have hsame := (decodeMessage_binaryBytes (honest.length_le hcalls) hdecode).2 herr
          rw [hmsg, Option.some.injEq] at hsame
          cases m with
          | request => cases hsame
          | addrs list' =>
            cases hsame
            obtain ⟨v', hv', rfl⟩ := List.mem_map.mp hv
            obtain ⟨na, rfl, horigin⟩ := honest.2 v' hv'
            exact horigin.sent

/-- A loop over the addresses of a message goes on. -/
theorem ExchangeInv.add (h : ExchangeInv events env x)
    (srcAddr : Nat → Nat → Option NetAddress) (i : Nat) (chance : Chance) :
    ∃ x', x.step env srcAddr (.add i chance) = .ok x' ∧ ExchangeInv events env x' := by
  simp only [Exchange.step]
  split
  · next sender receiver src addr rest hcall =>
    have hcarried := h.calls _ (List.mem_of_getElem? hcall)
    have haddr := hcarried addr List.mem_cons_self
    obtain ⟨book, err, hadd, -, -⟩ := addAddress_spec (h.books receiver) chance addr (some src)
    have hstep : (x.books receiver).step env (.addAddress chance addr (some src)) =
        .ok book := by
      rw [AddrBook.step, hadd]
      rfl
    have hbook := h.setBook hstep fun _ na _ hop => by
      cases hop
      exact haddr
    -- The addresses that are left are some of those that were left before.
    have hrest : ∀ rest', rest' ⊆ rest → ExchangeInv events env
        { x.setBook receiver book with
          calls := x.calls.set i ⟨sender, receiver, src, rest'⟩ } := by
      intro rest' hsub
      refine { hbook with calls := fun c hc => ?_ }
      rcases List.mem_or_eq_of_mem_set hc with hc | rfl
      · exact h.calls c hc
      · exact fun v hv => hcarried v (List.mem_cons_of_mem _ (hsub hv))
    rw [hadd]
    cases err with
    | none => exact ⟨_, rfl, hrest rest (List.Subset.refl _)⟩
    | some err =>
      refine ⟨_, rfl, (hrest [] (List.nil_subset _)).stop ?_⟩
      cases addr with
      | none => exact haddr
      | some na =>
        refine ⟨haddr, ?_⟩
        have hself : (x.setBook receiver book).books receiver = book :=
          Function.update_self ..
        show ¬ Accepts env ((x.setBook receiver book).books receiver) na
        rw [hself]
        exact not_accepts_step (h.books receiver) hstep
          (addAddress_refuses (h.books receiver) hadd na rfl)
  · exact ⟨x, rfl, h⟩

/-- Every event keeps the origin of all addresses. -/
theorem ExchangeInv.step (hcalls : ModestCalls events) (h : ExchangeInv events env x)
    (srcAddr : Nat → Nat → Option NetAddress) {e : ExchangeEvent} (he : e ∈ events) :
    ∃ x', x.step env srcAddr e = .ok x' ∧ ExchangeInv events env x' := by
  cases e with
  | call node op =>
    obtain ⟨book, hstep, -⟩ := step_spec (h.books node) op
    refine ⟨_, ?_, h.setBook hstep fun chance na src hop =>
      ⟨na, .inl ⟨node, chance, src, ?_⟩, .inl rfl⟩⟩
    · rw [Exchange.step, hstep]
      rfl
    · rw [← hop]
      exact he
  | request node peer sent => exact ⟨_, rfl, h.send (m := .request) trivial node peer sent⟩
  | sendAddrs node peer order draws sent => exact h.sendSelection node peer order draws sent
  | inject sender receiver bytes =>
    refine ⟨_, rfl, { h with wire := fun p hp => ?_ }⟩
    rcases List.mem_append.mp hp with hp | hp
    · exact h.wire p hp
    · rw [List.mem_singleton.mp hp]
      exact .inl he
  | receive i reached order draws sent => exact h.receive hcalls srcAddr i reached order draws sent
  | add i chance => exact h.add srcAddr i chance

theorem exchangeInv_fresh (events : List ExchangeEvent) (env : Env)
    (routabilityStrict : Nat → Bool) (key : Nat → Str) :
    ExchangeInv events env (.fresh routabilityStrict key) where
  books node := repInv_new env _ _
  known node s ka hka := by
    rw [contents_known_none (AList.lookup_empty s)] at hka
    cases hka
  wire p hp := by cases hp
  calls c hc := by cases hc
  stops s hs := by cases hs

end

theorem run_exchangeInv (env : Env) (srcAddr : Nat → Nat → Option NetAddress)
    (routabilityStrict : Nat → Bool) (key : Nat → Str) {events : List ExchangeEvent}
    (hcalls : ModestCalls events) :
    ∃ x, (Exchange.fresh routabilityStrict key).run env srcAddr events = .ok x ∧
      ExchangeInv events env x :=
  foldlM_succeeds (fun _ _ he h => h.step hcalls srcAddr he)
    (exchangeInv_fresh events env routabilityStrict key)

/-- Nodes that exchange addresses, among nodes that send whatever they like. No call on a book
panics. An address in a book was a seed, the address of an inbound peer, or in a message of a node
that does not follow the protocol: the exchange brings up no other. An honest peer is stopped over a
message only if the node does not take one of its addresses, or if the message is over 1 MB and has
an address longer than IPv6. The nodes pass no IP of more than 4 MB to their own books. -/
theorem addresses_originate (env : Env) (srcAddr : Nat → Nat → Option NetAddress)
    (routabilityStrict : Nat → Bool) (key : Nat → Str) (events : List ExchangeEvent)
    (hcalls : ModestCalls events) :
    ∃ x, (Exchange.fresh routabilityStrict key).run env srcAddr events = .ok x ∧
      (∀ node s ka, known? (x.books node) s = some ka → Origin events ka.addr) ∧
      (∀ p ∈ x.wire, .inject p.sender p.receiver p.bytes ∈ events ∨
        ∃ m, p.bytes = m.binaryBytes ∧ Honest events m) ∧
      ∀ s ∈ x.stops, Justified events env x.books s := by
  obtain ⟨x, hrun, h⟩ := run_exchangeInv env srcAddr routabilityStrict key hcalls
  exact ⟨x, hrun, h.known, h.wire, h.stops⟩

def plainExchangeEnv : Env :=
  ⟨NetAddress.write, fun _ => true, fun _ na => na.bytes, fun _ => .replicate 32 0⟩

def plainSeed : NetAddress := ⟨some [1, 2, 3, 4], 46656⟩

def reverseOrder : IterOrder Nat := ⟨List.reverse, fun _ => List.reverse_perm _⟩

def plainChance : Chance := ⟨0, fun _ _ => 0, reverseOrder, reverseOrder, 0⟩

/-- Node 0 has a seed. Node 1 asks it for addresses and adds the one of the answer. -/
def plainEvents : List ExchangeEvent :=
  [.call 0 (.addAddress plainChance (some plainSeed) (some plainSeed)), .request 1 0 true,
    .receive 0 false reverseOrder id true, .receive 1 false reverseOrder id true,
    .add 0 plainChance]

/-- The seed of node 0 gets into the book of node 1. -/
theorem plainSeed_spreads :
    ∃ x, (Exchange.fresh (fun _ => true) fun _ => []).run plainExchangeEnv
        (fun _ _ => some plainSeed) plainEvents = .ok x ∧
      (known? (x.books 1) plainSeed.write).map KnownAddress.addr = some plainSeed ∧
      Origin plainEvents plainSeed ∧
      ∀ s ∈ x.stops, Justified plainEvents plainExchangeEnv x.books s := by
  have hcalls : ModestCalls plainEvents := by
    rintro na ⟨node, chance, src, hmem⟩
    simp only [plainEvents, List.mem_cons, ExchangeEvent.call.injEq, AddrBook.Op.addAddress.injEq,
      Option.some.injEq, reduceCtorEq, List.not_mem_nil, or_false] at hmem
    obtain ⟨-, -, rfl, -⟩ := hmem
    decide
  obtain ⟨x, hrun, hknown, -, hstops⟩ := addresses_originate plainExchangeEnv
    (fun _ _ => some plainSeed) (fun _ => true) (fun _ => []) plainEvents hcalls
  have hseed : (((Exchange.fresh (fun _ => true) fun _ => []).run plainExchangeEnv
      (fun _ _ => some plainSeed) plainEvents).toOption.bind fun x =>
        (known? (x.books 1) plainSeed.write).map KnownAddress.addr) = some plainSeed := by
    decide +kernel
  rw [hrun] at hseed
  obtain ⟨ka, hka, haddr⟩ := Option.map_eq_some_iff.mp hseed
  refine ⟨x, hrun, hseed, ?_, hstops⟩
  rw [← haddr]
  exact hknown 1 _ ka hka

end BtmStats.Proofs.Pex
