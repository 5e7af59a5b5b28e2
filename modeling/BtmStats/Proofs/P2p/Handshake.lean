import BtmStats.Proofs.P2p.SecretConnection
import BtmStats.Proofs.Wire.Binary
import BtmStats.Spec.P2p.Handshake

/-!
# `BtmStats.Proofs.P2p.Handshake`: who is at the other end of a `SecretConnection`

First what `MakeSecretConnection` makes of every authentication message: it accepts exactly one form
of it, and there are messages that make it panic. Then what an accepted key means. In a network of
calls whose other inputs an adversary chooses, an accepted key of a node that takes part is the key
of a call with the same two ephemeral keys, which is the other end of the connection.
-/

set_option autoImplicit false

namespace BtmStats.Proofs.P2p

open Lib Spec Spec.P2p Proofs.Wire

/-! ### The authentication message -/

/-- The encodings of a key. -/
inductive PubKeyForm : List UInt8 → Option AnyPubKey → Prop
  | nil : PubKeyForm [0x00] none
  | ed25519 (key : PubKey) : PubKeyForm (0x01 :: key.1) (some (.ed25519 key))
  | secp256k1 (key : FixedBytes 33) : PubKeyForm (0x02 :: key.1) (some (.secp256k1 key))

/-- The encodings of a signature. -/
inductive SignatureForm : List UInt8 → Option AnySignature → Prop
  | nil : SignatureForm [0x00] none
  | ed25519 (sig : FixedBytes 64) : SignatureForm (0x01 :: sig.1) (some (.ed25519 sig))
  | secp256k1 (s sig : List UInt8) : Wire.SliceForm s sig →
      SignatureForm (0x02 :: s) (some (.secp256k1 sig))

/-- The byte strings that go-wire reads as a key. -/
theorem scans_readPubKey : Scans readPubKey (fun _ => PubKeyForm) := by
  refine (scans_readInterface "crypto.PubKeyInner" (F := fun b _ s a =>
    (b = 1 ∧ ∃ key : PubKey, s = key.1 ∧ a = .ed25519 key) ∨
    (b = 2 ∧ ∃ key : FixedBytes 33, s = key.1 ∧ a = .secp256k1 key)) ?_ ?_).congr
    fun n s v => ?_
  · intro b r hr
    by_cases h1 : b = 1
    · subst h1
      cases hr
      exact (scans_map (scans_readByteArray 32) AnyPubKey.ed25519).congr fun _ _ _ => by simp
    · by_cases h2 : b = 2
      · subst h2
        cases hr
        exact (scans_map (scans_readByteArray 33) AnyPubKey.secp256k1).congr fun _ _ _ => by simp
      · rw [if_neg h1, if_neg h2] at hr
        cases hr
  · rintro b n s a (⟨rfl, -⟩ | ⟨rfl, -⟩) <;> exact ⟨by decide, nofun⟩
  · constructor
    · rintro (⟨rfl, rfl⟩ | ⟨b, fields, a, rfl, rfl, ⟨rfl, key, rfl, rfl⟩ | ⟨rfl, key, rfl, rfl⟩⟩)
      · exact .nil
      · exact .ed25519 key
      · exact .secp256k1 key
    · rintro (_ | key | key)
      · exact .inl ⟨rfl, rfl⟩
      · exact .inr ⟨1, key.1, _, rfl, rfl, .inl ⟨rfl, key, rfl, rfl⟩⟩
      · exact .inr ⟨2, key.1, _, rfl, rfl, .inr ⟨rfl, key, rfl, rfl⟩⟩

/-- The byte strings that go-wire reads as a signature. -/
theorem scans_readSignature {lmt : Nat} (hlmt : lmt ≠ 0)
    (hmax : (lmt : Int) ≤ Wire.maxSliceLength) :
    Scans (readSignature lmt) (fun n s v => SignatureForm s v ∧
      ∀ sig, v = some (.secp256k1 sig) → n + s.length ≤ lmt) := by
  refine (scans_readInterface "crypto.SignatureInner" (F := fun b n s a =>
    (b = 1 ∧ ∃ sig : FixedBytes 64, s = sig.1 ∧ a = .ed25519 sig) ∨
    (b = 2 ∧ ∃ sig : List UInt8, (Wire.SliceForm s sig ∧ n + s.length ≤ lmt) ∧
      a = .secp256k1 sig)) ?_ ?_).congr fun n s v => ?_
  · intro b r hr
    by_cases h1 : b = 1
    · subst h1
      cases hr
      exact (scans_map (scans_readByteArray 64) AnySignature.ed25519).congr fun _ _ _ => by simp
    · by_cases h2 : b = 2
      · subst h2
        cases hr
        exact (scans_map (scans_readByteSlice hlmt hmax) AnySignature.secp256k1).congr
          fun _ _ _ => by simp
      · rw [if_neg h1, if_neg h2] at hr
        cases hr
  · rintro b n s a (⟨rfl, -⟩ | ⟨rfl, -⟩) <;> exact ⟨by decide, nofun⟩
  · constructor
    · rintro (⟨rfl, rfl⟩ | ⟨b, fields, a, rfl, rfl, ⟨rfl, sig, rfl, rfl⟩ |
        ⟨rfl, sig, ⟨hform, hle⟩, rfl⟩⟩)
      · exact ⟨.nil, nofun⟩
      · exact ⟨.ed25519 sig, nofun⟩
      · refine ⟨.secp256k1 fields sig hform, fun _ _ => ?_⟩
        rw [List.length_cons]
        omega
    · rintro ⟨_ | sig | ⟨s, sig, hform⟩, hle⟩
      · exact .inl ⟨rfl, rfl⟩
      · exact .inr ⟨1, sig.1, _, rfl, rfl, .inl ⟨rfl, sig, rfl, rfl⟩⟩
      · have hlen := hle sig rfl
        rw [List.length_cons] at hlen
        exact .inr ⟨2, s, _, rfl, rfl, .inr ⟨rfl, sig, ⟨hform, by omega⟩, rfl⟩⟩

/-- What `decodeAuthSig` takes: a key, a signature behind it, and any bytes at the end. The limit is
the size of the buffer, so it is never reached. -/
theorem decodeAuthSig_eq_ok {bytes : List UInt8} (hlen : bytes.length = authSigMsgSize)
    {msg : AuthSigMessage} :
    decodeAuthSig bytes = .ok msg ↔ ∃ s t rest, bytes = s ++ t ++ rest ∧ PubKeyForm s msg.key ∧
      SignatureForm t msg.sig := by
  have hmax : (authSigMsgSize : Int) ≤ Wire.maxSliceLength := by decide
  have hscans := scans_limited (scans_bind scans_readPubKey fun key =>
    scans_map (scans_readSignature (by decide) hmax) fun sig => AuthSigMessage.mk key sig)
    (show authSigMsgSize ≠ 0 by decide) RootErr.binaryReadOverflow.err
  have hdecode : decodeAuthSig bytes = .ok msg ↔ ∃ rest m,
      (Wire.readBinary authSigMsgSize (AuthSigMessage.read authSigMsgSize)).run ⟨bytes, 0, none⟩ =
        (msg, ⟨rest, m, none⟩) := by
    rw [decodeAuthSig]
    obtain ⟨⟨msg', input, n, err⟩, hrun⟩ :
      ∃ x, (Wire.readBinary authSigMsgSize (AuthSigMessage.read authSigMsgSize)).run
        ⟨bytes, 0, none⟩ = x := ⟨_, rfl⟩
    rw [hrun]
    cases err with
    | none =>
      constructor
      · intro h
        cases h
        exact ⟨input, n, rfl⟩
      · rintro ⟨rest, m, h⟩
        cases h
        rfl
    | some e =>
      constructor
      · intro h
        cases h
      · rintro ⟨rest, m, h⟩
        cases h
  rw [hdecode]
  constructor
  · rintro ⟨rest, m, hrun⟩
    obtain ⟨_, rfl, -, ⟨s, t, key, rfl, hkey, sig, ⟨hsig, -⟩, rfl⟩, -⟩ :=
      (hscans.reads _ _ _ _ _).mp hrun
    exact ⟨s, t, rest, rfl, hkey, hsig⟩
  · rintro ⟨s, t, rest, rfl, hkey, hsig⟩
    have hle : 0 + s.length + t.length ≤ authSigMsgSize := by
      rw [← hlen, List.length_append, List.length_append]
      omega
    refine ⟨rest, _, (hscans.reads _ _ _ _ _).mpr
      ⟨s ++ t, rfl, rfl, ⟨s, t, msg.key, rfl, hkey, msg.sig, ⟨hsig, fun _ _ => hle⟩, rfl⟩, ?_⟩⟩
    rwa [List.length_append, ← Nat.add_assoc]

/-! ### The outcome of a call -/

section
variable (crypto : Crypto) {r : HandshakeRun} {remEphPub : FixedBytes 32}
variable {bytes : FixedBytes authSigMsgSize} {sc : SecretConnection} {key : PubKey}

/-- The message of this end is the only one with an Ed25519 key and an Ed25519 signature. -/
theorem decodeAuthSig_ed25519 {sig : FixedBytes 64} :
    decodeAuthSig bytes.1 = .ok ⟨some (.ed25519 key), some (.ed25519 sig)⟩ ↔
      bytes.1 = encodeAuthSig key sig := by
  rw [decodeAuthSig_eq_ok bytes.2]
  constructor
  · rintro ⟨s, t, rest, hbytes, hkey, hsig⟩
    cases hkey
    cases hsig
    have hrest : rest = [] := by
      have hlen := congrArg List.length hbytes
      simp only [bytes.2, List.length_append, List.length_cons, key.2, sig.2] at hlen
      rw [← List.length_eq_zero_iff]
      have : authSigMsgSize = 98 := rfl
      omega
    rw [hbytes, hrest, List.append_nil]
    rfl
  · intro hbytes
    refine ⟨_, _, [], ?_, .ed25519 key, .ed25519 sig⟩
    rw [hbytes, List.append_nil]
    rfl

/-- A nil key and a signature behind it. -/
theorem decodeAuthSig_nil :
    (∃ sig, decodeAuthSig bytes.1 = .ok ⟨none, sig⟩) ↔
      ∃ t rest sig, bytes.1 = 0x00 :: t ++ rest ∧ SignatureForm t sig := by
  simp only [decodeAuthSig_eq_ok bytes.2]
  constructor
  · rintro ⟨sig, s, t, rest, hbytes, hkey, hsig⟩
    cases hkey
    exact ⟨t, rest, sig, hbytes, hsig⟩
  · rintro ⟨t, rest, sig, hbytes, hsig⟩
    exact ⟨sig, [0x00], t, rest, hbytes, .nil, hsig⟩

theorem decodeAuthSig_secp256k1 {key : FixedBytes 33} {sig : List UInt8} :
    decodeAuthSig bytes.1 = .ok ⟨some (.secp256k1 key), some (.secp256k1 sig)⟩ ↔
      ∃ s rest, bytes.1 = 0x02 :: key.1 ++ 0x02 :: s ++ rest ∧ Wire.SliceForm s sig := by
  rw [decodeAuthSig_eq_ok bytes.2]
  constructor
  · rintro ⟨s, t, rest, hbytes, hkey, hsig⟩
    cases hkey
    cases hsig with
    | secp256k1 s _ hform => exact ⟨s, rest, hbytes, hform⟩
  · rintro ⟨s, rest, hbytes, hform⟩
    exact ⟨_, _, rest, hbytes, .secp256k1 key, .secp256k1 s sig hform⟩

/-- Which messages are accepted. -/
theorem checkAuthSig_eq_ok {challenge key : FixedBytes 32} {sc' : SecretConnection}
    {msg : AuthSigMessage} :
    checkAuthSig crypto challenge sc msg = .ok (.ok (sc', key)) ↔
      sc' = sc ∧ ∃ sig, msg = ⟨some (.ed25519 key), some (.ed25519 sig)⟩ ∧
        crypto.verifyEd25519 key challenge.1 sig = true := by
  constructor
  · intro h
    obtain ⟨_ | key' | key', sig'⟩ := msg
    · cases h
    · rcases sig' with _ | sig' | sig'
      · cases h
      · cases hverify : crypto.verifyEd25519 key' challenge.1 sig' with
        | false =>
          simp only [checkAuthSig, AnyPubKey.verifyBytes, hverify, if_true] at h
          cases h
        | true =>
          simp only [checkAuthSig, AnyPubKey.verifyBytes, hverify] at h
          cases h
          exact ⟨rfl, sig', rfl, hverify⟩
      · cases h
    · simp only [checkAuthSig] at h
      split at h <;> cases h
  · rintro ⟨rfl, sig, rfl, hverify⟩
    simp only [checkAuthSig, AnyPubKey.verifyBytes, hverify]
    rfl

/-- Which messages make the check panic. -/
theorem checkAuthSig_eq_error {challenge : FixedBytes 32} {msg : AuthSigMessage} {p : Panic} :
    checkAuthSig crypto challenge sc msg = .error p ↔
      (p = .nilDereference ∧ msg.key = none) ∨
      (p = .typeAssertion ∧ ∃ key sig, msg = ⟨some (.secp256k1 key), some (.secp256k1 sig)⟩ ∧
        crypto.verifySecp256k1 key challenge.1 sig = true) := by
  constructor
  · intro h
    obtain ⟨_ | key' | key', sig'⟩ := msg
    · cases h
      exact .inl ⟨rfl, rfl⟩
    · simp only [checkAuthSig] at h
      split at h <;> cases h
    · rcases sig' with _ | sig' | sig'
      · cases h
      · cases h
      · cases hverify : crypto.verifySecp256k1 key' challenge.1 sig' with
        | false =>
          simp only [checkAuthSig, AnyPubKey.verifyBytes, hverify, if_true] at h
          cases h
        | true =>
          simp only [checkAuthSig, AnyPubKey.verifyBytes, hverify] at h
          cases h
          exact .inr ⟨rfl, key', sig', rfl, hverify⟩
  · rintro (⟨rfl, hkey⟩ | ⟨rfl, key, sig, rfl, hverify⟩)
    · rw [checkAuthSig, hkey]
    · simp only [checkAuthSig, AnyPubKey.verifyBytes, hverify]
      rfl

/-- A call to which both messages arrive. -/
theorem makeSecretConnection_of_arrived (heph : r.remEphPub = .ok remEphPub)
    (hauth : r.authSig = .ok bytes) :
    makeSecretConnection crypto r =
      match decodeAuthSig bytes.1 with
      | .error e => .ok (.error e)
      | .ok msg => checkAuthSig crypto (r.challenge crypto remEphPub)
          (r.connection crypto remEphPub) msg := by
  rw [makeSecretConnection, heph, hauth]
  rfl

/-- `MakeSecretConnection` for every authentication message. It accepts exactly the encoding of a
key with a signature of the challenge that the key verifies. It panics exactly when the message has
a nil key and any signature, or a key of the other scheme with a signature that verifies. -/
theorem makeSecretConnection_outcome (heph : r.remEphPub = .ok remEphPub)
    (hauth : r.authSig = .ok bytes) :
    (∀ sc key, makeSecretConnection crypto r = .ok (.ok (sc, key)) ↔
      sc = r.connection crypto remEphPub ∧ ∃ sig, bytes.1 = encodeAuthSig key sig ∧
        crypto.verifyEd25519 key (r.challenge crypto remEphPub).1 sig = true) ∧
    (∀ p, makeSecretConnection crypto r = .error p ↔
      (p = .nilDereference ∧ ∃ t rest sig, bytes.1 = 0x00 :: t ++ rest ∧ SignatureForm t sig) ∨
      (p = .typeAssertion ∧ ∃ (key : FixedBytes 33) (sig : List UInt8),
        (∃ s rest, bytes.1 = 0x02 :: key.1 ++ 0x02 :: s ++ rest ∧ Wire.SliceForm s sig) ∧
        crypto.verifySecp256k1 key (r.challenge crypto remEphPub).1 sig = true)) := by
  rw [makeSecretConnection_of_arrived crypto heph hauth]
  refine ⟨fun sc key => ?_, fun p => ?_⟩
  · simp only [← decodeAuthSig_ed25519]
    cases decodeAuthSig bytes.1 with
    | error e => simp
    | ok msg => simp only [checkAuthSig_eq_ok, Except.ok.injEq]
  · simp only [← decodeAuthSig_nil, ← decodeAuthSig_secp256k1]
    cases decodeAuthSig bytes.1 with
    | error e => simp
    | ok msg =>
      obtain ⟨key, sig⟩ := msg
      simp [checkAuthSig_eq_error]

/-! ### Matching calls -/

/-- The bytes that the challenge of a call is the hash of. -/
def transcript (r : HandshakeRun) (remEphPub : FixedBytes 32) : List UInt8 :=
  (sort32 ⟨0, r.locEphPub⟩ ⟨1, remEphPub⟩).1.key.1 ++
    (sort32 ⟨0, r.locEphPub⟩ ⟨1, remEphPub⟩).2.key.1

/-- The assumptions about the cryptography, for the calls of the nodes that take part: every call
has an ephemeral key of its own, a key verifies only what its node has signed, no two challenges
are the same by accident, and the two ends of a key agreement agree. -/
structure Ideal (runs : List HandshakeRun) : Prop where
  fresh : (runs.map HandshakeRun.locEphPub).Nodup
  unforgeable : ∀ r ∈ runs, ∀ msg sig, crypto.verifyEd25519 r.locPubKey msg sig = true →
    ∃ r' ∈ runs, r'.locPubKey = r.locPubKey ∧
      ∃ remEphPub, r'.remEphPub = .ok remEphPub ∧ msg = (r'.challenge crypto remEphPub).1
  collisionFree : ∀ r ∈ runs, ∀ r' ∈ runs, ∀ eph eph', r.remEphPub = .ok eph →
    r'.remEphPub = .ok eph' → r.challenge crypto eph = r'.challenge crypto eph' →
      transcript r eph = transcript r' eph'
  agree : ∀ r ∈ runs, ∀ r' ∈ runs,
    crypto.precompute r.locEphPub r'.locEphPriv = crypto.precompute r'.locEphPub r.locEphPriv

theorem sort32_cases (a b : EphKey) : sort32 a b = (a, b) ∨ sort32 a b = (b, a) := by
  unfold sort32
  split
  · exact .inl rfl
  · exact .inr rfl

/-- The two keys of a transcript, up to their order. -/
theorem keys_of_transcript {r' : HandshakeRun} {eph eph' : FixedBytes 32}
    (h : transcript r eph = transcript r' eph') :
    (r'.locEphPub = r.locEphPub ∧ eph' = eph) ∨ (r'.locEphPub = eph ∧ eph' = r.locEphPub) := by
  have hlen : ∀ k : EphKey, k.key.1.length = 32 := fun k => k.key.2
  obtain ⟨hlo, hhi⟩ := List.append_inj h (by rw [hlen, hlen])
  have hlo := Subtype.ext hlo
  have hhi := Subtype.ext hhi
  rcases sort32_cases ⟨0, r.locEphPub⟩ ⟨1, eph⟩ with hr | hr
  · rcases sort32_cases ⟨0, r'.locEphPub⟩ ⟨1, eph'⟩ with hr' | hr'
    · rw [hr, hr'] at hlo hhi
      exact .inl ⟨hlo.symm, hhi.symm⟩
    · rw [hr, hr'] at hlo hhi
      exact .inr ⟨hhi.symm, hlo.symm⟩
  · rcases sort32_cases ⟨0, r'.locEphPub⟩ ⟨1, eph'⟩ with hr' | hr'
    · rw [hr, hr'] at hlo hhi
      exact .inr ⟨hlo.symm, hhi.symm⟩
    · rw [hr, hr'] at hlo hhi
      exact .inl ⟨hhi.symm, hlo.symm⟩

variable {runs : List HandshakeRun}

/-- Calls are told apart by their ephemeral keys. -/
theorem Ideal.eq_of_locEphPub (h : Ideal crypto runs) {r r' : HandshakeRun} (hr : r ∈ runs)
    (hr' : r' ∈ runs) (heph : r'.locEphPub = r.locEphPub) : r' = r :=
  List.inj_on_of_nodup_map h.fresh hr' hr heph

/-- An accepted call got both messages. -/
theorem arrived_of_eq_ok (h : makeSecretConnection crypto r = .ok (.ok (sc, key))) :
    ∃ eph bytes, r.remEphPub = .ok eph ∧ r.authSig = .ok bytes := by
  unfold makeSecretConnection at h
  cases heph : r.remEphPub with
  | error e =>
    rw [heph] at h
    cases h
  | ok eph =>
    cases hauth : r.authSig with
    | error e =>
      rw [heph, hauth] at h
      cases h
    | ok bytes => exact ⟨eph, bytes, rfl, rfl⟩

/-- A call of the node with the accepted key has signed the challenge, so it has the same two
ephemeral keys. -/
theorem Ideal.exists_signer (h : Ideal crypto runs) (hr : r ∈ runs)
    (hres : makeSecretConnection crypto r = .ok (.ok (sc, key)))
    (hhonest : ∃ r₀ ∈ runs, r₀.locPubKey = key) :
    ∃ r' ∈ runs, r'.locPubKey = key ∧ ∃ eph eph', r.remEphPub = .ok eph ∧
      r'.remEphPub = .ok eph' ∧ sc = r.connection crypto eph ∧
      ((r'.locEphPub = r.locEphPub ∧ eph' = eph) ∨
        (r'.locEphPub = eph ∧ eph' = r.locEphPub)) := by
  obtain ⟨eph, bytes, heph, hauth⟩ := arrived_of_eq_ok crypto hres
  rw [makeSecretConnection_of_arrived crypto heph hauth] at hres
  cases hmsg : decodeAuthSig bytes.1 with
  | error e =>
    rw [hmsg] at hres
    cases hres
  | ok msg =>
    rw [hmsg] at hres
    obtain ⟨hsc, sig, -, hverify⟩ := (checkAuthSig_eq_ok crypto).mp hres
    obtain ⟨r₀, hr₀, rfl⟩ := hhonest
    obtain ⟨r', hr', hkey, eph', heph', hchallenge⟩ := h.unforgeable r₀ hr₀ _ sig hverify
    have htranscript := h.collisionFree r hr r' hr' eph eph' heph heph' (Subtype.ext hchallenge)
    exact ⟨r', hr', hkey, eph, eph', heph, heph', hsc, keys_of_transcript htranscript⟩

/-- Whatever an adversary puts on the network: when a call accepts the key of another node that
takes part, exactly one call is the other end. It is a call of that node, each of the two has the
other's ephemeral key, and their connections have the same secret and each other's nonces. -/
theorem accepted_key_is_other_end (h : Ideal crypto runs) (hr : r ∈ runs) {sc : SecretConnection}
    {key : PubKey} (hres : makeSecretConnection crypto r = .ok (.ok (sc, key)))
    (hhonest : ∃ r₀ ∈ runs, r₀.locPubKey = key) (hother : key ≠ r.locPubKey) :
    ∃ r' ∈ runs, r'.locPubKey = key ∧
      (r.remEphPub = .ok r'.locEphPub ∧ r'.remEphPub = .ok r.locEphPub) ∧
      ((r'.connection crypto r.locEphPub).shrSecret = sc.shrSecret ∧
        (r'.connection crypto r.locEphPub).sendNonce = sc.recvNonce ∧
        (r'.connection crypto r.locEphPub).recvNonce = sc.sendNonce) ∧
      ∀ r'' ∈ runs, r.remEphPub = .ok r''.locEphPub → r'' = r' := by
  obtain ⟨r', hr', hkey, eph, eph', heph, heph', rfl, hkeys⟩ :=
    h.exists_signer crypto hr hres hhonest
  -- A call with the same key of its own would be the same call, of the same node.
  have hne : r'.locEphPub ≠ r.locEphPub := by
    intro hsame
    obtain rfl := h.eq_of_locEphPub crypto hr hr' hsame
    exact hother hkey.symm
  rcases hkeys with ⟨hsame, -⟩ | ⟨rfl, rfl⟩
  · exact absurd hsame hne
  · obtain ⟨hsend, hrecv, -⟩ := makeConnection_mirror crypto.ripemd160 ⟨0, r.locEphPub⟩
      ⟨0, r'.locEphPub⟩ ⟨1, r.locEphPub⟩ ⟨1, r'.locEphPub⟩
      (crypto.precompute r'.locEphPub r.locEphPriv) hne.symm rfl rfl Nat.zero_ne_one
      Nat.zero_ne_one
    have hsecret := h.agree r hr r' hr'
    refine ⟨r', hr', hkey, ⟨heph, heph'⟩, ⟨hsecret, ?_, ?_⟩, fun r'' hr'' heph'' => ?_⟩
    · rw [HandshakeRun.connection, hsecret]
      exact hrecv.symm
    · rw [HandshakeRun.connection, hsecret]
      exact hsend.symm
    · rw [heph] at heph''
      exact h.eq_of_locEphPub crypto hr' hr'' (Except.ok.inj heph'').symm

end

/-! ### Concrete calls -/

/-- Every message is hashed to the same challenge, and every key verifies exactly the challenge. -/
def plainCrypto : Crypto where
  hash32 _ := plainKey 7
  ripemd160 := plainDigest
  precompute _ _ := plainKey 9
  verifyEd25519 _ msg _ := decide (msg = (plainKey 7).1)
  verifySecp256k1 _ _ _ := false

/-- The message of a node with 64 zeros as its signature. -/
def plainAuthSig (key : PubKey) : FixedBytes authSigMsgSize :=
  ⟨encodeAuthSig key (.replicate 64 0), by
    rw [encodeAuthSig, List.cons_append, List.length_cons, List.length_append, key.2]
    rfl⟩

/-- A call of the node `node` with the ephemeral key `eph`, to which the other two arrive. -/
def plainRun (node eph remEph : UInt8) (authSig : FixedBytes authSigMsgSize) : HandshakeRun :=
  ⟨plainKey node, plainKey eph, plainKey eph, .ok (plainKey remEph), .ok authSig⟩

/-- A message of zeros, which has a nil key. -/
theorem nil_key_panics :
    makeSecretConnection plainCrypto (plainRun 3 0 1 (.replicate _ 0)) =
      .error .nilDereference := by
  refine ((makeSecretConnection_outcome plainCrypto (r := plainRun 3 0 1 (.replicate _ 0)) rfl
    rfl).2 _).mpr (.inl ⟨rfl, [0x00], List.replicate 96 0, none, ?_, .nil⟩)
  rfl

/-- The calls of two nodes with each other. -/
def plainRuns : List HandshakeRun :=
  [plainRun 3 0 1 (plainAuthSig (plainKey 4)), plainRun 4 1 0 (plainAuthSig (plainKey 3))]

theorem transcript_plainRuns {r : HandshakeRun} (hr : r ∈ plainRuns) {eph : FixedBytes 32}
    (heph : r.remEphPub = .ok eph) : transcript r eph = (plainKey 0).1 ++ (plainKey 1).1 := by
  rcases List.mem_cons.mp hr with rfl | hr
  · cases heph
    rfl
  · obtain rfl := List.mem_singleton.mp hr
    cases heph
    rfl

theorem plainRuns_ideal : Ideal plainCrypto plainRuns where
  fresh := by decide
  unforgeable r hr msg sig hverify := by
    have hmsg : msg = (plainKey 7).1 := of_decide_eq_true hverify
    refine ⟨r, hr, rfl, ?_⟩
    rcases List.mem_cons.mp hr with rfl | hr
    · exact ⟨plainKey 1, rfl, hmsg⟩
    · rw [List.mem_singleton.mp hr]
      exact ⟨plainKey 0, rfl, hmsg⟩
  collisionFree r hr r' hr' eph eph' heph heph' _ :=
    (transcript_plainRuns hr heph).trans (transcript_plainRuns hr' heph').symm
  agree _ _ _ _ := rfl

/-- The first call accepts the second node, and the second call is its other end. -/
theorem plainRuns_match :
    let r := plainRun 3 0 1 (plainAuthSig (plainKey 4))
    ∃ sc, makeSecretConnection plainCrypto r = .ok (.ok (sc, plainKey 4)) ∧
      ∃ r' ∈ plainRuns, r'.locPubKey = plainKey 4 ∧ r'.remEphPub = .ok r.locEphPub := by
  intro r
  have hres : makeSecretConnection plainCrypto r =
      .ok (.ok (r.connection plainCrypto (plainKey 1), plainKey 4)) := by
    rw [makeSecretConnection_of_arrived plainCrypto (r := r) rfl rfl,
      decodeAuthSig_ed25519.mpr (rfl : (plainAuthSig (plainKey 4)).1 = _)]
    exact (checkAuthSig_eq_ok plainCrypto).mpr ⟨rfl, _, rfl, rfl⟩
  obtain ⟨r', hr', hkey, ⟨-, heph⟩, -⟩ := accepted_key_is_other_end plainCrypto plainRuns_ideal
    (List.mem_cons_self : r ∈ plainRuns) hres ⟨_, List.mem_cons_of_mem _ List.mem_cons_self, rfl⟩
    (by decide)
  exact ⟨_, hres, r', hr', hkey, heph⟩

end BtmStats.Proofs.P2p
