import Pizzini.Crypto.DeviceStore

/-!
# The buffer of `encryptSealed`

`Session.encryptSealed` (PizziniCryptoCore.swift:370–410) calls
`pizzini_store_seal_send` with a buffer for the plaintext and 1024 bytes more.
The core pads to a bucket first, and reports a buffer that is too small only
after it has sealed; the second call seals again. So a message takes one step
of the sending chain when its envelope fits the first buffer, and two when it
does not (`envelopes_consecutive_iff`). Messages of 1021 to 3072 bytes, and of
three more ranges, never fit (`not_fits`).

The core refuses null pointers before anything else. The base address that Swift
passes for an empty plaintext or peer may be null, and such a call fails and
leaves the store alone; the check is not modelled.
-/

namespace Pizzini.Crypto

open Wire Stateful

/-! ## The C interface (lib.rs:32–40, 257–279, 459–498) -/

def PIZZINI_OK : Int := 0
def PIZZINI_ERR_INVALID_ARG : Int := -1
def PIZZINI_ERR_BUFFER_TOO_SMALL : Int := -2
def PIZZINI_ERR_INTERNAL : Int := -3
def PIZZINI_MESSAGE_ID_LEN : Nat := 16

/-- What a call leaves behind: its code, the buffer, and the length it reports. -/
structure FfiOut where
  rc : Int
  buffer : Bytes
  len : Nat
  deriving DecidableEq, Repr

/-- `copy_or_size_out`, into a buffer of zeros. -/
def copyOrSizeOut (bytes : Bytes) (cap : Nat) : FfiOut :=
  if bytes.length > cap then ⟨PIZZINI_ERR_BUFFER_TOO_SMALL, List.replicate cap 0, bytes.length⟩
  else ⟨PIZZINI_OK, bytes ++ List.replicate (cap - bytes.length) 0, bytes.length⟩

/-- The time and the random draws of one call. -/
structure Draws (L : Libsignal) where
  now : UInt64
  rng : L.Rng

variable {L : Libsignal}

/-- `pizzini_store_seal_send`. -/
def pizziniStoreSealSend (peer messageId plaintext : Bytes) (cap : Nat) (draws : Draws L)
    (s : DeviceStore L) : FfiOut × DeviceStore L :=
  if h : messageId.length = PIZZINI_MESSAGE_ID_LEN then
    match (DeviceStore.sealSend peer ⟨messageId, h⟩ plaintext draws.now draws.rng).run s with
    | (.ok bytes, s') => (copyOrSizeOut bytes cap, s')
    | (.error _, s') => (⟨PIZZINI_ERR_INTERNAL, List.replicate cap 0, 0⟩, s')
  else (⟨PIZZINI_ERR_INVALID_ARG, List.replicate cap 0, 0⟩, s)

/-! ## `Session` (PizziniCryptoCore.swift:370–410, 634–642) -/

inductive CryptoCoreError where
  | invalidArgument
  | bufferTooSmall (required : Nat)
  | internalError
  | unknown (code : Int)
  deriving DecidableEq, Repr

/-- `mapRC`. -/
def mapRC (rc : Int) : Except CryptoCoreError Unit :=
  if rc = PIZZINI_OK then .ok ()
  else if rc = PIZZINI_ERR_INVALID_ARG then .error .invalidArgument
  else if rc = PIZZINI_ERR_BUFFER_TOO_SMALL then .error (.bufferTooSmall 0)
  else if rc = PIZZINI_ERR_INTERNAL then .error .internalError
  else .error (.unknown rc)

/-- The size of the first buffer. -/
def sealedGuess (count : Nat) : Nat := max (count + 1024) 4096

/-- One call of `encryptSealed`, with the draws of its two core calls. -/
structure SealCall (L : Libsignal) where
  messageId : Bytes
  plaintext : Bytes
  first : Draws L
  second : Draws L

/-- `Session.encryptSealed`. -/
def encryptSealed (peer : Bytes) (call : SealCall L) (s : DeviceStore L) :
    Except CryptoCoreError Bytes × DeviceStore L :=
  if call.messageId.length ≠ 16 then (.error .invalidArgument, s)
  else
    let out := pizziniStoreSealSend peer call.messageId call.plaintext
      (sealedGuess call.plaintext.length) call.first s
    let out := if out.1.rc = PIZZINI_ERR_BUFFER_TOO_SMALL then
        pizziniStoreSealSend peer call.messageId call.plaintext out.1.len call.second out.2
      else out
    match mapRC out.1.rc with
    | .ok _ => (.ok (out.1.buffer.take out.1.len), out.2)
    | .error e => (.error e, out.2)

/-- Calls for one peer, one after the other, all of which succeed. -/
def encryptAll (peer : Bytes) : List (SealCall L) → DeviceStore L →
    Option (List Bytes × DeviceStore L)
  | [], s => some ([], s)
  | call :: calls, s =>
    match encryptSealed peer call s with
    | (.ok envelope, s') => (encryptAll peer calls s').map fun r => (envelope :: r.1, r.2)
    | (.error _, _) => none

/-! ## The ratchet -/

/-- What is relied on: `message_encrypt` uses the counter of the chain and
advances it once, the envelope carries the counter of what is sealed in it, and
its length, which the session and the padded length fix (keys, signatures and
certificate have fixed widths), is more than the padded length. -/
structure Libsignal.Ratchets (L : Libsignal) (chain : L.SessionRecord → Nat)
    (counter : CiphertextMessage → Nat) (envelopeCounter : Bytes → Nat)
    (envelopeLength : L.SessionRecord → Nat → Nat) : Prop where
  advances : ∀ {padded remote loc session pinned now rng result},
    L.messageEncrypt padded remote loc session pinned now rng = .ok result →
      counter result.1 = chain session ∧ chain result.2.1 = chain session + 1
  seals : ∀ {padded remote loc session pinned now rng result cert usmc address pair key rng'}
      {header envelope : Bytes}, header.length = 17 →
    L.messageEncrypt padded remote loc session pinned now rng = .ok result →
      L.newContent result.1.messageType cert (header ++ result.1.serialized) = .ok usmc →
        L.sealedSenderEncrypt address usmc pair key rng' = .ok envelope →
          envelopeCounter envelope = counter result.1 ∧
            envelope.length = envelopeLength session padded.length
  longer : ∀ session n, n < envelopeLength session n

/-- The counter of the sending chain to a peer. -/
def sendingChain (chain : L.SessionRecord → Nat) (s : DeviceStore L) (peer : Bytes) : Option Nat :=
  (s.sessions.lookup (addressFor peer)).map chain

/-- How many message keys a receiver skips that expects the given counter next. -/
def skippedKeys (expected : Nat) : List Nat → Nat
  | [] => 0
  | counter :: counters => (counter - expected) + skippedKeys (counter + 1) counters

/-- The envelope of a plaintext of `n` bytes fits the first buffer. -/
def Fits (envelopeLength : L.SessionRecord → Nat → Nat) (s : DeviceStore L) (peer : Bytes)
    (n : Nat) : Prop :=
  ∀ session ∈ s.sessions.lookup (addressFor peer), ∀ bucket ∈ bucketFor n,
    envelopeLength session bucket ≤ sealedGuess n

/-- Every call fits in the store that the calls before it leave. -/
def AllFit (envelopeLength : L.SessionRecord → Nat → Nat) (peer : Bytes) :
    DeviceStore L → List (SealCall L) → Prop
  | _, [] => True
  | s, call :: calls => Fits envelopeLength s peer call.plaintext.length ∧
      AllFit envelopeLength peer (encryptSealed peer call s).2 calls

/-- The lengths for which the buckets exceed the guess, so that nothing fits. -/
theorem guess_le_bucket_iff {n bucket : Nat} (h : bucketFor n = some bucket) :
    sealedGuess n ≤ bucket ↔ (1021 ≤ n ∧ n ≤ 3072) ∨ (4093 ≤ n ∧ n ≤ 15360) ∨
      (16381 ≤ n ∧ n ≤ 64512) ∨ (65533 ≤ n ∧ n ≤ 261120) := by
  rw [bucketFor, PADDING_BUCKETS, PADDING_LEN_PREFIX] at h
  rw [sealedGuess]
  simp only [List.find?_cons, List.find?_nil] at h
  repeat' split at h
  all_goals
    simp only [decide_eq_true_eq, decide_eq_false_iff_not, Option.some.injEq, reduceCtorEq] at *
  all_goals omega

/-! ## One seal -/

/-- Minting leaves the sessions and the identity alone. -/
theorem ensureSenderCertificate_keeps (s : DeviceStore L) (now : UInt64) (rng : L.Rng) :
    Keeps (fun t => t.sessions = s.sessions ∧ t.identityKeyPair = s.identityKeyPair)
      (DeviceStore.ensureSenderCertificate now rng) := by
  rw [DeviceStore.ensureSenderCertificate]
  refine Keeps.ite (fun _ => Keeps.throw _) fun _ => Keeps.get_bind fun t ht => ?_
  refine Keeps.lift_bind (I := fun t => t.sessions = s.sessions ∧
    t.identityKeyPair = s.identityKeyPair) (fun mint _ => ?_) t ht
  refine Keeps.ite (fun _ => Keeps.lift_bind fun cert _ => ?_) fun _ => ?_
  · exact Keeps.bind (Keeps.modify fun _ h => h) fun _ => Keeps.pure _
  · split
    · exact Keeps.pure _
    · exact Keeps.throw _

/-- A seal that succeeds encrypted in the session of the peer, and stored the
session that came out. -/
theorem sealSend_ok {peer : Bytes} {messageId : FixedBytes 16} {plaintext : Bytes} {now : UInt64}
    {rng : L.Rng} {s s' : DeviceStore L} {envelope : Bytes}
    (h : (DeviceStore.sealSend peer messageId plaintext now rng).run s = (.ok envelope, s')) :
    ∃ session padded pinned inner, s.sessions.lookup (addressFor peer) = some session ∧
      padPlaintext plaintext = .ok padded ∧
      L.messageEncrypt padded (addressFor peer) s.localAddress session pinned now rng = .ok inner ∧
      s'.sessions.lookup (addressFor peer) = some inner.2.1 ∧
      ∃ cert header usmc pair key, header.length = 17 ∧
        L.newContent inner.1.messageType cert (header ++ inner.1.serialized) = .ok usmc ∧
        L.sealedSenderEncrypt (addressFor peer) usmc pair key rng = .ok envelope := by
  rw [DeviceStore.sealSend] at h
  obtain ⟨cert, minted, hmint, hrest⟩ := bind_ok h
  have hkept := ensureSenderCertificate_keeps s now rng s ⟨rfl, rfl⟩
  rw [hmint] at hkept
  have hsessions : minted.sessions = s.sessions := hkept.1
  have hlocal : minted.localAddress = s.localAddress := by
    rw [DeviceStore.localAddress, DeviceStore.identityPublicBytes, hkept.2]
    rfl
  obtain ⟨padded, t, hpadded, hencrypt⟩ := bind_ok hrest
  obtain ⟨hpad, ht⟩ := lift_ok hpadded
  subst ht
  rw [bind_of_ok (run_get t)] at hencrypt
  cases hsession : t.sessions.lookup (addressFor peer) with
  | none =>
    simp only [hsession] at hencrypt
    cases hencrypt
  | some session =>
    simp only [hsession] at hencrypt
    obtain ⟨inner, t', hinner, hstore⟩ := bind_ok hencrypt
    obtain ⟨hinner, ht'⟩ := lift_ok hinner
    obtain ⟨_, stored, hstored, hseal⟩ := bind_ok hstore
    obtain ⟨usmc, t'', husmc, hsealed⟩ := bind_ok hseal
    obtain ⟨husmc, ht''⟩ := lift_ok husmc
    rw [bind_of_ok (run_get t'')] at hsealed
    obtain ⟨hsealed, hs'⟩ := lift_ok hsealed
    rw [hlocal] at hinner
    rw [hsessions] at hsession
    have hlookup : s'.sessions.lookup (addressFor peer) = some inner.2.1 := by
      rw [hs', ht'', ← (Prod.mk.inj hstored).2]
      exact AList.lookup_insert _
    refine ⟨session, padded, _, inner, hsession, hpad, hinner, hlookup, cert, _, usmc, _, _, ?_,
      husmc, hsealed⟩
    rw [List.length_append, messageId.2]
    rfl

section Ratchet

variable {chain : L.SessionRecord → Nat} {counter : CiphertextMessage → Nat}
  {envelopeCounter : Bytes → Nat} {envelopeLength : L.SessionRecord → Nat → Nat}
  (hratchet : L.Ratchets chain counter envelopeCounter envelopeLength)
include hratchet

/-- Every seal takes one step. -/
theorem sealSend_advances {peer : Bytes} {messageId : FixedBytes 16} {plaintext : Bytes}
    {now : UInt64} {rng : L.Rng} {s s' : DeviceStore L} {envelope : Bytes} {c : Nat}
    (h : (DeviceStore.sealSend peer messageId plaintext now rng).run s = (.ok envelope, s'))
    (hc : sendingChain chain s peer = some c) :
    sendingChain chain s' peer = some (c + 1) ∧ envelopeCounter envelope = c ∧
      ∃ session ∈ s.sessions.lookup (addressFor peer), ∃ bucket ∈ bucketFor plaintext.length,
        envelope.length = envelopeLength session bucket := by
  obtain ⟨session, padded, pinned, inner, hsession, hpad, hinner, hstored, cert, header, usmc, pair,
    key, hheader, husmc, hsealed⟩ := sealSend_ok h
  obtain ⟨hcounter, hstep⟩ := hratchet.advances hinner
  rw [sendingChain, hsession, Option.map_some] at hc
  have hchain : chain session = c := Option.some.inj hc
  obtain ⟨hcarries, hlength⟩ := hratchet.seals hheader hinner husmc hsealed
  refine ⟨?_, ?_, session, hsession, padded.length, length_padPlaintext hpad, hlength⟩
  · rw [sendingChain, hstored, Option.map_some, hstep, hchain]
  · rw [hcarries, hcounter, hchain]

omit hratchet in
/-- A core call that seals hands out the envelope, or reports its length. -/
theorem pizziniStoreSealSend_eq {peer messageId plaintext : Bytes} {cap : Nat} {draws : Draws L}
    {s : DeviceStore L} (hid : messageId.length = 16) :
    pizziniStoreSealSend peer messageId plaintext cap draws s =
      match (DeviceStore.sealSend peer ⟨messageId, hid⟩ plaintext draws.now draws.rng).run s with
      | (.ok bytes, s') => (copyOrSizeOut bytes cap, s')
      | (.error _, s') => (⟨PIZZINI_ERR_INTERNAL, List.replicate cap 0, 0⟩, s') := by
  rw [pizziniStoreSealSend]
  exact dif_pos hid

omit hratchet in
theorem copyOrSizeOut_fits {bytes : Bytes} {cap : Nat} (h : ¬ bytes.length > cap) :
    (copyOrSizeOut bytes cap).rc = PIZZINI_OK ∧
      (copyOrSizeOut bytes cap).buffer.take (copyOrSizeOut bytes cap).len = bytes := by
  rw [copyOrSizeOut, if_neg h]
  exact ⟨rfl, List.take_left⟩

/-- A call that succeeds takes one step if its envelope fits the first buffer,
and two if it does not. -/
theorem encryptSealed_advances {peer : Bytes} {call : SealCall L} {s s' : DeviceStore L}
    {envelope : Bytes} {c : Nat} (h : encryptSealed peer call s = (.ok envelope, s'))
    (hc : sendingChain chain s peer = some c) :
    (Fits envelopeLength s peer call.plaintext.length ∧ sendingChain chain s' peer = some (c + 1) ∧
      envelopeCounter envelope = c) ∨
    (¬ Fits envelopeLength s peer call.plaintext.length ∧
      sendingChain chain s' peer = some (c + 2) ∧ envelopeCounter envelope = c + 1) := by
  rw [encryptSealed] at h
  split at h
  · cases h
  · rename_i hid
    have hid : call.messageId.length = 16 := not_not.mp hid
    simp only [pizziniStoreSealSend_eq hid] at h
    cases hfirst : (DeviceStore.sealSend peer ⟨call.messageId, hid⟩ call.plaintext call.first.now
        call.first.rng).run s with
    | mk result t =>
      cases result with
      | error e =>
        rw [hfirst] at h
        cases h
      | ok first =>
        obtain ⟨hchain, hcounter, session, hsession, bucket, hbucket, hlen⟩ :=
          sealSend_advances hratchet hfirst hc
        rw [hfirst] at h
        dsimp only at h
        by_cases hlong : first.length > sealedGuess call.plaintext.length
        · -- the first seal has advanced the chain, and the second advances it again
          right
          have hmisfit : ¬ Fits envelopeLength s peer call.plaintext.length := by
            intro hfits
            have hle := hfits session hsession bucket hbucket
            omega
          have hout : copyOrSizeOut first (sealedGuess call.plaintext.length) =
              ⟨PIZZINI_ERR_BUFFER_TOO_SMALL,
                List.replicate (sealedGuess call.plaintext.length) 0, first.length⟩ := by
            rw [copyOrSizeOut, if_pos hlong]
          simp only [hout, if_true] at h
          cases hsecond : (DeviceStore.sealSend peer ⟨call.messageId, hid⟩ call.plaintext
              call.second.now call.second.rng).run t with
          | mk result t' =>
            cases result with
            | error e =>
              rw [hsecond] at h
              cases h
            | ok second =>
              obtain ⟨hchain', hcounter', -⟩ := sealSend_advances hratchet hsecond hchain
              rw [hsecond] at h
              dsimp only at h
              by_cases hlong' : second.length > first.length
              · rw [copyOrSizeOut, if_pos hlong'] at h
                cases h
              · obtain ⟨hrc, hbuffer⟩ := copyOrSizeOut_fits hlong'
                rw [hrc, hbuffer] at h
                cases h
                exact ⟨hmisfit, hchain', hcounter'⟩
        · left
          have hfits : Fits envelopeLength s peer call.plaintext.length := by
            intro session' hsession' bucket' hbucket'
            rw [Option.mem_unique hsession' hsession, Option.mem_unique hbucket' hbucket]
            omega
          obtain ⟨hrc, hbuffer⟩ := copyOrSizeOut_fits hlong
          rw [if_neg (by rw [hrc]; decide), hrc, hbuffer] at h
          cases h
          exact ⟨hfits, hchain, hcounter⟩

/-- The counters that successful calls hand out are at least the chain. -/
theorem envelopes_of_encryptAll {peer : Bytes} :
    ∀ {calls : List (SealCall L)} {s s' : DeviceStore L} {envelopes : List Bytes} {c : Nat},
      encryptAll peer calls s = some (envelopes, s') → sendingChain chain s peer = some c →
      (AllFit envelopeLength peer s calls ∧
        envelopes.map envelopeCounter = List.range' c calls.length ∧
        sendingChain chain s' peer = some (c + calls.length) ∧
        skippedKeys c (envelopes.map envelopeCounter) = 0) ∨
      (¬ AllFit envelopeLength peer s calls ∧
        envelopes.map envelopeCounter ≠ List.range' c calls.length)
  | [], s, s', envelopes, c, h, hc => by
    cases h
    exact .inl ⟨trivial, rfl, hc, rfl⟩
  | call :: calls, s, s', envelopes, c, h, hc => by
    rw [encryptAll] at h
    cases hcall : encryptSealed peer call s with
    | mk result t =>
      cases result with
      | error e =>
        rw [hcall] at h
        cases h
      | ok envelope =>
        rw [hcall] at h
        obtain ⟨⟨rest, t'⟩, hrest, heq⟩ := Option.map_eq_some_iff.mp h
        cases heq
        have hstate : (encryptSealed peer call s).2 = t := by rw [hcall]
        rcases encryptSealed_advances hratchet hcall hc with ⟨hfits, hchain, hcounter⟩ |
          ⟨hmisfit, -, hcounter⟩
        · rcases envelopes_of_encryptAll hrest hchain with ⟨hall, hrange, hend, hskip⟩ |
            ⟨hnot, hrange⟩
          · left
            refine ⟨⟨hfits, hstate ▸ hall⟩, ?_, ?_, ?_⟩
            · rw [List.map_cons, hcounter, hrange, List.length_cons, List.range'_succ]
            · rw [hend, List.length_cons]
              congr 1
              omega
            · rw [List.map_cons, hcounter, skippedKeys, hskip, Nat.sub_self]
          · right
            refine ⟨fun hall => hnot (hstate ▸ hall.2), fun heq => hrange ?_⟩
            rw [List.map_cons, List.length_cons, List.range'_succ] at heq
            exact (List.cons.inj heq).2
        · right
          refine ⟨fun hall => hmisfit hall.1, fun heq => ?_⟩
          rw [List.map_cons, List.length_cons, List.range'_succ] at heq
          have hhead := (List.cons.inj heq).1
          omega

/-- Successful calls for a peer hand out consecutive counters from the chain on,
advance it once each and make the receiver skip nothing, if and only if each
envelope fits the first buffer of its call. -/
theorem envelopes_consecutive_iff {peer : Bytes} {calls : List (SealCall L)}
    {s s' : DeviceStore L} {envelopes : List Bytes} {c : Nat}
    (h : encryptAll peer calls s = some (envelopes, s'))
    (hc : sendingChain chain s peer = some c) :
    (envelopes.map envelopeCounter = List.range' c calls.length ∧
      sendingChain chain s' peer = some (c + calls.length) ∧
      skippedKeys c (envelopes.map envelopeCounter) = 0) ↔
      AllFit envelopeLength peer s calls := by
  rcases envelopes_of_encryptAll hratchet h hc with ⟨hall, hproperty⟩ | ⟨hnot, hrange⟩
  · exact ⟨fun _ => hall, fun _ => hproperty⟩
  · exact ⟨fun hproperty => absurd hproperty.1 hrange, fun hall => absurd hall hnot⟩

/-- In no session does a message of these lengths fit. -/
theorem not_fits {peer : Bytes} {s : DeviceStore L} {n bucket c : Nat}
    (hc : sendingChain chain s peer = some c) (hbucket : bucketFor n = some bucket)
    (hn : (1021 ≤ n ∧ n ≤ 3072) ∨ (4093 ≤ n ∧ n ≤ 15360) ∨ (16381 ≤ n ∧ n ≤ 64512) ∨
      (65533 ≤ n ∧ n ≤ 261120)) : ¬ Fits envelopeLength s peer n := by
  intro hfits
  obtain ⟨session, hsession, -⟩ := Option.map_eq_some_iff.mp hc
  have hle := hfits session hsession bucket hbucket
  have hlong := (guess_le_bucket_iff hbucket).mpr hn
  have hlonger := hratchet.longer session bucket
  omega

end Ratchet

/-! ## A message that takes two steps -/

/-- Encrypts in a session that is as long as its counter and one. -/
def sampleEncrypt (plaintext session : Bytes) (pinned : Option Bytes) :
    Result (CiphertextMessage × Bytes × Bytes) :=
  if session.length = 0 ∨ 2 ^ 32 < session.length then .error .noSession
  else .ok (⟨.whisper, plaintext ++ beBytes 4 (session.length - 1)⟩, session ++ [0], pinned.getD [])

theorem sampleEncrypt_ok {plaintext session : Bytes} {pinned : Option Bytes}
    {result : CiphertextMessage × Bytes × Bytes}
    (h : sampleEncrypt plaintext session pinned = .ok result) :
    0 < session.length ∧ session.length ≤ 2 ^ 32 ∧
      result.1.serialized = plaintext ++ beBytes 4 (session.length - 1) ∧
      result.2.1 = session ++ [0] := by
  rw [sampleEncrypt] at h
  by_cases hlen : session.length = 0 ∨ 2 ^ 32 < session.length
  · rw [if_pos hlen] at h
    cases h
  · rw [if_neg hlen] at h
    cases h
    exact ⟨by omega, by omega, rfl, rfl⟩

/-- Records that are their own bytes. An envelope is 32 bytes and its content. -/
def sampleLibsignal : Libsignal where
  Rng := Unit
  IdentityKeyPair := Bytes
  IdentityKey := Bytes
  PreKeyRecord := Bytes
  SignedPreKeyRecord := Bytes
  KyberPreKeyRecord := Bytes
  KyberUses := Unit
  SessionRecord := Bytes
  SenderKeyRecord := Bytes
  SenderCertificate := Bytes
  PreKeyBundle := Bytes
  UnidentifiedSenderMessageContent := Bytes
  SenderKeyDistributionMessage := Bytes
  identityKey pair := pair
  serializeIdentityKeyPair pair := pair
  parseIdentityKeyPair bytes := .ok bytes
  serializeIdentityKey key := key
  decodeIdentityKey bytes := .ok bytes
  deliveryTokenVerifyKey pair := .ok pair
  newPreKey _ _ := ([1], [1])
  newSignedPreKey _ _ _ _ := .ok ([1], [1], [1])
  newKyberPreKey _ _ _ _ := .ok ([1], [1], [1])
  serializePreKey record := record
  deserializePreKey bytes := .ok bytes
  serializeSignedPreKey record := record
  deserializeSignedPreKey bytes := .ok bytes
  serializeKyberPreKey record := record
  deserializeKyberPreKey bytes := .ok bytes
  noKyberUses := ()
  newFreshSession := []
  serializeSession record := record
  deserializeSession bytes := .ok bytes
  isDeviceId _ := true
  parsePublicKey bytes := .ok bytes
  parseKyberPublicKey bytes := .ok bytes
  newPreKeyBundle _ _ _ _ _ _ _ _ _ identity := .ok identity
  bundleIdentityKey bundle := .ok bundle
  processPreKeyBundle _ _ _ _ bundle _ _ := .ok ([0], bundle)
  messageEncrypt plaintext _ _ session pinned _ _ := sampleEncrypt plaintext session pinned
  parsePreKeySignalMessage bytes := .ok ⟨.preKey, bytes⟩
  parseSignalMessage bytes := .ok ⟨.whisper, bytes⟩
  messageDecrypt message _ _ _ _ session pinned _ _ _ uses _ :=
    (.ok message.serialized, ⟨session, pinned, none, uses⟩)
  newSenderCertificate pair _ _ _ := .ok pair
  certificateExpiration _ := .ok 0
  serializeCertificate cert := 1 :: cert
  deserializeCertificate bytes := .ok bytes.tail
  newContent _ _ content := .ok content
  sealedSenderEncrypt _ content _ _ _ := .ok (List.replicate 32 7 ++ content)
  sealedSenderDecrypt «sealed» _ := .ok («sealed».drop 32)
  contentSenderKey content := .ok content
  contentValidates _ _ _ := .ok true
  contentContents content := .ok content
  contentMessageType _ := .ok .whisper
  createDistribution _ _ record _ := .ok ([1], 1 :: record.getD [])
  parseDistribution bytes := .ok (bytes, FixedBytes.replicate 16 0)
  processDistribution _ _ record := .ok (2 :: record.getD [])
  groupEncrypt record plaintext _ := .ok (plaintext, 3 :: record)
  parseSenderKeyMessage _ := .ok (FixedBytes.replicate 16 0)
  groupDecrypt record ciphertext := .ok (ciphertext, 4 :: record)
  serializeSenderKey record := record
  deserializeSenderKey bytes := .ok bytes

/-- The counter that the sample puts at the end. -/
def sampleCounter (bytes : Bytes) : Nat := beNat (bytes.drop (bytes.length - 4))

def samplePeer : Bytes := [9]

/-- A store with a session whose chain is at 0. -/
def sampleStore : DeviceStore sampleLibsignal :=
  { DeviceStore.fresh (L := sampleLibsignal) [5] 1 with
    sessions := (∅ : Dict ProtocolAddress Bytes).insert (addressFor samplePeer) [0] }

/-- A message of `n` bytes, after 2020. -/
def sampleCall (n : Nat) : SealCall sampleLibsignal :=
  ⟨List.replicate 16 1, List.replicate n 65, ⟨1600000000000, ()⟩, ⟨1600000000000, ()⟩⟩

theorem sampleCounter_append {head tail : Bytes} (h : tail.length = 4) :
    sampleCounter (head ++ tail) = beNat tail := by
  rw [sampleCounter, List.length_append, h, Nat.add_sub_cancel, List.drop_left]

theorem sampleLibsignal_ratchets : sampleLibsignal.Ratchets (fun session => List.length session - 1)
    (fun message => sampleCounter message.serialized) sampleCounter (fun _ n => n + 53) where
  advances := by
    intro padded remote loc session pinned now rng result h
    obtain ⟨hpos, hle, hserialized, hsession⟩ := sampleEncrypt_ok h
    have hfits : List.length session - 1 < 256 ^ 4 := by omega
    refine ⟨?_, ?_⟩
    · show sampleCounter result.1.serialized = List.length session - 1
      rw [hserialized, sampleCounter_append (length_beBytes _ _), beNat_beBytes hfits]
    · show List.length result.2.1 - 1 = List.length session - 1 + 1
      have hlength : List.length result.2.1 = List.length session + 1 := by
        rw [hsession]
        exact List.length_append
      omega
  seals := by
    intro padded remote loc session pinned now rng result cert usmc address pair key rng' header
      envelope hheader h husmc hsealed
    obtain ⟨-, -, hserialized, -⟩ := sampleEncrypt_ok h
    cases husmc
    cases hsealed
    rw [hserialized]
    refine ⟨?_, ?_⟩
    · rw [sampleCounter_append (length_beBytes _ _), ← List.append_assoc, ← List.append_assoc,
        sampleCounter_append (length_beBytes _ _)]
    · simp only [List.length_append, List.length_replicate, hheader, length_beBytes]
      omega
  longer session n := by
    show n < n + 53
    omega

/-- Two short messages, whose envelopes fit. -/
theorem envelopes_consecutive_for_short_messages : ∃ envelopes s',
    encryptAll samplePeer [sampleCall 5, sampleCall 6] sampleStore = some (envelopes, s') ∧
      envelopes.map sampleCounter = List.range' 0 2 := by
  have hsome : (encryptAll samplePeer [sampleCall 5, sampleCall 6] sampleStore).isSome = true := by
    decide +kernel
  obtain ⟨⟨envelopes, s'⟩, hrun⟩ := Option.isSome_iff_exists.mp hsome
  have hfits : ∀ (s : DeviceStore sampleLibsignal) (n : Nat), bucketFor n = some 256 →
      Fits (L := sampleLibsignal) (fun _ n => n + 53) s samplePeer n := by
    intro s n hn session _ bucket hbucket
    rw [hn] at hbucket
    cases hbucket
    show 256 + 53 ≤ max (n + 1024) 4096
    omega
  have hall : AllFit (L := sampleLibsignal) (fun _ n => n + 53) samplePeer sampleStore
      [sampleCall 5, sampleCall 6] :=
    ⟨hfits _ _ (by decide +kernel), hfits _ _ (by decide +kernel), trivial⟩
  exact ⟨envelopes, s', hrun,
    ((envelopes_consecutive_iff sampleLibsignal_ratchets hrun (by decide +kernel)).mpr hall).1⟩

/-- A message of 2000 bytes uses up two counters, and the second is sent. -/
theorem long_message_skips_a_key :
    (encryptAll samplePeer [sampleCall 2000] sampleStore).map
      (fun r => (r.1.map sampleCounter, sendingChain (L := sampleLibsignal)
        (fun session => List.length session - 1) r.2 samplePeer)) = some ([1], some 2) := by
  decide +kernel

end Pizzini.Crypto
