import Pizzini.Crypto.Padding
import Pizzini.Lib.Stateful

/-!
# `DeviceStore`

The per-device store of `store.rs` and its public operations. The libsignal
stores are dictionaries under addresses; what a libsignal call writes, it writes
under the address that it is called with. Times and random draws are arguments.
-/

namespace Pizzini.Crypto

open Wire Stateful

/-! ## Constants (store.rs:210–256) -/

def BUNDLE_VERSION : UInt8 := 3
def STORE_VERSION : UInt8 := 3
def SENDER_CERT_TTL_MS : UInt64 := 30 * 24 * 60 * 60 * 1000
def SENDER_CERT_REFRESH_MARGIN_MS : UInt64 := 7 * 24 * 60 * 60 * 1000
def MIN_SANE_EPOCH_MILLIS : UInt64 := 1577836800000
def DELIVERY_TOKEN_VERIFY_KEY_LEN : Nat := 33

/-! ## The store (store.rs:262–292) -/

structure DeviceStore (L : Libsignal) where
  identityKeyPair : L.IdentityKeyPair
  registrationId : UInt32
  sessions : Dict ProtocolAddress L.SessionRecord
  identities : Dict ProtocolAddress L.IdentityKey
  preKeys : Dict UInt32 L.PreKeyRecord
  signedPreKeys : Dict UInt32 L.SignedPreKeyRecord
  kyberPreKeys : Dict UInt32 L.KyberPreKeyRecord
  kyberUses : L.KyberUses
  senderKeys : Dict (ProtocolAddress × DistributionId) L.SenderKeyRecord
  nextPreKeyId : UInt32
  nextSignedPreKeyId : UInt32
  nextKyberPreKeyId : UInt32
  peers : List Bytes
  senderCertificate : Option L.SenderCertificate
  senderKeyIndex : List (Bytes × DistributionId)

/-- An operation of the store. -/
abbrev StoreOp (L : Libsignal) (α : Type) := Op (DeviceStore L) SignalProtocolError α

namespace DeviceStore

variable {L : Libsignal}

/-- `InMemSignalProtocolStore::new` and `fresh`, for a drawn identity and
registration id; `from_identity` is the same on a given identity. -/
def fresh (identityKeyPair : L.IdentityKeyPair) (registrationId : UInt32) : DeviceStore L :=
  ⟨identityKeyPair, registrationId, ∅, ∅, ∅, ∅, ∅, L.noKyberUses, ∅, 1, 1, 1, [], none, []⟩

/-- `identity_public_bytes`. -/
def identityPublicBytes (s : DeviceStore L) : Bytes :=
  L.serializeIdentityKey (L.identityKey s.identityKeyPair)

/-- The address of the device itself. -/
def localAddress (s : DeviceStore L) : ProtocolAddress := addressFor s.identityPublicBytes

/-! ## Byte writers and readers (store.rs:1592–1683) -/

/-- `write_u16_blob`. -/
def writeU16Blob (blob : Bytes) : Result Bytes :=
  if blob.length < 2 ^ 16 then .ok (beBytes 2 blob.length ++ blob)
  else .error (.panicked "blob fits u16")

/-- `write_u32_blob`. -/
def writeU32Blob (blob : Bytes) : Result Bytes :=
  if blob.length < 2 ^ 32 then .ok (beBytes 4 blob.length ++ blob)
  else .error (.panicked "blob fits u32")

/-- `to_be_bytes` of a `u32`. -/
def u32Bytes (n : UInt32) : Bytes := beBytes 4 n.toNat

/-- `Cursor`: a reader, whose state is the bytes that are left. -/
abbrev Cursor (α : Type) := Op Bytes SignalProtocolError α

namespace Cursor

/-- `Cursor::take`. -/
def take (n : Nat) : Cursor Bytes where
  run buf :=
    if buf.length < n then (.error (.invalidArgument "truncated bundle"), buf)
    else (.ok (buf.take n), buf.drop n)

def isEmpty : Cursor Bool := ⟨fun buf => (.ok buf.isEmpty, buf)⟩

def u8 : Cursor UInt8 := do return ((← take 1).head?.getD 0)

def u16 : Cursor Nat := do return beNat (← take 2)

def u32 : Cursor UInt32 := do return UInt32.ofNat (beNat (← take 4))

def u16Blob : Cursor Bytes := do take (← u16)

def u32Blob : Cursor Bytes := do take (← u32).toNat

/-- `read_count`. -/
def readCount : Cursor Nat := do
  let n ← u32
  let rest ← Op.get
  if n.toNat > rest.length then
    Op.throw (.invalidArgument "serialized element count exceeds remaining bytes")
  else return n.toNat

end Cursor

/-! ## Bundles (store.rs:1489–1590) -/

/-- What a bundle publishes of a store. -/
structure BundleFields where
  registrationId : UInt32
  oneTimePreKey : UInt32 × Bytes
  signedPreKeyId : UInt32
  signedPreKeyPublic : Bytes
  signedPreKeySig : Bytes
  kyberPreKeyId : UInt32
  kyberPreKeyPublic : Bytes
  kyberPreKeySig : Bytes
  identityKey : Bytes
  deliveryTokenVerifyKey : Bytes

/-- `encode_bundle`. -/
def encodeBundle (b : BundleFields) : Result Bytes := do
  let head := BUNDLE_VERSION :: u32Bytes b.registrationId ++ u32Bytes DEVICE_ID.toUInt32 ++ [1] ++
    u32Bytes b.oneTimePreKey.1
  let oneTime ← writeU16Blob b.oneTimePreKey.2
  let signedPublic ← writeU16Blob b.signedPreKeyPublic
  let signedSig ← writeU16Blob b.signedPreKeySig
  let kyberPublic ← writeU32Blob b.kyberPreKeyPublic
  let kyberSig ← writeU16Blob b.kyberPreKeySig
  let identity ← writeU16Blob b.identityKey
  let verifyKey ← writeU16Blob b.deliveryTokenVerifyKey
  return head ++ oneTime ++ u32Bytes b.signedPreKeyId ++ signedPublic ++ signedSig ++
    u32Bytes b.kyberPreKeyId ++ kyberPublic ++ kyberSig ++ identity ++ verifyKey

/-- `decode_bundle`: the bundle, and the verify key that it publishes. -/
def decodeBundle (L : Libsignal) : Cursor (L.PreKeyBundle × Bytes) := do
  let version ← Cursor.u8
  if version ≠ BUNDLE_VERSION then
    Op.throw (.invalidArgument s!"unknown bundle version {version}")
  let registrationId ← Cursor.u32
  let deviceIdRaw ← Cursor.u32
  if deviceIdRaw.toNat > 255 then Op.throw (.invalidArgument "device_id must fit in u8")
  if !L.isDeviceId deviceIdRaw.toUInt8 then
    Op.throw (.invalidArgument "device_id must be non-zero")
  let hasOtp ← Cursor.u8
  let oneTime ← if hasOtp ≠ 0 then do
      let id ← Cursor.u32
      let key ← Op.lift (L.parsePublicKey (← Cursor.u16Blob))
      pure (some (id, key))
    else pure none
  let signedId ← Cursor.u32
  let signedPub ← Op.lift (L.parsePublicKey (← Cursor.u16Blob))
  let signedSig ← Cursor.u16Blob
  let kyberId ← Cursor.u32
  let kyberPub ← Op.lift (L.parseKyberPublicKey (← Cursor.u32Blob))
  let kyberSig ← Cursor.u16Blob
  let identity ← Op.lift (L.decodeIdentityKey (← Cursor.u16Blob))
  let tokenVerifyKey ← Cursor.u16Blob
  if tokenVerifyKey.length ≠ DELIVERY_TOKEN_VERIFY_KEY_LEN then
    Op.throw (.invalidArgument s!"delivery_token_verify_key must be {DELIVERY_TOKEN_VERIFY_KEY_LEN} bytes, got {tokenVerifyKey.length}")
  if !(← Cursor.isEmpty) then Op.throw (.invalidArgument "trailing bytes after bundle")
  let bundle ← Op.lift (L.newPreKeyBundle registrationId deviceIdRaw.toUInt8 oneTime signedId
    signedPub signedSig kyberId kyberPub kyberSig identity)
  return (bundle, tokenVerifyKey)

/-! ## Peers and pre-keys (store.rs:1424–1427, 443–572) -/

/-- `next_id`. -/
def nextId (id : UInt32) : UInt32 :=
  let n := id + 1
  if n = 0 then 1 else n

/-- `register_peer`. -/
def registerPeer (peerIdentity : Bytes) : StoreOp L Unit :=
  Op.modify fun s =>
    if peerIdentity.length > 65535 then s
    else if s.peers.contains peerIdentity then s
    else { s with peers := s.peers ++ [peerIdentity] }

/-- `forget_peer`. -/
def forgetPeer (peerIdentity : Bytes) : StoreOp L Unit :=
  Op.modify fun s =>
    { s with
      peers := s.peers.filter (· ≠ peerIdentity)
      sessions := s.sessions.insert (addressFor peerIdentity) L.newFreshSession }

/-- `publish_bundle`. -/
def publishBundle (now : UInt64) (rng : L.Rng) : StoreOp L Bytes := do
  let s ← Op.get
  let tokenVerifyKey ← Op.lift (L.deliveryTokenVerifyKey s.identityKeyPair)
  let preId := s.nextPreKeyId
  let pre := L.newPreKey preId rng
  Op.modify fun s =>
    { s with
      nextPreKeyId := nextId s.nextPreKeyId
      preKeys := s.preKeys.insert preId pre.1 }
  let signedId := s.nextSignedPreKeyId
  Op.modify fun s => { s with nextSignedPreKeyId := nextId s.nextSignedPreKeyId }
  let signed ← Op.lift (L.newSignedPreKey s.identityKeyPair signedId now rng)
  Op.modify fun s => { s with signedPreKeys := s.signedPreKeys.insert signedId signed.1 }
  let kyberId := s.nextKyberPreKeyId
  Op.modify fun s => { s with nextKyberPreKeyId := nextId s.nextKyberPreKeyId }
  let kyber ← Op.lift (L.newKyberPreKey s.identityKeyPair kyberId now rng)
  Op.modify fun s => { s with kyberPreKeys := s.kyberPreKeys.insert kyberId kyber.1 }
  Op.lift (encodeBundle ⟨s.registrationId, (preId, pre.2), signedId, signed.2.1, signed.2.2, kyberId,
    kyber.2.1, kyber.2.2, s.identityPublicBytes, tokenVerifyKey⟩)

/-- `initiate_session`. -/
def initiateSession (peerIdentity bundleBytes : Bytes) (now : UInt64) (rng : L.Rng) :
    StoreOp L Unit := do
  let decoded ← Op.lift ((decodeBundle L).run bundleBytes).1
  let bundleIdentity ← Op.lift (L.bundleIdentityKey decoded.1)
  let providedIdentity ← Op.lift (L.decodeIdentityKey peerIdentity)
  if L.serializeIdentityKey bundleIdentity ≠ L.serializeIdentityKey providedIdentity then
    Op.throw (.invalidArgument "peer identity does not match bundle identity_key")
  else do
    let peerAddr := addressFor peerIdentity
    let s ← Op.get
    let processed ← Op.lift (L.processPreKeyBundle peerAddr s.localAddress
      (s.sessions.lookup peerAddr) (s.identities.lookup peerAddr) decoded.1 now rng)
    Op.modify fun s =>
      { s with
        sessions := s.sessions.insert peerAddr processed.1
        identities := s.identities.insert peerAddr processed.2 }
    registerPeer peerIdentity

/-! ## Sender keys (store.rs:613–740) -/

/-- `note_sender_key`. -/
def noteSenderKey (senderIdentity : Bytes) (distributionId : DistributionId) : StoreOp L Unit :=
  Op.modify fun s =>
    if senderIdentity.length > 65535 then s
    else if s.senderKeyIndex.contains (senderIdentity, distributionId) then s
    else { s with senderKeyIndex := s.senderKeyIndex ++ [(senderIdentity, distributionId)] }

/-- `store_sender_key`. -/
def storeSenderKey (address : ProtocolAddress) (distributionId : DistributionId)
    (record : L.SenderKeyRecord) : StoreOp L Unit :=
  Op.modify fun s => { s with senderKeys := s.senderKeys.insert (address, distributionId) record }

/-- `sender_key_distribution_create`. -/
def senderKeyDistributionCreate (distributionId : DistributionId) (rng : L.Rng) :
    StoreOp L Bytes := do
  let s ← Op.get
  let created ← Op.lift (L.createDistribution s.localAddress distributionId
    (s.senderKeys.lookup (s.localAddress, distributionId)) rng)
  storeSenderKey s.localAddress distributionId created.2
  noteSenderKey s.identityPublicBytes distributionId
  return created.1

/-- `sender_key_distribution_process`. -/
def senderKeyDistributionProcess (senderIdentity skdmBytes : Bytes) : StoreOp L DistributionId := do
  let skdm ← Op.lift (L.parseDistribution skdmBytes)
  let senderAddr := addressFor senderIdentity
  let s ← Op.get
  let record ← Op.lift (L.processDistribution senderAddr skdm.1
    (s.senderKeys.lookup (senderAddr, skdm.2)))
  storeSenderKey senderAddr skdm.2 record
  noteSenderKey senderIdentity skdm.2
  return skdm.2

/-- `group_encrypt`. -/
def groupEncrypt (distributionId : DistributionId) (plaintext : Bytes) (rng : L.Rng) :
    StoreOp L Bytes := do
  let s ← Op.get
  match s.senderKeys.lookup (s.localAddress, distributionId) with
  | none => Op.throw .noSenderKeyState
  | some record => do
    let encrypted ← Op.lift (L.groupEncrypt record plaintext rng)
    storeSenderKey s.localAddress distributionId encrypted.2
    return encrypted.1

/-- `group_decrypt`. -/
def groupDecrypt (senderIdentity ciphertext : Bytes) : StoreOp L Bytes := do
  let senderAddr := addressFor senderIdentity
  let distributionId ← Op.lift (L.parseSenderKeyMessage ciphertext)
  let s ← Op.get
  match s.senderKeys.lookup (senderAddr, distributionId) with
  | none => Op.throw .noSenderKeyState
  | some record => do
    let decrypted ← Op.lift (L.groupDecrypt record ciphertext)
    storeSenderKey senderAddr distributionId decrypted.2
    noteSenderKey senderIdentity distributionId
    return decrypted.1

/-! ## Sealed sender (store.rs:742–866, 899–1088) -/

/-- Whether the cached certificate is missing or about to lapse. -/
def needsMint (L : Libsignal) (now : UInt64) : Option L.SenderCertificate → Result Bool
  | none => .ok true
  | some cert =>
    (L.certificateExpiration cert).map fun exp =>
      exp ≤ now || exp - now ≤ SENDER_CERT_REFRESH_MARGIN_MS

/-- `ensure_sender_certificate_inner`. -/
def ensureSenderCertificate (now : UInt64) (rng : L.Rng) : StoreOp L L.SenderCertificate := do
  if now < MIN_SANE_EPOCH_MILLIS then
    Op.throw (.invalidArgument
      "system clock is before 2020; refusing to mint an already-expired sender certificate")
  else do
    let s ← Op.get
    let mint ← Op.lift (needsMint L now s.senderCertificate)
    if mint then do
      let cert ← Op.lift (L.newSenderCertificate s.identityKeyPair
        (Relay.hexEncode s.identityPublicBytes) (now + SENDER_CERT_TTL_MS) rng)
      Op.modify fun s => { s with senderCertificate := some cert }
      return cert
    else match s.senderCertificate with
      | some cert => return cert
      | none => Op.throw (.panicked "just minted or already cached")

/-- `seal_send`. -/
def sealSend (peerIdentity : Bytes) (messageId : FixedBytes 16) (plaintext : Bytes) (now : UInt64)
    (rng : L.Rng) : StoreOp L Bytes := do
  let cert ← ensureSenderCertificate now rng
  let peerAddr := addressFor peerIdentity
  let padded ← Op.lift (padPlaintext plaintext)
  let s ← Op.get
  match s.sessions.lookup peerAddr with
  | none => Op.throw .noSession
  | some session => do
    let inner ← Op.lift (L.messageEncrypt padded peerAddr s.localAddress session
      (s.identities.lookup peerAddr) now rng)
    Op.modify fun s =>
      { s with
        sessions := s.sessions.insert peerAddr inner.2.1
        identities := s.identities.insert peerAddr inner.2.2 }
    let isPrekey : Bool := inner.1.messageType = .preKey
    let content := messageId.1 ++ [if isPrekey then 1 else 0] ++ inner.1.serialized
    let usmc ← Op.lift (L.newContent inner.1.messageType cert content)
    let sealing ← Op.get
    Op.lift (L.sealedSenderEncrypt peerAddr usmc sealing.identityKeyPair
      (sealing.identities.lookup peerAddr) rng)

/-- `SealReceived`. -/
structure SealReceived where
  senderIdentityPub : Bytes
  messageId : Bytes
  plaintext : Bytes
  isDuplicate : Bool

/-- `seal_receive`. The refusals that `BadSignature` tells apart from the others
have the texts of the two that the contact gate and the certificate check throw. -/
def sealReceive («sealed» : Bytes) (now : UInt64) (rng : L.Rng) : StoreOp L SealReceived := do
  let s ← Op.get
  let usmc ← Op.lift (L.sealedSenderDecrypt «sealed» s.identityKeyPair)
  let claimed ← Op.lift (L.contentSenderKey usmc)
  let claimedBytes := L.serializeIdentityKey claimed
  if !s.peers.contains claimedBytes then
    Op.throw (.invalidArgument "sealed sender claim does not match a known contact")
  else do
    let trustRoot ← Op.lift (L.decodeIdentityKey claimedBytes)
    let valid ← Op.lift (L.contentValidates usmc trustRoot now)
    if !valid then
      Op.throw (.invalidArgument
        "sealed sender certificate does not validate against the contact's identity")
    else do
      let innerBytes ← Op.lift (L.contentContents usmc)
      if innerBytes.length < 18 then
        Op.throw (.invalidArgument
          "sealed sender inner content shorter than message_id||is_prekey||ratchet[1+]")
      else do
        let messageId := innerBytes.take 16
        let isPrekey : Bool := (innerBytes.drop 16).head? ≠ some 0
        let ratchet := innerBytes.drop 17
        let messageType ← Op.lift (L.contentMessageType usmc)
        if decide (messageType = .preKey) ≠ isPrekey then
          Op.throw (.invalidArgument "sealed sender USMC msg_type disagrees with inner is_prekey byte")
        else do
          let parsed ← Op.lift (if isPrekey then L.parsePreKeySignalMessage ratchet
            else L.parseSignalMessage ratchet)
          let senderAddr := addressFor claimedBytes
          let decrypted := L.messageDecrypt parsed senderAddr s.localAddress s.identityKeyPair
            s.registrationId (s.sessions.lookup senderAddr) (s.identities.lookup senderAddr)
            s.preKeys s.signedPreKeys s.kyberPreKeys s.kyberUses rng
          Op.modify fun s =>
            { s with
              sessions := match decrypted.2.session with
                | some record => s.sessions.insert senderAddr record
                | none => s.sessions
              identities := match decrypted.2.identity with
                | some key => s.identities.insert senderAddr key
                | none => s.identities
              preKeys := match decrypted.2.usedPreKey with
                | some id => s.preKeys.erase id
                | none => s.preKeys
              kyberUses := decrypted.2.kyberUses }
          match decrypted.1 with
          | .ok padded => do
            let plaintext ← Op.lift (unpadPlaintext padded)
            return ⟨claimedBytes, messageId, plaintext, false⟩
          | .error (.duplicatedMessage _ _) => return ⟨claimedBytes, messageId, [], true⟩
          | .error e => Op.throw e

end DeviceStore

end Pizzini.Crypto
