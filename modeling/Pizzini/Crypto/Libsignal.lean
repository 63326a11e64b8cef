import Pizzini.Lib.Dict
import Pizzini.Lib.Fields
import Pizzini.Relay.EncryptedFile

/-!
# libsignal, as the crypto core uses it

`libsignal_protocol` is a package outside the repository. `Libsignal` names its
types and the calls that `store.rs` makes, each on the records that it loads
and stores: which stores a call writes, and under which address, is written out
where `store.rs` makes it. `Libsignal.Lawful` is what is relied on.

A panic of the core is an error of its own, `panicked`.
-/

namespace Pizzini.Crypto

open Wire

inductive SignalProtocolError where
  | invalidArgument (message : String)
  | duplicatedMessage (timestamp counter : Nat)
  | noSession
  | noSenderKeyState
  | panicked (message : String)
  | other (text : String)
  deriving DecidableEq, Repr

/-- A result of `libsignal_protocol` or of the core. -/
abbrev Result (α : Type) := Except SignalProtocolError α

inductive CiphertextMessageType where
  | whisper
  | preKey
  | senderKey
  | plaintext
  deriving DecidableEq, Repr

structure CiphertextMessage where
  messageType : CiphertextMessageType
  serialized : Bytes
  deriving DecidableEq, Repr

/-- A name and a device; the name is hex. -/
structure ProtocolAddress where
  name : Bytes
  deviceId : UInt8
  deriving DecidableEq, Repr

/-- A raw UUID. -/
abbrev DistributionId := FixedBytes 16

/-- What `message_decrypt` writes: the session and the identity under the
sender's address, the pre-key it uses up, and the KEM pre-keys it marks. -/
structure Decrypted (SessionRecord IdentityKey KyberUses : Type) where
  session : Option SessionRecord
  identity : Option IdentityKey
  usedPreKey : Option UInt32
  kyberUses : KyberUses

structure Libsignal where
  Rng : Type
  IdentityKeyPair : Type
  IdentityKey : Type
  PreKeyRecord : Type
  SignedPreKeyRecord : Type
  KyberPreKeyRecord : Type
  KyberUses : Type
  SessionRecord : Type
  SenderKeyRecord : Type
  SenderCertificate : Type
  PreKeyBundle : Type
  UnidentifiedSenderMessageContent : Type
  SenderKeyDistributionMessage : Type
  -- identities
  identityKey : IdentityKeyPair → IdentityKey
  serializeIdentityKeyPair : IdentityKeyPair → Bytes
  parseIdentityKeyPair : Bytes → Result IdentityKeyPair
  serializeIdentityKey : IdentityKey → Bytes
  decodeIdentityKey : Bytes → Result IdentityKey
  deliveryTokenVerifyKey : IdentityKeyPair → Result Bytes
  -- pre-keys, with what a bundle publishes of them
  newPreKey : UInt32 → Rng → PreKeyRecord × Bytes
  newSignedPreKey : IdentityKeyPair → UInt32 → UInt64 → Rng → Result (SignedPreKeyRecord × Bytes × Bytes)
  newKyberPreKey : IdentityKeyPair → UInt32 → UInt64 → Rng → Result (KyberPreKeyRecord × Bytes × Bytes)
  serializePreKey : PreKeyRecord → Bytes
  deserializePreKey : Bytes → Result PreKeyRecord
  serializeSignedPreKey : SignedPreKeyRecord → Bytes
  deserializeSignedPreKey : Bytes → Result SignedPreKeyRecord
  serializeKyberPreKey : KyberPreKeyRecord → Bytes
  deserializeKyberPreKey : Bytes → Result KyberPreKeyRecord
  noKyberUses : KyberUses
  -- sessions
  newFreshSession : SessionRecord
  serializeSession : SessionRecord → Bytes
  deserializeSession : Bytes → Result SessionRecord
  isDeviceId : UInt8 → Bool
  parsePublicKey : Bytes → Result Bytes
  parseKyberPublicKey : Bytes → Result Bytes
  newPreKeyBundle : UInt32 → UInt8 → Option (UInt32 × Bytes) → UInt32 → Bytes → Bytes → UInt32 →
    Bytes → Bytes → IdentityKey → Result PreKeyBundle
  bundleIdentityKey : PreKeyBundle → Result IdentityKey
  processPreKeyBundle : ProtocolAddress → ProtocolAddress → Option SessionRecord →
    Option IdentityKey → PreKeyBundle → UInt64 → Rng → Result (SessionRecord × IdentityKey)
  messageEncrypt : Bytes → ProtocolAddress → ProtocolAddress → SessionRecord →
    Option IdentityKey → UInt64 → Rng → Result (CiphertextMessage × SessionRecord × IdentityKey)
  parsePreKeySignalMessage : Bytes → Result CiphertextMessage
  parseSignalMessage : Bytes → Result CiphertextMessage
  messageDecrypt : CiphertextMessage → ProtocolAddress → ProtocolAddress → IdentityKeyPair →
    UInt32 → Option SessionRecord → Option IdentityKey → Dict UInt32 PreKeyRecord →
    Dict UInt32 SignedPreKeyRecord → Dict UInt32 KyberPreKeyRecord → KyberUses → Rng →
    Result Bytes × Decrypted SessionRecord IdentityKey KyberUses
  -- sealed sender
  newSenderCertificate : IdentityKeyPair → Bytes → UInt64 → Rng → Result SenderCertificate
  certificateExpiration : SenderCertificate → Result UInt64
  serializeCertificate : SenderCertificate → Bytes
  deserializeCertificate : Bytes → Result SenderCertificate
  newContent : CiphertextMessageType → SenderCertificate → Bytes →
    Result UnidentifiedSenderMessageContent
  sealedSenderEncrypt : ProtocolAddress → UnidentifiedSenderMessageContent → IdentityKeyPair →
    Option IdentityKey → Rng → Result Bytes
  sealedSenderDecrypt : Bytes → IdentityKeyPair → Result UnidentifiedSenderMessageContent
  contentSenderKey : UnidentifiedSenderMessageContent → Result IdentityKey
  contentValidates : UnidentifiedSenderMessageContent → IdentityKey → UInt64 → Result Bool
  contentContents : UnidentifiedSenderMessageContent → Result Bytes
  contentMessageType : UnidentifiedSenderMessageContent → Result CiphertextMessageType
  -- sender keys
  createDistribution : ProtocolAddress → DistributionId → Option SenderKeyRecord → Rng →
    Result (Bytes × SenderKeyRecord)
  parseDistribution : Bytes → Result (SenderKeyDistributionMessage × DistributionId)
  processDistribution : ProtocolAddress → SenderKeyDistributionMessage → Option SenderKeyRecord →
    Result SenderKeyRecord
  groupEncrypt : SenderKeyRecord → Bytes → Rng → Result (Bytes × SenderKeyRecord)
  parseSenderKeyMessage : Bytes → Result DistributionId
  groupDecrypt : SenderKeyRecord → Bytes → Result (Bytes × SenderKeyRecord)
  serializeSenderKey : SenderKeyRecord → Bytes
  deserializeSenderKey : Bytes → Result SenderKeyRecord

/-- What the core relies on. Each record is read back from its bytes. A fresh
session has no bytes, and a message is encrypted only in a session that has
some. Certificates and the sender-key records that libsignal makes have some. -/
structure Libsignal.Lawful (L : Libsignal) : Prop where
  identityKeyPair : ∀ pair, L.parseIdentityKeyPair (L.serializeIdentityKeyPair pair) = .ok pair
  preKey : ∀ record, L.deserializePreKey (L.serializePreKey record) = .ok record
  signedPreKey : ∀ record, L.deserializeSignedPreKey (L.serializeSignedPreKey record) = .ok record
  kyberPreKey : ∀ record, L.deserializeKyberPreKey (L.serializeKyberPreKey record) = .ok record
  session : ∀ record, L.deserializeSession (L.serializeSession record) = .ok record
  certificate : ∀ cert, L.deserializeCertificate (L.serializeCertificate cert) = .ok cert
  senderKey : ∀ record, L.deserializeSenderKey (L.serializeSenderKey record) = .ok record
  identityKey : ∀ key, L.decodeIdentityKey (L.serializeIdentityKey key) = .ok key
  freshSession : L.serializeSession L.newFreshSession = []
  encryptsInSession : ∀ {plaintext remote loc record pinned now rng result},
    L.messageEncrypt plaintext remote loc record pinned now rng = .ok result →
      L.serializeSession record ≠ []
  certificateBytes : ∀ cert, L.serializeCertificate cert ≠ []
  createdBytes : ∀ {address dist record rng result},
    L.createDistribution address dist record rng = .ok result → L.serializeSenderKey result.2 ≠ []
  processedBytes : ∀ {address message record result},
    L.processDistribution address message record = .ok result → L.serializeSenderKey result ≠ []
  encryptedBytes : ∀ {record plaintext rng result},
    L.groupEncrypt record plaintext rng = .ok result → L.serializeSenderKey result.2 ≠ []
  decryptedBytes : ∀ {record ciphertext result},
    L.groupDecrypt record ciphertext = .ok result → L.serializeSenderKey result.2 ≠ []

/-! ## Addresses (store.rs:1448–1460) -/

def DEVICE_ID : UInt8 := 1

/-- `address_for`; the name is `hex_lower`. -/
def addressFor (identityPublic : Bytes) : ProtocolAddress :=
  ⟨Relay.hexEncode identityPublic, DEVICE_ID⟩

theorem addressFor_inj {a b : Bytes} (h : addressFor a = addressFor b) : a = b := by
  have hname : Relay.hexEncode a = Relay.hexEncode b := congrArg ProtocolAddress.name h
  have hdecoded := congrArg Relay.hexDecode hname
  rw [Relay.hexDecode_hexEncode, Relay.hexDecode_hexEncode] at hdecoded
  exact Option.some.inj hdecoded

end Pizzini.Crypto
