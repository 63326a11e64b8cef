import Pizzini.Lib.Fields

/-!
# The frames of `RelayClient`

The encoders of `RelayClient.swift` and the reader of the frames that the relay
forwards. A frame is its type byte and its body; the length in front of it on
the wire is added by `writeFrame` and taken off by `drainFrames`. An encoder
returns `none` where the code stops: `UInt16(blob.count)` traps on a blob that
is too long for its prefix, and `sendHello` gives up without a signature.
-/

namespace Pizzini.Client

open Wire

/-! ## Constants (RelayClient.swift:117–125, 229–290) -/

def protocolVersion : UInt8 := 3
def helloSigningTag : Bytes := utf8 "pizzini.hello.v3"
def helloNonceLen : Nat := 16
def statusBinHashLen : Nat := 32
def maxTTLSeconds : UInt32 := 7 * 24 * 60 * 60

def frameTypeHello : UInt8 := 1
def frameTypeSend : UInt8 := 2
def frameTypeBundleRequest : UInt8 := 3
def frameTypeBundleResponse : UInt8 := 4
def frameTypeAck : UInt8 := 6
def frameTypeStatusResponse : UInt8 := 9
def frameTypeRegisterChain : UInt8 := 12
def frameTypeChainSeedDelivery : UInt8 := 13

/-! ## Encoders (RelayClient.swift:920–1032, 1103–1138, 1394–1398) -/

/-- The keys a `RelayClient` is made with. -/
structure ClientKeys where
  myIdentity : Bytes
  myDeliveryTokenVerifyKey : Bytes
  deriving DecidableEq, Repr

/-- `appendU16Blob`. -/
def appendU16Blob (out blob : Bytes) : Option Bytes :=
  if blob.length < 65536 then some (out ++ beBytes 2 blob.length ++ blob) else none

/-- `writeRoutedSealed`. -/
def writeRoutedSealed (frameType : UInt8) (toPeer sealedCiphertext : Bytes) (ttlSeconds : UInt32)
    (token : Bytes) : Option Bytes := do
  let ttl := min ttlSeconds maxTTLSeconds
  let payload ← appendU16Blob [frameType] toPeer
  let payload ← appendU16Blob (payload ++ beBytes 4 ttl.toNat) token
  return payload ++ sealedCiphertext

/-- `sendSealed`. -/
def sendSealed (toPeer sealedCiphertext : Bytes) (ttlSeconds : UInt32) (token : Bytes) : Option Bytes :=
  writeRoutedSealed frameTypeSend toPeer sealedCiphertext ttlSeconds token

/-- `sendAck`. -/
def sendAck (toPeer sealedCiphertext : Bytes) (ttlSeconds : UInt32) (token : Bytes) : Option Bytes :=
  writeRoutedSealed frameTypeAck toPeer sealedCiphertext ttlSeconds token

namespace ClientKeys

variable (keys : ClientKeys)

/-- `requestBundle`. -/
def requestBundle (toPeer : Bytes) (hashcashNonce : UInt64) : Option Bytes := do
  let payload ← appendU16Blob [frameTypeBundleRequest] toPeer
  let payload ← appendU16Blob payload keys.myIdentity
  return payload ++ beBytes 8 hashcashNonce.toNat

/-- `sendBundle`. -/
def sendBundle (toPeer bundle : Bytes) : Option Bytes := do
  let payload ← appendU16Blob [frameTypeBundleResponse] toPeer
  let payload ← appendU16Blob payload keys.myIdentity
  return payload ++ bundle

/-- `sendChainSeedFrame`. -/
def sendChainSeedFrame (toPeer sealedCiphertext : Bytes) : Option Bytes := do
  let payload ← appendU16Blob [frameTypeChainSeedDelivery] toPeer
  let payload ← appendU16Blob payload keys.myIdentity
  return payload ++ sealedCiphertext

/-- The bytes `sendHello` hands to its signer. -/
def helloSigningPayload (timestampSecs : UInt64) (nonce : FixedBytes helloNonceLen) : Bytes :=
  keys.myIdentity ++ keys.myDeliveryTokenVerifyKey ++ beBytes 8 timestampSecs.toNat ++ nonce.1

/-- `sendHello`, at a reading of the clock and with a drawn nonce. -/
def sendHello (signer : Bytes → Option Bytes) (timestampSecs : UInt64)
    (nonce : FixedBytes helloNonceLen) : Option Bytes := do
  let signature ← signer (keys.helloSigningPayload timestampSecs nonce)
  if signature.length ≠ 64 then none
  else
    let payload ← appendU16Blob [frameTypeHello, protocolVersion] keys.myIdentity
    let payload ← appendU16Blob payload keys.myDeliveryTokenVerifyKey
    let payload ← appendU16Blob (payload ++ beBytes 8 timestampSecs.toNat) nonce.1
    appendU16Blob payload signature

end ClientKeys

/-- `sendRegisterChain`; its preconditions are the types of the first two arguments. -/
def sendRegisterChain (chainID : FixedBytes 16) (root : FixedBytes 32) (length : UInt32) : Bytes :=
  frameTypeRegisterChain :: (chainID.1 ++ root.1 ++ beBytes 4 length.toNat)

/-! ## The reader (RelayClient.swift:1309–1392, 1504–1552) -/

namespace Cursor

/-- `skip`. -/
def skip (n : Nat) (buf : Bytes) : Option Bytes :=
  if n ≤ buf.length then some (buf.drop n) else none

/-- `u16Blob`. -/
def u16Blob (buf : Bytes) : Option (Bytes × Bytes) := do
  let (n, buf) ← takeNat 2 buf
  takeBytes n buf

end Cursor

/-- `RelayStatus`. -/
structure RelayStatus where
  protocolVersion : UInt8
  gitDirty : UInt8
  crateVersion : String
  gitSha : String
  binarySha256 : Bytes
  deriving DecidableEq, Repr

/-- A call on the delegate. -/
inductive Delivery where
  | didReceiveSealedSend (sealed : Bytes)
  | didReceiveAck (sealed : Bytes)
  | didReceiveBundleRequest (sender : Bytes)
  | didReceiveBundle (sender bundle : Bytes)
  | didReceiveChainSeed (sender sealedCiphertext : Bytes)
  | didReceiveStatus (status : RelayStatus)
  deriving DecidableEq, Repr

/-- `handleFrame`: what a frame from the relay makes the client tell its
delegate, if anything. -/
def handleFrame : Bytes → Option Delivery
  | [] => none
  | type :: cursor =>
    if type = frameTypeSend ∨ type = frameTypeAck then do
      let (_, cursor) ← Cursor.u16Blob cursor
      let cursor ← Cursor.skip 4 cursor
      let (_, sealed) ← Cursor.u16Blob cursor
      if type = frameTypeSend then some (.didReceiveSealedSend sealed)
      else some (.didReceiveAck sealed)
    else if type = frameTypeBundleRequest then do
      let (_, cursor) ← Cursor.u16Blob cursor
      let (sender, _) ← Cursor.u16Blob cursor
      some (.didReceiveBundleRequest sender)
    else if type = frameTypeBundleResponse then do
      let (_, cursor) ← Cursor.u16Blob cursor
      let (sender, bundle) ← Cursor.u16Blob cursor
      some (.didReceiveBundle sender bundle)
    else if type = frameTypeChainSeedDelivery then do
      let (_, cursor) ← Cursor.u16Blob cursor
      let (sender, sealed) ← Cursor.u16Blob cursor
      some (.didReceiveChainSeed sender sealed)
    else if type = frameTypeStatusResponse then do
      let (version, cursor) ← takeByte cursor
      let (gitDirty, cursor) ← takeByte cursor
      let (crateBytes, cursor) ← Cursor.u16Blob cursor
      let (shaBytes, cursor) ← Cursor.u16Blob cursor
      let (hashLen, cursor) ← takeByte cursor
      if hashLen.toNat ≠ statusBinHashLen then none
      else
        let (binarySha256, _) ← takeBytes hashLen.toNat cursor
        some (.didReceiveStatus
          { protocolVersion := version
            gitDirty
            crateVersion := (ofUtf8? crateBytes).getD ""
            gitSha := (ofUtf8? shaBytes).getD ""
            binarySha256 })
    else none

/-! ## What the reader finds behind its own encoders -/

theorem Cursor.u16Blob_append {bs : Bytes} (h : bs.length < 65536) (rest : Bytes) :
    Cursor.u16Blob (beBytes 2 bs.length ++ (bs ++ rest)) = some (bs, rest) := by
  have hlt : bs.length < 256 ^ 2 := h
  rw [Cursor.u16Blob, takeNat_append hlt]
  exact takeBytes_append rfl rest

theorem Cursor.skip_append {n : Nat} {bs : Bytes} (h : bs.length = n) (rest : Bytes) :
    Cursor.skip n (bs ++ rest) = some rest := by
  have hlen : n ≤ (bs ++ rest).length := by
    rw [List.length_append]
    omega
  rw [Cursor.skip, if_pos hlen, List.drop_left' h]

theorem appendU16Blob_of_lt {blob : Bytes} (h : blob.length < 65536) (out : Bytes) :
    appendU16Blob out blob = some (out ++ beBytes 2 blob.length ++ blob) :=
  if_pos h

end Pizzini.Client
