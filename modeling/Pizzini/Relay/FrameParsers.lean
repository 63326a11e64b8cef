import Pizzini.Lib.Fields
import Pizzini.Relay.ChainValidatorStore

/-!
# The frame parsers of `main.rs`

The relay reads the routing header of each frame with a small cursor over its
bytes and leaves the rest alone. This module models the cursor and the five
parsers of routed frames, with the texts of their errors, and the payload that
a HELLO signature is checked against. A cursor is the bytes that are left.

Every cursor operation comes with what it does on the bytes it is meant for
(`Cursor.u16Blob_append` and so on), so that a parser applied to an encoded
frame is read off field by field.
-/

namespace Pizzini.Relay

open Wire

/-! ## Constants (main.rs:310–417, 480–487) -/

def PROTOCOL_VERSION : UInt8 := 3
def HELLO_SIGNING_TAG : Bytes := utf8 "pizzini.hello.v3"
def HELLO_NONCE_LEN : Nat := 16
def HELLO_SIG_LEN : Nat := 64
def VERIFY_KEY_LEN : Nat := 33
def MAX_PEER_ID_BYTES : Nat := 64
def MIN_PUSH_TOKEN_BYTES : Nat := 16
def MAX_PUSH_TOKEN_BYTES : Nat := 64

def FRAME_TYPE_HELLO : UInt8 := 1
def FRAME_TYPE_SEND : UInt8 := 2
def FRAME_TYPE_BUNDLE_REQUEST : UInt8 := 3
def FRAME_TYPE_BUNDLE_RESPONSE : UInt8 := 4
def FRAME_TYPE_REGISTER_PUSH : UInt8 := 5
def FRAME_TYPE_ACK : UInt8 := 6
def FRAME_TYPE_DEREGISTER_PUSH : UInt8 := 11
def FRAME_TYPE_REGISTER_CHAIN : UInt8 := 12
def FRAME_TYPE_CHAIN_SEED_DELIVERY : UInt8 := 13

/-! ## The cursor (main.rs:3027–3063) -/

/-- `?` on a result that is there. -/
@[simp] theorem ok_bind {α β : Type} (a : α) (f : α → Except String β) :
    (Except.ok a >>= f) = f a := rfl

namespace Cursor

/-- `take`. -/
def take (n : Nat) (c : Bytes) : Except String (Bytes × Bytes) :=
  if c.length < n then .error "truncated frame" else .ok (c.take n, c.drop n)

/-- `take`, copied into an array. -/
def takeArray (n : Nat) (c : Bytes) : Except String (FixedBytes n × Bytes) :=
  if h : c.length < n then .error "truncated frame"
  else .ok (⟨c.take n, length_take_of_not_lt h⟩, c.drop n)

/-- `u8`. -/
def u8 : Bytes → Except String (UInt8 × Bytes)
  | [] => .error "truncated frame"
  | b :: c => .ok (b, c)

/-- `u16`. -/
def u16 (c : Bytes) : Except String (UInt16 × Bytes) :=
  (take 2 c).map fun r => (UInt16.ofNat (beNat r.1), r.2)

/-- `u32`. -/
def u32 (c : Bytes) : Except String (UInt32 × Bytes) :=
  (take 4 c).map fun r => (UInt32.ofNat (beNat r.1), r.2)

/-- `u64`. -/
def u64 (c : Bytes) : Except String (UInt64 × Bytes) :=
  (take 8 c).map fun r => (UInt64.ofNat (beNat r.1), r.2)

/-- `u16_blob`. -/
def u16Blob (c : Bytes) : Except String (Bytes × Bytes) :=
  match u16 c with
  | .error e => .error e
  | .ok (n, c) => take n.toNat c

theorem take_append {n : Nat} {bs : Bytes} (h : bs.length = n) (rest : Bytes) :
    take n (bs ++ rest) = .ok (bs, rest) := by
  have hlen : ¬ (bs ++ rest).length < n := by
    rw [List.length_append]
    omega
  rw [take, if_neg hlen, List.take_left' h, List.drop_left' h]

@[simp] theorem takeArray_append {n : Nat} (bs : FixedBytes n) (rest : Bytes) :
    takeArray n (bs.1 ++ rest) = .ok (bs, rest) := by
  have hlen : ¬ (bs.1 ++ rest).length < n := by
    rw [List.length_append, bs.2]
    omega
  rw [takeArray, dif_neg hlen]
  congr 2
  · exact Subtype.ext (List.take_left' bs.2)
  · exact List.drop_left' bs.2

@[simp] theorem u8_cons (b : UInt8) (rest : Bytes) : u8 (b :: rest) = .ok (b, rest) := rfl

@[simp] theorem u32_append (n : UInt32) (rest : Bytes) :
    u32 (beBytes 4 n.toNat ++ rest) = .ok (n, rest) := by
  have hlt : n.toNat < 256 ^ 4 := n.toNat_lt
  rw [u32, take_append (length_beBytes 4 _)]
  show Except.ok (UInt32.ofNat (beNat (beBytes 4 n.toNat)), rest) = _
  rw [beNat_beBytes hlt, UInt32.ofNat_toNat]

@[simp] theorem u64_append (n : UInt64) (rest : Bytes) :
    u64 (beBytes 8 n.toNat ++ rest) = .ok (n, rest) := by
  have hlt : n.toNat < 256 ^ 8 := n.toNat_lt
  rw [u64, take_append (length_beBytes 8 _)]
  show Except.ok (UInt64.ofNat (beNat (beBytes 8 n.toNat)), rest) = _
  rw [beNat_beBytes hlt, UInt64.ofNat_toNat]

/-- A blob whose length fits its prefix is read back. -/
theorem u16Blob_append {bs : Bytes} (h : bs.length < 65536) (rest : Bytes) :
    u16Blob (beBytes 2 bs.length ++ (bs ++ rest)) = .ok (bs, rest) := by
  have hlt : bs.length < 256 ^ 2 := h
  have hlen : (UInt16.ofNat bs.length).toNat = bs.length := UInt16.toNat_ofNat_of_lt' h
  rw [u16Blob, u16, take_append (length_beBytes 2 _)]
  show take (UInt16.ofNat (beNat (beBytes 2 bs.length))).toNat (bs ++ rest) = _
  rw [beNat_beBytes hlt, hlen, take_append rfl]

end Cursor

/-! ## HELLO (main.rs:2542–2652) -/

/-- `ParsedHello`. -/
structure ParsedHello where
  peerId : Bytes
  verifyKey : Bytes
  timestampSecs : UInt64
  nonce : FixedBytes HELLO_NONCE_LEN
  signature : Bytes
  deriving DecidableEq

/-- `parse_hello`. -/
def parseHello (body : Bytes) : Except String ParsedHello := do
  let (version, c) ← Cursor.u8 body
  if version ≠ PROTOCOL_VERSION then
    .error s!"unsupported protocol version {version}; relay speaks {PROTOCOL_VERSION}"
  else
    let (peerId, c) ← Cursor.u16Blob c
    let (verifyKey, c) ← Cursor.u16Blob c
    if verifyKey.length ≠ VERIFY_KEY_LEN then
      .error s!"verify_key must be {VERIFY_KEY_LEN} bytes, got {verifyKey.length}"
    else
      let (timestampSecs, c) ← Cursor.u64 c
      let (nonceBlob, c) ← Cursor.u16Blob c
      if h : nonceBlob.length = HELLO_NONCE_LEN then
        let (signature, c) ← Cursor.u16Blob c
        if signature.length ≠ HELLO_SIG_LEN then
          .error s!"HELLO signature must be {HELLO_SIG_LEN} bytes, got {signature.length}"
        else if !c.isEmpty then .error "trailing bytes after HELLO"
        else .ok { peerId, verifyKey, timestampSecs, nonce := ⟨nonceBlob, h⟩, signature }
      else .error s!"HELLO nonce must be {HELLO_NONCE_LEN} bytes, got {nonceBlob.length}"

/-- `build_hello_signing_payload`: tag length, tag, and the signed fields. -/
def buildHelloSigningPayload (peerId verifyKey : Bytes) (timestampSecs : UInt64) (nonce : Bytes) :
    Bytes :=
  beBytes 2 HELLO_SIGNING_TAG.length ++ HELLO_SIGNING_TAG ++ peerId ++ verifyKey ++
    beBytes 8 timestampSecs.toNat ++ nonce

/-! ## Routed frames (main.rs:2536–2579, 2848–2926) -/

/-- `ParsedRouted`. -/
structure ParsedRouted where
  toId : Bytes
  fromId : Bytes
  deriving DecidableEq, Repr

/-- `ParsedBundleRequest`. -/
structure ParsedBundleRequest where
  toId : Bytes
  fromId : Bytes
  hashcashNonce : UInt64
  deriving DecidableEq, Repr

/-- `ParsedSealed`; `sealedOffset` counts from behind the frame-type byte. -/
structure ParsedSealed where
  toId : Bytes
  ttlSeconds : UInt32
  token : Bytes
  sealedOffset : Nat
  deriving DecidableEq, Repr

/-- `read_peer_id`. -/
def readPeerId (c : Bytes) : Except String (Bytes × Bytes) := do
  let (peerId, c) ← Cursor.u16Blob c
  if MAX_PEER_ID_BYTES < peerId.length then .error "peer id exceeds maximum length"
  else .ok (peerId, c)

/-- `parse_routed`. -/
def parseRouted (body : Bytes) : Except String ParsedRouted := do
  let (toId, c) ← readPeerId body
  let (fromId, _) ← readPeerId c
  return { toId, fromId }

/-- `parse_bundle_request`. -/
def parseBundleRequest (body : Bytes) : Except String ParsedBundleRequest := do
  let (toId, c) ← readPeerId body
  let (fromId, c) ← readPeerId c
  let (hashcashNonce, c) ← Cursor.u64 c
  if !c.isEmpty then .error "trailing bytes after BUNDLE_REQUEST"
  else return { toId, fromId, hashcashNonce }

/-- `parse_sealed`. -/
def parseSealed (body : Bytes) : Except String ParsedSealed := do
  let (toId, c) ← readPeerId body
  let (ttlSeconds, c) ← Cursor.u32 c
  let (token, c) ← Cursor.u16Blob c
  return { toId, ttlSeconds, token, sealedOffset := body.length - c.length }

/-- `parse_register_chain`; `selfId` is the id of the connection's HELLO. -/
def parseRegisterChain (body selfId : Bytes) : Except String ChainRegistration :=
  if hself : selfId.length = 33 then do
    let (chainId, c) ← Cursor.takeArray CHAIN_ID_LEN body
    let (root, c) ← Cursor.takeArray CHAIN_VALUE_LEN c
    let (length, c) ← Cursor.u32 c
    if !c.isEmpty then .error "trailing bytes after REGISTER_CHAIN"
    else return { peerId := ⟨selfId, hself⟩, chainId, root, length }
  else .error "HELLO peer_id must be 33 bytes"

/-- `parse_register_push` (main.rs:2928–2959). -/
def parseRegisterPush (body : Bytes) : Except String Bytes := do
  let (token, c) ← Cursor.u16Blob body
  if !c.isEmpty then .error "trailing bytes after REGISTER_PUSH"
  else if token.isEmpty then .error "REGISTER_PUSH with empty token"
  else if token.length < MIN_PUSH_TOKEN_BYTES then
    .error s!"REGISTER_PUSH token too small: {token.length} bytes (min {MIN_PUSH_TOKEN_BYTES})"
  else if MAX_PUSH_TOKEN_BYTES < token.length then
    .error s!"REGISTER_PUSH token too large: {token.length} bytes (max {MAX_PUSH_TOKEN_BYTES})"
  else if token.all (· == 0) || token.all (fun b => some b == token.head?) then
    .error "REGISTER_PUSH token has no entropy"
  else .ok token

/-- An id that was read is no longer than `MAX_PEER_ID_BYTES`. -/
theorem readPeerId_length {c peerId rest : Bytes} (h : readPeerId c = .ok (peerId, rest)) :
    peerId.length ≤ MAX_PEER_ID_BYTES := by
  obtain ⟨⟨blob, rest'⟩, _, h⟩ := bind_eq_ok.mp h
  simp only at h
  by_cases hlong : MAX_PEER_ID_BYTES < blob.length
  · rw [if_pos hlong] at h
    cases h
  · rw [if_neg hlong] at h
    cases h
    exact Nat.le_of_not_lt hlong

/-- Both ids of a routed frame are. -/
theorem parseRouted_length {body : Bytes} {parsed : ParsedRouted}
    (h : parseRouted body = .ok parsed) :
    parsed.toId.length ≤ MAX_PEER_ID_BYTES ∧ parsed.fromId.length ≤ MAX_PEER_ID_BYTES := by
  obtain ⟨⟨toId, c⟩, hto, h⟩ := bind_eq_ok.mp h
  obtain ⟨⟨fromId, c'⟩, hfrom, h⟩ := bind_eq_ok.mp h
  cases h
  exact ⟨readPeerId_length hto, readPeerId_length hfrom⟩

/-- The recipient of a sealed one is. -/
theorem parseSealed_length {body : Bytes} {parsed : ParsedSealed}
    (h : parseSealed body = .ok parsed) : parsed.toId.length ≤ MAX_PEER_ID_BYTES := by
  obtain ⟨⟨toId, c⟩, hto, h⟩ := bind_eq_ok.mp h
  obtain ⟨_, _, h⟩ := bind_eq_ok.mp h
  obtain ⟨_, _, h⟩ := bind_eq_ok.mp h
  cases h
  exact readPeerId_length hto

/-- An id of at most `MAX_PEER_ID_BYTES` bytes is read back. -/
theorem readPeerId_append {peerId : Bytes} (h : peerId.length ≤ MAX_PEER_ID_BYTES) (rest : Bytes) :
    readPeerId (beBytes 2 peerId.length ++ (peerId ++ rest)) = .ok (peerId, rest) := by
  have hlt : peerId.length < 65536 := by
    have : MAX_PEER_ID_BYTES = 64 := rfl
    omega
  unfold readPeerId
  rw [Cursor.u16Blob_append hlt]
  exact if_neg (Nat.not_lt_of_le h)

end Pizzini.Relay
