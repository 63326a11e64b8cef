import Pizzini.Client.RelayFrames
import Pizzini.Relay.FrameParsers

/-!
# Client and relay agree on the routed frames

Encoders and parsers live in two programs and are kept in step by hand. For
each of the seven layouts this module shows that the relay's parser returns the
fields `RelayClient` encoded, and, for the layouts the relay forwards as they
are, that `handleFrame` on the other client finds the sender and the payload.

Each proof has the same two halves: the encoder's output as one right-nested
concatenation of fields, and the readers' lemmas applied to it in order.
-/

namespace Pizzini.Client

open Wire Relay

variable {keys : ClientKeys}

/-! ## What the encoders write -/

theorem lt_of_le_maxPeerId {bs : Bytes} (h : bs.length ≤ MAX_PEER_ID_BYTES) :
    bs.length < 65536 := by
  have : MAX_PEER_ID_BYTES = 64 := rfl
  omega

theorem writeRoutedSealed_eq (frameType : UInt8) {toPeer token : Bytes}
    (hto : toPeer.length < 65536) (htoken : token.length < 65536) (sealedCiphertext : Bytes)
    (ttlSeconds : UInt32) :
    writeRoutedSealed frameType toPeer sealedCiphertext ttlSeconds token =
      some (frameType :: (beBytes 2 toPeer.length ++ (toPeer ++
        (beBytes 4 (min ttlSeconds maxTTLSeconds).toNat ++
          (beBytes 2 token.length ++ (token ++ sealedCiphertext)))))) := by
  unfold writeRoutedSealed
  rw [appendU16Blob_of_lt hto]
  show (appendU16Blob _ token).bind _ = _
  rw [appendU16Blob_of_lt htoken]
  show some _ = some _
  simp only [List.append_assoc, List.cons_append, List.nil_append]

/-- Two ids, and a tail that no prefix bounds. -/
theorem routed_eq (frameType : UInt8) {toPeer fromPeer : Bytes} (hto : toPeer.length < 65536)
    (hfrom : fromPeer.length < 65536) (rest : Bytes) :
    ((appendU16Blob [frameType] toPeer).bind fun payload =>
        (appendU16Blob payload fromPeer).bind fun payload => some (payload ++ rest)) =
      some (frameType :: (beBytes 2 toPeer.length ++ (toPeer ++
        (beBytes 2 fromPeer.length ++ (fromPeer ++ rest))))) := by
  rw [appendU16Blob_of_lt hto]
  show (appendU16Blob _ fromPeer).bind _ = _
  rw [appendU16Blob_of_lt hfrom]
  show some _ = some _
  simp only [List.append_assoc, List.cons_append, List.nil_append]

theorem sendHello_eq {signer : Bytes → Option Bytes} {timestampSecs : UInt64}
    {nonce : FixedBytes helloNonceLen} {signature : Bytes} (hid : keys.myIdentity.length < 65536)
    (hkey : keys.myDeliveryTokenVerifyKey.length < 65536)
    (hsign : signer (keys.helloSigningPayload timestampSecs nonce) = some signature)
    (hsig : signature.length = 64) :
    keys.sendHello signer timestampSecs nonce =
      some (frameTypeHello :: protocolVersion ::
        (beBytes 2 keys.myIdentity.length ++ (keys.myIdentity ++
          (beBytes 2 keys.myDeliveryTokenVerifyKey.length ++ (keys.myDeliveryTokenVerifyKey ++
            (beBytes 8 timestampSecs.toNat ++ (beBytes 2 nonce.1.length ++ (nonce.1 ++
              (beBytes 2 signature.length ++ (signature ++ [])))))))))) := by
  have hnonce : nonce.1.length < 65536 := by
    rw [nonce.2]
    decide
  unfold ClientKeys.sendHello
  rw [hsign]
  show (if signature.length ≠ 64 then none else _) = _
  rw [if_neg (not_not_intro hsig), appendU16Blob_of_lt hid]
  show (appendU16Blob _ keys.myDeliveryTokenVerifyKey).bind _ = _
  rw [appendU16Blob_of_lt hkey]
  show (appendU16Blob _ nonce.1).bind _ = _
  rw [appendU16Blob_of_lt hnonce]
  show appendU16Blob _ signature = _
  rw [appendU16Blob_of_lt (by omega)]
  simp only [List.append_assoc, List.cons_append, List.nil_append, List.append_nil]

/-! ## What the relay reads -/

theorem parseSealed_body {toPeer token : Bytes} (hto : toPeer.length ≤ MAX_PEER_ID_BYTES)
    (htoken : token.length < 65536) (sealedCiphertext : Bytes) (ttlSeconds : UInt32) :
    ∃ parsed, parseSealed (beBytes 2 toPeer.length ++ (toPeer ++ (beBytes 4 ttlSeconds.toNat ++
        (beBytes 2 token.length ++ (token ++ sealedCiphertext))))) = .ok parsed ∧
      parsed.toId = toPeer ∧ parsed.ttlSeconds = ttlSeconds ∧ parsed.token = token ∧
      (beBytes 2 toPeer.length ++ (toPeer ++ (beBytes 4 ttlSeconds.toNat ++
        (beBytes 2 token.length ++ (token ++ sealedCiphertext))))).drop parsed.sealedOffset =
          sealedCiphertext := by
  generalize hbody : beBytes 2 toPeer.length ++ (toPeer ++ (beBytes 4 ttlSeconds.toNat ++
    (beBytes 2 token.length ++ (token ++ sealedCiphertext)))) = body
  refine ⟨⟨toPeer, ttlSeconds, token, body.length - sealedCiphertext.length⟩, ?_, rfl, rfl, rfl, ?_⟩
  · rw [parseSealed, ← hbody]
    simp only [readPeerId_append hto, Cursor.u32_append, Relay.Cursor.u16Blob_append htoken, ok_bind]
    rfl
  · -- the offset is the length of what stands before the sealed bytes
    rw [← List.append_assoc, ← List.append_assoc, ← List.append_assoc, ← List.append_assoc] at hbody
    rw [← hbody]
    exact List.drop_left' (by simp only [List.length_append]; omega)

theorem parseRouted_body {toPeer fromPeer : Bytes} (hto : toPeer.length ≤ MAX_PEER_ID_BYTES)
    (hfrom : fromPeer.length ≤ MAX_PEER_ID_BYTES) (rest : Bytes) :
    parseRouted (beBytes 2 toPeer.length ++ (toPeer ++
        (beBytes 2 fromPeer.length ++ (fromPeer ++ rest)))) =
      .ok { toId := toPeer, fromId := fromPeer } := by
  simp only [parseRouted, readPeerId_append hto, readPeerId_append hfrom, ok_bind]
  rfl

theorem parseBundleRequest_body {toPeer fromPeer : Bytes}
    (hto : toPeer.length ≤ MAX_PEER_ID_BYTES) (hfrom : fromPeer.length ≤ MAX_PEER_ID_BYTES)
    (hashcashNonce : UInt64) :
    parseBundleRequest (beBytes 2 toPeer.length ++ (toPeer ++
        (beBytes 2 fromPeer.length ++ (fromPeer ++ beBytes 8 hashcashNonce.toNat)))) =
      .ok { toId := toPeer, fromId := fromPeer, hashcashNonce } := by
  have hnonce := Cursor.u64_append hashcashNonce []
  rw [List.append_nil] at hnonce
  simp only [parseBundleRequest, readPeerId_append hto, readPeerId_append hfrom, hnonce, ok_bind]
  rfl

theorem parseRegisterChain_body (selfId : FixedBytes 33) (chainID : FixedBytes 16)
    (root : FixedBytes 32) (length : UInt32) :
    parseRegisterChain (chainID.1 ++ (root.1 ++ beBytes 4 length.toNat)) selfId.1 =
      .ok { peerId := selfId, chainId := chainID, root, length } := by
  have hlength := Cursor.u32_append length []
  rw [List.append_nil] at hlength
  have hchain := Cursor.takeArray_append (n := CHAIN_ID_LEN) chainID
  have hroot := Cursor.takeArray_append (n := CHAIN_VALUE_LEN) root
  rw [parseRegisterChain, dif_pos selfId.2]
  simp only [hchain, hroot, hlength, ok_bind]
  rfl

theorem parseHello_body {peerId verifyKey signature : Bytes} (hid : peerId.length < 65536)
    (hkey : verifyKey.length = VERIFY_KEY_LEN) (timestampSecs : UInt64)
    (nonce : FixedBytes HELLO_NONCE_LEN) (hsig : signature.length = HELLO_SIG_LEN) :
    parseHello (PROTOCOL_VERSION :: (beBytes 2 peerId.length ++ (peerId ++
        (beBytes 2 verifyKey.length ++ (verifyKey ++ (beBytes 8 timestampSecs.toNat ++
          (beBytes 2 nonce.1.length ++ (nonce.1 ++
            (beBytes 2 signature.length ++ (signature ++ [])))))))))) =
      .ok { peerId, verifyKey, timestampSecs, nonce, signature } := by
  have hkeyLen : verifyKey.length < 65536 := by
    rw [hkey]
    decide
  have hnonceLen : nonce.1.length < 65536 := by
    rw [nonce.2]
    decide
  have hsigLen : signature.length < 65536 := by
    rw [hsig]
    decide
  rw [parseHello]
  simp only [Relay.Cursor.u8_cons, ok_bind, ne_eq, not_true_eq_false, if_false,
    Relay.Cursor.u16Blob_append hid, Relay.Cursor.u16Blob_append hkeyLen]
  rw [if_neg (not_not_intro hkey)]
  simp only [Cursor.u64_append, ok_bind, Relay.Cursor.u16Blob_append hnonceLen]
  rw [dif_pos nonce.2]
  simp only [ok_bind, Relay.Cursor.u16Blob_append hsigLen]
  rw [if_neg (not_not_intro hsig)]
  rfl

/-! ## What the other client reads -/

theorem handleFrame_sealed {toPeer token : Bytes} (hto : toPeer.length < 65536)
    (htoken : token.length < 65536) (ttlSeconds : UInt32) (sealedCiphertext : Bytes) :
    handleFrame (frameTypeSend :: (beBytes 2 toPeer.length ++ (toPeer ++
        (beBytes 4 ttlSeconds.toNat ++ (beBytes 2 token.length ++ (token ++ sealedCiphertext)))))) =
      some (.didReceiveSealedSend sealedCiphertext) ∧
    handleFrame (frameTypeAck :: (beBytes 2 toPeer.length ++ (toPeer ++
        (beBytes 4 ttlSeconds.toNat ++ (beBytes 2 token.length ++ (token ++ sealedCiphertext)))))) =
      some (.didReceiveAck sealedCiphertext) := by
  have hread : ∀ d : Bytes → Option Delivery,
      ((Cursor.u16Blob (beBytes 2 toPeer.length ++ (toPeer ++ (beBytes 4 ttlSeconds.toNat ++
        (beBytes 2 token.length ++ (token ++ sealedCiphertext)))))).bind fun r =>
          (Cursor.skip 4 r.2).bind fun cursor => (Cursor.u16Blob cursor).bind fun r => d r.2) =
        d sealedCiphertext := by
    intro d
    rw [Cursor.u16Blob_append hto, Option.bind_some, Cursor.skip_append (length_beBytes 4 _),
      Option.bind_some, Cursor.u16Blob_append htoken, Option.bind_some]
  exact ⟨hread fun sealed => some (.didReceiveSealedSend sealed),
    hread fun sealed => some (.didReceiveAck sealed)⟩

/-- The sender and the rest of a frame with two ids. -/
theorem u16Blob_u16Blob {toPeer fromPeer : Bytes} (hto : toPeer.length < 65536)
    (hfrom : fromPeer.length < 65536) (rest : Bytes) (d : Bytes → Bytes → Option Delivery) :
    ((Cursor.u16Blob (beBytes 2 toPeer.length ++ (toPeer ++ (beBytes 2 fromPeer.length ++
        (fromPeer ++ rest))))).bind fun r => (Cursor.u16Blob r.2).bind fun r => d r.1 r.2) =
      d fromPeer rest := by
  rw [Cursor.u16Blob_append hto, Option.bind_some, Cursor.u16Blob_append hfrom, Option.bind_some]

/-! ## The seven layouts -/

/-- Every frame `RelayClient` makes from these keys is read by the relay, and by
the client it is forwarded to, as what it was made from. Times to live are
clamped before they are encoded. -/
structure Agreement (keys : ClientKeys) : Prop where
  hello : ∀ (signer : Bytes → Option Bytes) (timestampSecs : UInt64)
    (nonce : FixedBytes helloNonceLen) (frame : Bytes),
    keys.sendHello signer timestampSecs nonce = some frame →
    ∃ signature, signer (keys.helloSigningPayload timestampSecs nonce) = some signature ∧
      frame.head? = some FRAME_TYPE_HELLO ∧
      parseHello frame.tail = .ok
        { peerId := keys.myIdentity
          verifyKey := keys.myDeliveryTokenVerifyKey
          timestampSecs, nonce, signature } ∧
      beBytes 2 helloSigningTag.length ++ helloSigningTag ++
          keys.helloSigningPayload timestampSecs nonce =
        buildHelloSigningPayload keys.myIdentity keys.myDeliveryTokenVerifyKey timestampSecs nonce.1
  sealedSend : ∀ toPeer sealedCiphertext ttlSeconds token, toPeer.length ≤ MAX_PEER_ID_BYTES →
    token.length ≤ 65535 → ∃ frame parsed,
      sendSealed toPeer sealedCiphertext ttlSeconds token = some frame ∧
      frame.head? = some FRAME_TYPE_SEND ∧ parseSealed frame.tail = .ok parsed ∧
      parsed.toId = toPeer ∧ parsed.ttlSeconds = min ttlSeconds maxTTLSeconds ∧
      parsed.token = token ∧ frame.tail.drop parsed.sealedOffset = sealedCiphertext ∧
      handleFrame frame = some (.didReceiveSealedSend sealedCiphertext)
  ack : ∀ toPeer sealedCiphertext ttlSeconds token, toPeer.length ≤ MAX_PEER_ID_BYTES →
    token.length ≤ 65535 → ∃ frame parsed,
      sendAck toPeer sealedCiphertext ttlSeconds token = some frame ∧
      frame.head? = some FRAME_TYPE_ACK ∧ parseSealed frame.tail = .ok parsed ∧
      parsed.toId = toPeer ∧ parsed.ttlSeconds = min ttlSeconds maxTTLSeconds ∧
      parsed.token = token ∧ frame.tail.drop parsed.sealedOffset = sealedCiphertext ∧
      handleFrame frame = some (.didReceiveAck sealedCiphertext)
  bundleRequest : ∀ toPeer hashcashNonce, toPeer.length ≤ MAX_PEER_ID_BYTES → ∃ frame,
    keys.requestBundle toPeer hashcashNonce = some frame ∧
      frame.head? = some FRAME_TYPE_BUNDLE_REQUEST ∧
      parseBundleRequest frame.tail = .ok
        { toId := toPeer
          fromId := keys.myIdentity
          hashcashNonce } ∧
      handleFrame frame = some (.didReceiveBundleRequest keys.myIdentity)
  bundleResponse : ∀ toPeer bundle, toPeer.length ≤ MAX_PEER_ID_BYTES → ∃ frame,
    keys.sendBundle toPeer bundle = some frame ∧
      frame.head? = some FRAME_TYPE_BUNDLE_RESPONSE ∧
      parseRouted frame.tail = .ok { toId := toPeer, fromId := keys.myIdentity } ∧
      handleFrame frame = some (.didReceiveBundle keys.myIdentity bundle)
  chainSeed : ∀ toPeer sealedCiphertext, toPeer.length ≤ MAX_PEER_ID_BYTES → ∃ frame,
    keys.sendChainSeedFrame toPeer sealedCiphertext = some frame ∧
      frame.head? = some FRAME_TYPE_CHAIN_SEED_DELIVERY ∧
      parseRouted frame.tail = .ok { toId := toPeer, fromId := keys.myIdentity } ∧
      handleFrame frame = some (.didReceiveChainSeed keys.myIdentity sealedCiphertext)
  registerChain : ∀ (chainID : FixedBytes 16) (root : FixedBytes 32) (length : UInt32)
    (hid : keys.myIdentity.length = 33),
    (sendRegisterChain chainID root length).head? = some FRAME_TYPE_REGISTER_CHAIN ∧
      parseRegisterChain (sendRegisterChain chainID root length).tail keys.myIdentity = .ok
        { peerId := ⟨keys.myIdentity, hid⟩
          chainId := chainID
          root, length }

/-- Client and relay agree on every frame of a client whose id is no longer than
the relay's bound and whose verify key has the relay's length. -/
theorem client_relay_agree (keys : ClientKeys) (hid : keys.myIdentity.length ≤ MAX_PEER_ID_BYTES)
    (hkey : keys.myDeliveryTokenVerifyKey.length = VERIFY_KEY_LEN) : Agreement keys where
  hello := by
    intro signer timestampSecs nonce frame hframe
    obtain ⟨signature, hsign, hrest⟩ := Option.bind_eq_some_iff.mp hframe
    have hsig : signature.length = 64 := by
      by_contra hne
      rw [if_pos hne] at hrest
      cases hrest
    have hkeyLen : keys.myDeliveryTokenVerifyKey.length < 65536 := by
      rw [hkey]
      decide
    rw [sendHello_eq (lt_of_le_maxPeerId hid) hkeyLen hsign hsig] at hframe
    cases hframe
    refine ⟨signature, hsign, rfl, ?_, ?_⟩
    · exact parseHello_body (lt_of_le_maxPeerId hid) hkey timestampSecs nonce hsig
    · have htag : helloSigningTag = HELLO_SIGNING_TAG := rfl
      rw [htag, ClientKeys.helloSigningPayload, buildHelloSigningPayload]
      simp only [List.append_assoc]
  sealedSend := by
    intro toPeer sealedCiphertext ttlSeconds token hto htoken
    have htoken' : token.length < 65536 := Nat.lt_succ_of_le htoken
    obtain ⟨parsed, hparse, hfields⟩ := parseSealed_body hto htoken' sealedCiphertext
      (min ttlSeconds maxTTLSeconds)
    refine ⟨_, parsed, writeRoutedSealed_eq frameTypeSend (lt_of_le_maxPeerId hto) htoken' _ _, rfl,
      hparse, hfields.1, hfields.2.1, hfields.2.2.1, hfields.2.2.2, ?_⟩
    exact (handleFrame_sealed (lt_of_le_maxPeerId hto) htoken' _ _).1
  ack := by
    intro toPeer sealedCiphertext ttlSeconds token hto htoken
    have htoken' : token.length < 65536 := Nat.lt_succ_of_le htoken
    obtain ⟨parsed, hparse, hfields⟩ := parseSealed_body hto htoken' sealedCiphertext
      (min ttlSeconds maxTTLSeconds)
    refine ⟨_, parsed, writeRoutedSealed_eq frameTypeAck (lt_of_le_maxPeerId hto) htoken' _ _, rfl,
      hparse, hfields.1, hfields.2.1, hfields.2.2.1, hfields.2.2.2, ?_⟩
    exact (handleFrame_sealed (lt_of_le_maxPeerId hto) htoken' _ _).2
  bundleRequest := by
    intro toPeer hashcashNonce hto
    refine ⟨_, routed_eq frameTypeBundleRequest (lt_of_le_maxPeerId hto) (lt_of_le_maxPeerId hid) _,
      rfl, parseBundleRequest_body hto hid hashcashNonce, ?_⟩
    exact u16Blob_u16Blob (lt_of_le_maxPeerId hto) (lt_of_le_maxPeerId hid) _
      fun sender _ => some (.didReceiveBundleRequest sender)
  bundleResponse := by
    intro toPeer bundle hto
    refine ⟨_, routed_eq frameTypeBundleResponse (lt_of_le_maxPeerId hto) (lt_of_le_maxPeerId hid) _,
      rfl, parseRouted_body hto hid bundle, ?_⟩
    exact u16Blob_u16Blob (lt_of_le_maxPeerId hto) (lt_of_le_maxPeerId hid) _
      fun sender bundle => some (.didReceiveBundle sender bundle)
  chainSeed := by
    intro toPeer sealedCiphertext hto
    refine ⟨_, routed_eq frameTypeChainSeedDelivery (lt_of_le_maxPeerId hto)
      (lt_of_le_maxPeerId hid) _, rfl, parseRouted_body hto hid sealedCiphertext, ?_⟩
    exact u16Blob_u16Blob (lt_of_le_maxPeerId hto) (lt_of_le_maxPeerId hid) _
      fun sender sealed => some (.didReceiveChainSeed sender sealed)
  registerChain := by
    intro chainID root length hself
    refine ⟨rfl, ?_⟩
    have hparse := parseRegisterChain_body ⟨keys.myIdentity, hself⟩ chainID root length
    rw [← List.append_assoc] at hparse
    exact hparse

/-- A client with a real id agrees with the relay on a SEND. -/
theorem client_relay_agree_on_send :
    handleFrame [2, 0, 1, 7, 0, 0, 0, 60, 0, 2, 8, 9, 5] = some (.didReceiveSealedSend [5]) := by
  have hagree := client_relay_agree ⟨List.replicate 33 5, List.replicate 33 6⟩ (by decide) rfl
  obtain ⟨frame, parsed, hframe, -, -, -, -, -, -, hhandle⟩ :=
    hagree.sealedSend [7] [5] 60 [8, 9] (by decide) (by decide)
  cases (show some [2, 0, 1, 7, 0, 0, 0, 60, 0, 2, 8, 9, 5] = some frame from hframe)
  exact hhandle

/-- The relay refuses a HELLO with a verify key of 32 bytes, and a REGISTER_CHAIN
on a connection whose HELLO had an id of 32 bytes. -/
theorem client_relay_disagree_on_short_keys :
    ((ClientKeys.sendHello ⟨List.replicate 33 5, List.replicate 32 6⟩
        (fun _ => some (List.replicate 64 9)) 1 (FixedBytes.replicate 16 0)).map
          fun frame => parseHello frame.tail) =
        some (.error "verify_key must be 33 bytes, got 32") ∧
      parseRegisterChain
          (sendRegisterChain (FixedBytes.replicate 16 1) (FixedBytes.replicate 32 2) 3).tail
          (List.replicate 32 5) =
        .error "HELLO peer_id must be 33 bytes" := by
  constructor
  · decide +kernel
  · rfl

end Pizzini.Client
