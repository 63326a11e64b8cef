import Mathlib.Data.List.Sort
import Mathlib.Logic.Function.Basic
import Pizzini.Chat.RowStatus
import Pizzini.Delivery.TokenOrder
import Pizzini.Lib.Runs

/-!
# Tokens, outbox rows and relays (every path that mints a delivery token)

A frame to a contact takes the next index off the contact's outbound chain
(`mintV2DeliveryToken`), is sealed, and is handed to the relays that are ready. Texts,
chunks and group legs also have a row in the outbox, from which the retry walk and the user
send the same bytes again, each time with a new token. `Outbound.step` is one call of one of
these paths.

- What the code asks of its environment is in the event: whether `encryptSealed` and
  `persistSession` succeed, and how many relays are ready (`Attempt`).
- `Outbound.carried` is history: the frames that at least one relay took.
- The paths run on the main actor without a suspension; the delay of a group leg is the only
  one, and `releaseLeg` is its end.
- Calls that a guard turns away before a token is minted do nothing, and are left out.
-/

namespace Pizzini.Delivery

open Wire Relay Chat
open Pizzini.Attachments (AttachmentId)

/-! ## Chains on the wire -/

/-- `HashChainToken.decodeChain` (HashChainToken.swift:96–129):
`chainID(16) ‖ seed(32) ‖ root(32) ‖ length(4 BE) ‖ nextIndex(4 BE)`. -/
def decodeChain (wire : Bytes) : Option Chain :=
  if h : wire.length = 88 then
    let length := beNat ((wire.drop 80).take 4)
    let nextIndex := beNat (wire.drop 84)
    if 0 < length ∧ 1 ≤ nextIndex ∧ nextIndex ≤ length + 1 then
      some
        { chainID := ⟨wire.take CHAIN_ID_LEN, by rw [List.length_take, h]; rfl⟩
          seed := ⟨(wire.drop 16).take CHAIN_VALUE_LEN, by
            rw [List.length_take, List.length_drop, h]; rfl⟩
          root := ⟨(wire.drop 48).take CHAIN_VALUE_LEN, by
            rw [List.length_take, List.length_drop, h]; rfl⟩
          length := length
          nextIndex := nextIndex }
    else none
  else none

/-- `HashChainToken.decodeSeedDelivery`: only an unused chain is taken. -/
def decodeSeedDelivery (wire : Bytes) : Option Chain :=
  (decodeChain wire).filter fun chain => chain.nextIndex = 1

/-! ## State -/

/-- What one frame meets on its way. -/
structure Attempt where
  /-- `makeMessageId()` -/
  messageId : Bytes
  /-- `encryptSealed` does not throw -/
  encrypts : Bool
  /-- `persistSession()` -/
  persists : Bool
  /-- how many relays are ready when the frame is handed over -/
  ready : Nat

/-- `LegContext` of `sendGroupMessage`: a leg in its delay. Its token is kept decoded. -/
structure LegContext where
  messageId : Bytes
  recipient : Bytes
  sealed : Sealed
  token : Token
deriving DecidableEq

/-- A frame that a relay took, with the base token it went out with. -/
structure Carried where
  peer : Bytes
  token : Token
  frame : Sealed
deriving DecidableEq

/-- The client's side of its delivery chains. -/
structure Outbound where
  now : Int
  /-- `outboundTokenChain` of each contact; `none` also for a peer who is no contact -/
  chain : Bytes → Option Chain
  outbox : Outbox
  legs : List LegContext
  carried : List Carried

/-- No chain, no row, nothing sent. -/
def Outbound.start (now : Int) : Outbound where
  now := now
  chain := fun _ => none
  outbox := ∅
  legs := []
  carried := []

namespace Outbound

section Tokens

variable (blake3 : Bytes → ChainValue) (d : Outbound) (peer : Bytes)

/-- `mintV2DeliveryToken` (ChatStore.swift:2878). -/
def mintV2DeliveryToken : Option (Token × Outbound) :=
  match d.chain peer with
  | none => none
  | some chain =>
    match nextToken blake3 chain with
    | none => none
    | some (token, chain) =>
      some (token, { d with chain := Function.update d.chain peer (some chain) })

/-- `rollbackV2DeliveryToken` (ChatStore.swift:2913). -/
def rollbackV2DeliveryToken (mintedIndex : Nat) : Outbound :=
  match d.chain peer with
  | none => d
  | some chain =>
    { d with
      chain := Function.update d.chain peer
        (some (Delivery.rollbackV2DeliveryToken chain mintedIndex)) }

/-- The tokens a contact's chain has left; none without a chain. -/
def remaining : Nat :=
  match d.chain peer with
  | none => 0
  | some chain => chain.length - (chain.nextIndex - 1)

end Tokens

/-- `sendSealedToRelays` (ChatStore.swift:1509), also `sendAckToRelays`: `ready` relays take
the frame, each with the token scoped to it. -/
def sendSealedToRelays (d : Outbound) (peer : Bytes) (frame : Sealed) (token : Token)
    (ready : Nat) : Outbound :=
  if 0 < ready then { d with carried := d.carried ++ [⟨peer, token, frame⟩] } else d

/-- `outbox.entries[entry.messageId] = entry`. -/
def store (d : Outbound) (entry : OutboxEntry) : Outbound :=
  { d with outbox := d.outbox.insert entry.messageId entry }

/-- The row of a new frame. -/
def newEntry (d : Outbound) (frame : Sealed) (token : Token) (ttl : Int) : OutboxEntry where
  messageId := frame.messageId
  recipientPeerId := frame.recipient
  sealedCiphertext := frame
  token := encode token
  ttl := ttl
  sentAt := d.now

/-- A frame with a row is handed over: the row is stamped if a relay took the frame. -/
def handOver (d : Outbound) (entry : OutboxEntry) (token : Token) (ready : Nat) : Outbound :=
  (d.sendSealedToRelays entry.recipientPeerId entry.sealedCiphertext token ready).store
    (if 0 < ready then entry.relayed d.now else entry)

variable (blake3 : Bytes → ChainValue) (me : Bytes)

/-- `encryptSealed(peer:messageId:plaintext:)` on an inner envelope. -/
def encryptSealed (peer messageId : Bytes) (kind : InnerEnvelopeKind) (body : Bytes) : Sealed where
  sender := me
  recipient := peer
  messageId := messageId
  plaintext := kind.rawValue :: body

/-! ## Frames with a row -/

/-- `sendV2` (ChatStore.swift:2306). The row is also written before `persistSession`; the
write here is the last. -/
def sendV2 (d : Outbound) (peer : Bytes) (ttl : Int) (text : Bytes) (token : Token)
    (a : Attempt) : Outbound :=
  if a.encrypts then
    let entry := d.newEntry (encryptSealed me peer a.messageId .chat text) token ttl
    if a.persists then d.handOver entry token a.ready
    else d.store { entry with failedAt := some d.now }
  else d.rollbackV2DeliveryToken peer token.index

/-- `send(_:to:)` (ChatStore.swift:2267); without a token the text is queued. -/
def send (d : Outbound) (peer : Bytes) (ttl : Int) (text : Bytes) (a : Attempt) : Outbound :=
  match d.mintV2DeliveryToken blake3 peer with
  | none => d
  | some (token, d) => d.sendV2 me peer ttl text token a

/-- The chunks of `shipPreparedAttachment` from number `i` on. The token is minted after the
seal, and a failure ends the loop. -/
def shipChunks (peer : Bytes) (ttl : Int) (attachmentId : AttachmentId) (chunkCount : Nat) :
    Nat → Outbound → List (Bytes × Attempt) → Outbound
  | _, d, [] => d
  | i, d, (body, a) :: chunks =>
    if a.encrypts then
      match d.mintV2DeliveryToken blake3 peer with
      | none => d
      | some (token, d) =>
        let entry : OutboxEntry :=
          { d.newEntry (encryptSealed me peer a.messageId .fileChunk body) token ttl with
            attachmentId := some attachmentId
            chunkIndex := some i
            chunkCount := some chunkCount }
        if a.persists then
          shipChunks peer ttl attachmentId chunkCount (i + 1) (d.handOver entry token a.ready)
            chunks
        else d.store { entry with failedAt := some d.now }
    else d

/-- `shipPreparedAttachment` (ChatStore.swift:2583), with the chunks' envelopes. It starts only
if the chain has a token for every chunk. -/
def shipPreparedAttachment (d : Outbound) (peer : Bytes) (ttl : Int)
    (attachmentId : AttachmentId) (chunks : List (Bytes × Attempt)) : Outbound :=
  if d.remaining peer < chunks.length then d
  else d.shipChunks blake3 me peer ttl attachmentId chunks.length 0 chunks

/-- One member's leg of a group frame. -/
structure GroupLeg where
  recipient : Bytes
  ttl : Int
  attempt : Attempt

/-- One turn of the fan-out of `sendGroupMessage`: the leg has its row and waits. -/
def holdLeg (groupMessageId body : Bytes) (d : Outbound) (l : GroupLeg) : Outbound :=
  match d.mintV2DeliveryToken blake3 l.recipient with
  | none => d
  | some (token, d) =>
    if l.attempt.encrypts then
      let frame := encryptSealed me l.recipient l.attempt.messageId .groupChat body
      { d.store { d.newEntry frame token l.ttl with groupMessageId := some groupMessageId } with
        legs := d.legs ++ [⟨l.attempt.messageId, l.recipient, frame, token⟩] }
    else d

/-- `sendGroupMessage` (ChatStoreGroups.swift:579), from the fan-out on. -/
def sendGroupMessage (d : Outbound) (groupMessageId body : Bytes) (legs : List GroupLeg) :
    Outbound :=
  legs.foldl (holdLeg blake3 me groupMessageId body) d

/-- The delay of a leg is over (ChatStoreGroups.swift:707). -/
def releaseLeg (d : Outbound) (index ready : Nat) : Outbound :=
  match d.legs[index]? with
  | none => d
  | some leg =>
    let d := { d with legs := d.legs.eraseIdx index }
    let sent := d.sendSealedToRelays leg.recipient leg.sealed leg.token ready
    if 0 < ready then
      match d.outbox.lookup leg.messageId with
      | none => sent
      | some entry => { sent with outbox := sent.outbox.insert leg.messageId (entry.relayed d.now) }
    else sent

/-- One turn of the two loops of `shipPreparedGroupAttachment`: a chunk to a member. -/
structure ChunkTurn where
  body : Bytes
  chunkIndex : Nat
  leg : GroupLeg

/-- The turns of the two loops: every chunk to every recipient. -/
def chunkTurns (chunks : List (Bytes × List GroupLeg)) : List ChunkTurn :=
  chunks.zipIdx.flatMap fun (chunk, i) => chunk.2.map fun l => ⟨chunk.1, i, l⟩

/-- One turn. -/
def shipGroupChunk (groupMessageId : Bytes) (attachmentId : AttachmentId) (chunkCount : Nat)
    (d : Outbound) (turn : ChunkTurn) : Outbound :=
  match d.mintV2DeliveryToken blake3 turn.leg.recipient with
  | none => d
  | some (token, d) =>
    if turn.leg.attempt.encrypts then
      let frame := encryptSealed me turn.leg.recipient turn.leg.attempt.messageId .groupFileChunk
        turn.body
      d.handOver
        { d.newEntry frame token turn.leg.ttl with
          attachmentId := some attachmentId
          chunkIndex := some turn.chunkIndex
          chunkCount := some chunkCount
          groupMessageId := some groupMessageId }
        token turn.leg.attempt.ready
    else d

/-- `shipPreparedGroupAttachment` (ChatStoreGroups.swift:920), on the chunks up to the first
whose `groupEncrypt` fails. -/
def shipPreparedGroupAttachment (d : Outbound) (groupMessageId : Bytes)
    (attachmentId : AttachmentId) (chunkCount : Nat) (chunks : List (Bytes × List GroupLeg)) :
    Outbound :=
  (chunkTurns chunks).foldl (shipGroupChunk blake3 me groupMessageId attachmentId chunkCount) d

/-! ## Frames without a row -/

/-- The body that `emitAck` and `emitReadReceipt` share: no frame on the wire, no index. -/
def emit (d : Outbound) (peer : Bytes) (kind : InnerEnvelopeKind) (body : Bytes) (a : Attempt) :
    Outbound :=
  match d.mintV2DeliveryToken blake3 peer with
  | none => d
  | some (token, d) =>
    if a.encrypts ∧ a.persists then
      let sent := d.sendSealedToRelays peer (encryptSealed me peer a.messageId kind body) token
        a.ready
      if a.ready = 0 then sent.rollbackV2DeliveryToken peer token.index else sent
    else d.rollbackV2DeliveryToken peer token.index

/-- `emitAck` (ChatStore.swift:4830). -/
def emitAck (d : Outbound) (peer acked : Bytes) (a : Attempt) : Outbound :=
  d.emit blake3 me peer .ack acked a

/-- `emitReadReceipt` (ChatStore.swift:3365). -/
def emitReadReceipt (d : Outbound) (peer highest : Bytes) (a : Attempt) : Outbound :=
  d.emit blake3 me peer .readReceipt highest a

/-- `sendChainRefreshRequest` (ChatStore.swift:3022). -/
def sendChainRefreshRequest (d : Outbound) (peer : Bytes) (a : Attempt) : Outbound :=
  match d.mintV2DeliveryToken blake3 peer with
  | none => d
  | some (token, d) =>
    if a.encrypts then
      if a.persists then
        d.sendSealedToRelays peer (encryptSealed me peer a.messageId .chainRefreshRequest []) token
          a.ready
      else d
    else d

/-- The body of the three group broadcasts. -/
def broadcast (d : Outbound) (peer : Bytes) (kind : InnerEnvelopeKind) (body : Bytes)
    (a : Attempt) : Outbound :=
  match d.mintV2DeliveryToken blake3 peer with
  | none => d
  | some (token, d) =>
    if a.encrypts then
      d.sendSealedToRelays peer (encryptSealed me peer a.messageId kind body) token a.ready
    else d

/-- `broadcastGroupOp` (ChatStoreGroups.swift:2191). -/
def broadcastGroupOp (d : Outbound) (peer signedBytes : Bytes) (a : Attempt) : Outbound :=
  d.broadcast blake3 me peer .groupOp signedBytes a

/-- `broadcastSenderKeyDistribution` (ChatStoreGroups.swift:2229), with its encoded body. -/
def broadcastSenderKeyDistribution (d : Outbound) (peer body : Bytes) (a : Attempt) : Outbound :=
  d.broadcast blake3 me peer .groupKeyDistribution body a

/-- `broadcastGroupBootstrap` (ChatStoreGroups.swift:2274), with its encoded body. -/
def broadcastGroupBootstrap (d : Outbound) (peer body : Bytes) (a : Attempt) : Outbound :=
  d.broadcast blake3 me peer .groupBootstrap body a

/-! ## Rows that are there -/

/-- `retryableEntries(now:)` (Outbox.swift:383): oldest first. -/
def retryableEntries (outbox : Outbox) (now : Int) : List OutboxEntry :=
  ((outbox.entries.map fun e => e.2).filter fun e => e.shouldRetry now).insertionSort
    fun e e' => e.sentAt ≤ e'.sentAt

/-- One turn of the retry loop of `runRetryWalk`. -/
def resend (d : Outbound) (entry : OutboxEntry) (ready : Nat) : Outbound :=
  match d.mintV2DeliveryToken blake3 entry.recipientPeerId with
  | none => d
  | some (token, d) =>
    let sent := d.sendSealedToRelays entry.recipientPeerId entry.sealedCiphertext token ready
    if 0 < ready then sent.store { entry with retries := entry.retries + 1 }
    else sent.rollbackV2DeliveryToken entry.recipientPeerId token.index

/-- Part 1 of `runRetryWalk`: what is past its time has failed. -/
def expire (d : Outbound) : Outbound :=
  { d with
    outbox := d.outbox.mapVals fun e =>
      if e.hasExpired d.now then { e with failedAt := some d.now } else e }

/-- Part 3 of `runRetryWalk`: what ended more than 24 hours ago is dropped. -/
def collect (d : Outbound) : Outbound :=
  { d with outbox := d.outbox.retain fun _ e => !Outbox.outlived d.now e }

/-- `runRetryWalk` on the outbox (ChatStore.swift:4729–4791). `connected` is `relayState`;
`ready` says how many relays are ready at an entry's turn. -/
def runRetryWalk (d : Outbound) (connected : Bool) (ready : Bytes → Nat) : Outbound :=
  let d := d.expire
  let d := if connected then
      (retryableEntries d.outbox d.now).foldl (fun d e => d.resend blake3 e (ready e.messageId)) d
    else d
  d.collect

/-- `userRetry(messageId:)` (ChatStore.swift:861). -/
def userRetry (d : Outbound) (messageId : Bytes) (connected : Bool) (ready : Nat) : Outbound :=
  match d.outbox.lookup messageId with
  | none => d
  | some entry =>
    if entry.deliveredAt.isNone ∧ entry.failedAt.isNone ∧ entry.relayedAt.isNone ∧ connected then
      match d.mintV2DeliveryToken blake3 entry.recipientPeerId with
      | none => d
      | some (token, d) =>
        let sent := d.sendSealedToRelays entry.recipientPeerId entry.sealedCiphertext token ready
        let entry := { entry with retries := entry.retries + 1 }
        { sent with
          outbox := sent.outbox.insert messageId
            (if 0 < ready then entry.relayed d.now else entry) }
    else d

/-- `userRetryAttachment(attachmentId:)` (ChatStore.swift:955). -/
def userRetryAttachment (d : Outbound) (attachmentId : AttachmentId) (connected : Bool)
    (ready : Bytes → Nat) : Outbound :=
  let stuck := (d.outbox.chunksOf attachmentId).filter fun e =>
    e.deliveredAt.isNone && e.failedAt.isNone && e.relayedAt.isNone
  stuck.foldl (fun d e => d.userRetry blake3 e.messageId connected (ready e.messageId)) d

/-- `userTryAgainExpired(messageId:)` (ChatStore.swift:913) drops the row; the `send` that
follows is a step of its own. -/
def userTryAgainExpired (d : Outbound) (messageId : Bytes) : Outbound :=
  match d.outbox.lookup messageId with
  | none => d
  | some entry =>
    if (entry.failedAt.isSome ∨ entry.hasExpired d.now) ∧ entry.relayedAt.isNone then
      { d with outbox := d.outbox.erase messageId }
    else d

/-- `handleAckPayload` (ChatStore.swift:4692). -/
def handleAckPayload (d : Outbound) (payload fromPeer : Bytes) : Outbound :=
  { d with outbox := d.outbox.acknowledge payload fromPeer d.now }

/-- `handleReadReceiptPayload` on the outbox (ChatStore.swift:4676). -/
def handleReadReceiptPayload (d : Outbound) (peer : Bytes) (cutoff : Int) : Outbound :=
  { d with outbox := d.outbox.stampLegs peer cutoff d.now }

/-- `handleChainSeedDelivery` (ChatStore.swift:2969); the drained sends are steps of their
own. -/
def handleChainSeedDelivery (d : Outbound) (peer payload : Bytes) : Outbound :=
  match decodeSeedDelivery payload with
  | none => d
  | some chain => { d with chain := Function.update d.chain peer (some chain) }

/-! ## Runs -/

/-- What happens next. -/
inductive Event where
  | send (peer : Bytes) (ttl : Int) (text : Bytes) (a : Attempt)
  | shipPreparedAttachment (peer : Bytes) (ttl : Int) (attachmentId : AttachmentId)
      (chunks : List (Bytes × Attempt))
  | sendGroupMessage (groupMessageId body : Bytes) (legs : List GroupLeg)
  | releaseLeg (index ready : Nat)
  | shipPreparedGroupAttachment (groupMessageId : Bytes) (attachmentId : AttachmentId)
      (chunkCount : Nat) (chunks : List (Bytes × List GroupLeg))
  | emitAck (peer acked : Bytes) (a : Attempt)
  | emitReadReceipt (peer highest : Bytes) (a : Attempt)
  | sendChainRefreshRequest (peer : Bytes) (a : Attempt)
  | broadcastGroupOp (peer signedBytes : Bytes) (a : Attempt)
  | broadcastSenderKeyDistribution (peer body : Bytes) (a : Attempt)
  | broadcastGroupBootstrap (peer body : Bytes) (a : Attempt)
  | runRetryWalk (connected : Bool) (ready : Bytes → Nat)
  | userRetry (messageId : Bytes) (connected : Bool) (ready : Nat)
  | userRetryAttachment (attachmentId : AttachmentId) (connected : Bool) (ready : Bytes → Nat)
  | userTryAgainExpired (messageId : Bytes)
  | handleAckPayload (payload fromPeer : Bytes)
  | handleReadReceiptPayload (peer : Bytes) (cutoff : Int)
  | handleChainSeedDelivery (peer payload : Bytes)
  /-- time passes -/
  | tick (seconds : Nat)

/-- One event. -/
def step (d : Outbound) : Event → Outbound
  | .send peer ttl text a => d.send blake3 me peer ttl text a
  | .shipPreparedAttachment peer ttl attachmentId chunks =>
    d.shipPreparedAttachment blake3 me peer ttl attachmentId chunks
  | .sendGroupMessage groupMessageId body legs =>
    d.sendGroupMessage blake3 me groupMessageId body legs
  | .releaseLeg index ready => d.releaseLeg index ready
  | .shipPreparedGroupAttachment groupMessageId attachmentId chunkCount chunks =>
    d.shipPreparedGroupAttachment blake3 me groupMessageId attachmentId chunkCount chunks
  | .emitAck peer acked a => d.emitAck blake3 me peer acked a
  | .emitReadReceipt peer highest a => d.emitReadReceipt blake3 me peer highest a
  | .sendChainRefreshRequest peer a => d.sendChainRefreshRequest blake3 me peer a
  | .broadcastGroupOp peer signedBytes a => d.broadcastGroupOp blake3 me peer signedBytes a
  | .broadcastSenderKeyDistribution peer body a =>
    d.broadcastSenderKeyDistribution blake3 me peer body a
  | .broadcastGroupBootstrap peer body a => d.broadcastGroupBootstrap blake3 me peer body a
  | .runRetryWalk connected ready => d.runRetryWalk blake3 connected ready
  | .userRetry messageId connected ready => d.userRetry blake3 messageId connected ready
  | .userRetryAttachment attachmentId connected ready =>
    d.userRetryAttachment blake3 attachmentId connected ready
  | .userTryAgainExpired messageId => d.userTryAgainExpired messageId
  | .handleAckPayload payload fromPeer => d.handleAckPayload payload fromPeer
  | .handleReadReceiptPayload peer cutoff => d.handleReadReceiptPayload peer cutoff
  | .handleChainSeedDelivery peer payload => d.handleChainSeedDelivery peer payload
  | .tick seconds => { d with now := d.now + seconds }

/-- The message ids an event draws. -/
def Event.ids : Event → List Bytes
  | .send _ _ _ a | .emitAck _ _ a | .emitReadReceipt _ _ a | .sendChainRefreshRequest _ a
  | .broadcastGroupOp _ _ a | .broadcastSenderKeyDistribution _ _ a
  | .broadcastGroupBootstrap _ _ a => [a.messageId]
  | .shipPreparedAttachment _ _ _ chunks => chunks.map fun c => c.2.messageId
  | .sendGroupMessage _ _ legs => legs.map fun l => l.attempt.messageId
  | .shipPreparedGroupAttachment _ _ _ chunks =>
    (chunkTurns chunks).map fun turn => turn.leg.attempt.messageId
  | _ => []

/-- A message id that is on no row, no waiting leg and no frame sent. -/
structure Unused (d : Outbound) (id : Bytes) : Prop where
  row : d.outbox.lookup id = none
  leg : ∀ leg ∈ d.legs, leg.messageId ≠ id
  frame : ∀ x ∈ d.carried, x.frame.messageId ≠ id

/-- A chain id under which no token has gone or will go to the peer. -/
structure UnusedChain (d : Outbound) (peer : Bytes) (chainID : ChainId) : Prop where
  leg : ∀ leg ∈ d.legs, leg.recipient = peer → leg.token.chainID ≠ chainID
  frame : ∀ x ∈ d.carried, x.peer = peer → x.token.chainID ≠ chainID

/-- Drawn at random, 16 bytes are new: the ids of messages, and the id that a peer's
`mintChain` gives a chain. -/
structure Drawn (d : Outbound) (ev : Event) : Prop where
  nodup : ev.ids.Nodup
  unused : ∀ id ∈ ev.ids, d.Unused id
  chain : ∀ peer payload chain, ev = .handleChainSeedDelivery peer payload →
    decodeSeedDelivery payload = some chain → d.UnusedChain peer chain.chainID

/-- One event whose random ids are new. -/
def Steps (d : Outbound) (ev : Event) (d' : Outbound) : Prop :=
  d.Drawn ev ∧ d.step blake3 me ev = d'

/-- Runs whose steps meet `ok`. -/
def Reaches (ok : Outbound → Event → Prop) : Outbound → Outbound → Prop :=
  Runs.Reach (Steps blake3 me) ok

end Outbound

end Pizzini.Delivery
