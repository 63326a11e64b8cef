import Mathlib.Logic.Function.Basic
import Pizzini.Attachments.FileChunkEnvelope
import Pizzini.Group.ChatGroup
import Pizzini.Storage.CString

/-!
# Conversations and the outbox (`Models.swift`, `Outbox.swift`, `SQLiteStorage.swift:630`)

`Chats` is what a client holds of its conversations: the rows of each in memory, and the
table `messages` on disk. A row comes to the table by a call of its own, apart from its
append in memory; saving the contact or the group saves no rows. A write that throws is
logged and forgotten (`Storage.swift:335`): the row is then in memory only, or on disk only,
or on disk as it was. The texts of a row that is written are bound as C strings (`saved`).

`OutboxEntry` is the record of one sealed send, a text or a chunk to one peer. Its status
comes from four dates, and the retry walk, the acknowledgement and the read receipt each
set one of them.

- A `UUID()` is the next number of the supply `nextId`: it is drawn when the row is built.
- Instants are whole seconds, as in the reassembler.
- Sealing is ideal: a sealed frame is the sender, the recipient and the plaintext under the
  message id that its sender drew.
-/

namespace Pizzini.Chat

open Wire
open Pizzini.Group (ChatMessageKind UUID)
open Pizzini.Attachments (AttachmentId)
open Pizzini.Storage (cString)

/-! ## Rows -/

/-- `ChatBubbleSide`. -/
inductive ChatBubbleSide where
  | me
  | peer
deriving DecidableEq, Repr

/-- `AttachmentInfo`, less the rendering tier. -/
structure AttachmentInfo where
  attachmentId : AttachmentId
  filename : String
  byteSize : Nat
  mime : String
  /-- The directory's id and the name in it. -/
  sandboxRelativePath : Option (AttachmentId × String)
  isInbound : Bool
deriving DecidableEq

/-- `PersistedMessage` (Models.swift:44). -/
structure PersistedMessage where
  /-- Drawn when the row is appended. -/
  id : Nat := 0
  side : ChatBubbleSide
  text : String
  kind : ChatMessageKind
  bytes : Nat
  timestamp : Int
  messageId : Option Bytes := none
  readAt : Option Int := none
  attachment : Option AttachmentInfo := none
  senderPeerId : Option Bytes := none
  groupMessageId : Option Bytes := none
deriving DecidableEq

/-- The texts that the table keeps of an attachment. -/
def AttachmentInfo.saved (a : AttachmentInfo) : AttachmentInfo :=
  { a with
    filename := cString a.filename
    mime := cString a.mime
    sandboxRelativePath := a.sandboxRelativePath.map fun path => (path.1, cString path.2) }

@[simp] theorem AttachmentInfo.saved_saved (a : AttachmentInfo) : a.saved.saved = a.saved := by
  simp [saved, Function.comp_def]

/-- The row that the table keeps of a row. -/
def PersistedMessage.saved (m : PersistedMessage) : PersistedMessage :=
  { m with
    text := cString m.text
    attachment := m.attachment.map AttachmentInfo.saved }

namespace PersistedMessage

variable (m : PersistedMessage)

@[simp] theorem saved_text : m.saved.text = cString m.text := rfl

@[simp] theorem saved_saved : m.saved.saved = m.saved := by
  simp [saved, Function.comp_def]

end PersistedMessage

/-- A conversation, by the peer's identity or by the group's id (`ActiveSurface`). -/
inductive Surface where
  | oneOnOne (peerIdentity : Bytes)
  | group (groupId : Bytes)
deriving DecidableEq

/-! ## Conversations in memory and on disk -/

/-- The logs in memory, and the table `messages` with the owner of each row. -/
structure Chats where
  log : Surface → List PersistedMessage
  messages : Dict Nat (Surface × PersistedMessage)
  nextId : Nat
  /-- which of the writes throw: the disk is full, or the row's contact or group is not stored -/
  throws : Nat → Bool
  /-- the number of writes so far -/
  writes : Nat
  /-- the rows that a write should have changed and did not -/
  unwritten : List Nat

namespace Chats

variable (x : Chats) (s : Surface) (m : PersistedMessage)

/-- No conversations. -/
def start (throws : Nat → Bool) : Chats := ⟨fun _ => [], ∅, 0, throws, 0, []⟩

/-- `log.append(row)`: the row is in memory only. -/
def append : Chats :=
  { x with
    log := Function.update x.log s (x.log s ++ [{ m with id := x.nextId }])
    nextId := x.nextId + 1 }

/-- `upsertMessage(_:owner:)` (SQLiteStorage.swift:703): a row that is there keeps its owner. -/
def upsertMessage : Chats :=
  if x.throws x.writes then
    { x with
      writes := x.writes + 1
      unwritten := m.id :: x.unwritten }
  else
    { x with
      writes := x.writes + 1
      messages :=
        x.messages.insert m.id (((x.messages.lookup m.id).map Prod.fst).getD s, m.saved) }

/-- `log.append(row)`, then `appendContactMessage` or `appendGroupMessage`. -/
def add : Chats := (x.append s m).upsertMessage s { m with id := x.nextId }

/-- A change of some rows of a log, each saved by `updateContactMessage`. -/
def updateWhere (touched : PersistedMessage → Bool) (f : PersistedMessage → PersistedMessage) :
    Chats :=
  let rows := (x.log s).map fun m => if touched m then f m else m
  (((x.log s).filter touched).map f).foldl (fun x m => x.upsertMessage s m)
    { x with log := Function.update x.log s rows }

/-- The rows of a conversation on disk (`loadMessages`). -/
def stored (m : PersistedMessage) : Prop := x.messages.lookup m.id = some (s, m)

end Chats

/-! ## Sealed frames -/

/-- `RelayClient.InnerEnvelopeKind` (RelayClient.swift:130). -/
inductive InnerEnvelopeKind where
  | chat
  | ack
  | readReceipt
  | fileChunk
  | groupChat
  | groupKeyDistribution
  | groupOp
  | groupBootstrap
  | groupFileChunk
  | chainSeedDelivery
  | chainRefreshRequest
deriving DecidableEq, Repr

/-- `rawValue`. -/
def InnerEnvelopeKind.rawValue : InnerEnvelopeKind → UInt8
  | .chat => 0x01
  | .ack => 0x02
  | .readReceipt => 0x04
  | .fileChunk => 0x05
  | .groupChat => 0x06
  | .groupKeyDistribution => 0x07
  | .groupOp => 0x08
  | .groupBootstrap => 0x09
  | .groupFileChunk => 0x0A
  | .chainSeedDelivery => 0x0B
  | .chainRefreshRequest => 0x0C

/-- `InnerEnvelopeKind(rawValue:)`. -/
def InnerEnvelopeKind.ofRawValue (b : UInt8) : Option InnerEnvelopeKind :=
  [.chat, .ack, .readReceipt, .fileChunk, .groupChat, .groupKeyDistribution, .groupOp,
    .groupBootstrap, .groupFileChunk, .chainSeedDelivery, .chainRefreshRequest].find?
    fun kind => kind.rawValue = b

@[simp] theorem InnerEnvelopeKind.ofRawValue_rawValue (kind : InnerEnvelopeKind) :
    ofRawValue kind.rawValue = some kind := by
  cases kind <;> rfl

/-- What `encryptSealed(peer:messageId:plaintext:)` makes. -/
structure Sealed where
  sender : Bytes
  recipient : Bytes
  messageId : Bytes
  plaintext : Bytes
deriving DecidableEq

/-! ## Outbox entries -/

/-- `OutboxEntry` (Outbox.swift:14). -/
structure OutboxEntry where
  messageId : Bytes
  recipientPeerId : Bytes
  sealedCiphertext : Sealed
  token : Bytes
  ttl : Int
  sentAt : Int
  retries : Nat := 0
  deliveredAt : Option Int := none
  failedAt : Option Int := none
  relayedAt : Option Int := none
  attachmentId : Option AttachmentId := none
  chunkIndex : Option Nat := none
  chunkCount : Option Nat := none
  groupMessageId : Option Bytes := none
  readAt : Option Int := none
deriving DecidableEq

/-- `OutboxEntry.Status`. -/
inductive Status where
  | pending
  | relayed
  | delivered
  | failed
deriving DecidableEq, Repr

namespace OutboxEntry

/-- `maxRetries`. -/
def maxRetries : Nat := 10

/-- `status` (Outbox.swift:142). -/
def status (e : OutboxEntry) : Status :=
  if e.deliveredAt.isSome then .delivered
  else if e.failedAt.isSome then .failed
  else if e.relayedAt.isSome then .relayed
  else .pending

/-- `shouldRetry(now:)` (Outbox.swift:168). -/
def shouldRetry (e : OutboxEntry) (now : Int) : Bool :=
  e.deliveredAt.isNone && e.failedAt.isNone && e.relayedAt.isNone && e.retries < maxRetries &&
    max 30 (e.retries * 60 : Int) < now - e.sentAt

/-- `hasExpired(now:)` (Outbox.swift:180). -/
def hasExpired (e : OutboxEntry) (now : Int) : Bool :=
  e.deliveredAt.isNone && e.failedAt.isNone && e.ttl < now - e.sentAt

/-- The stamps of a frame that a relay took; the token is scrubbed. -/
def relayed (e : OutboxEntry) (now : Int) : OutboxEntry :=
  { e with
    relayedAt := some now
    token := [] }

end OutboxEntry

/-- `OutboxStore.entries`. -/
abbrev Outbox := Dict Bytes OutboxEntry

namespace Outbox

/-- `entries.values.filter { $0.attachmentId == attachmentId }`. -/
def chunksOf (outbox : Outbox) (attachmentId : AttachmentId) : List OutboxEntry :=
  (outbox.entries.map fun e => e.2).filter fun e => e.attachmentId = some attachmentId

/-- The roll-up of `attachmentStatus` and `groupMessageStatus`: the worst wins. -/
def rollUp (entries : List OutboxEntry) : Option Status :=
  if entries.isEmpty then none
  else if entries.any fun e => e.status = .failed then some .failed
  else if entries.any fun e => e.status = .pending then some .pending
  else if entries.any fun e => e.status = .relayed then some .relayed
  else some .delivered

/-- `attachmentStatus(forId:)` (Outbox.swift:463). -/
def attachmentStatus (outbox : Outbox) (attachmentId : AttachmentId) : Option Status :=
  rollUp (outbox.chunksOf attachmentId)

/-- `readReceiptCutoff(highest:log:outbox:)` (Outbox.swift:521): the row's own date, or the
date of the send where the log has no such row. -/
def readReceiptCutoff (highest : Bytes) (log : List PersistedMessage) (outbox : Outbox) :
    Option Int :=
  match log.reverse.find? fun m => m.side = .me ∧ m.messageId = some highest with
  | some row => some row.timestamp
  | none => (outbox.lookup highest).map OutboxEntry.sentAt

/-- The acknowledgement of `handleAckPayload` (ChatStore.swift:4692): it counts for an entry to
the peer that sent it. -/
def acknowledge (outbox : Outbox) (payload fromPeer : Bytes) (now : Int) : Outbox :=
  if payload.length ≠ 16 then outbox
  else
    match outbox.lookup payload with
    | none => outbox
    | some entry =>
      if entry.recipientPeerId = fromPeer then
        outbox.insert payload { entry with deliveredAt := some now }
      else outbox

/-- The group legs to the peer up to the cutoff (`handleReadReceiptPayload`). -/
def stampLegs (outbox : Outbox) (peer : Bytes) (cutoff now : Int) : Outbox :=
  outbox.mapVals fun e =>
    if e.recipientPeerId = peer ∧ e.groupMessageId.isSome ∧ e.sentAt ≤ cutoff ∧
        e.readAt.isNone then
      { e with readAt := some now }
    else e

/-- The entry is past its post-mortem window of 24 hours. -/
def outlived (now : Int) (e : OutboxEntry) : Bool :=
  match e.deliveredAt.or e.failedAt with
  | some t => 24 * 60 * 60 < now - t
  | none => false

end Outbox

end Pizzini.Chat
