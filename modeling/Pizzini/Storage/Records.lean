import Pizzini.Delivery.Outbound
import Pizzini.Lib.KeyedTable
import Pizzini.Storage.Statement

/-!
# Contacts, messages and the outbox on disk (SQLiteStorage.swift:553–788, 1009–1092)

Each record is a row of its table: its fields are bound by position, in the order of the
`INSERT`, and read by position, in the order of the `SELECT`. A conflict with the row of an
earlier version updates the columns that the statement lists. Of a contact these leave out
`added_at` and `added_via`, of a message its owner.

Where the code converts integers it may trap, and a statement may violate a constraint: both
are none here. The tables of the groups are those of `Group/SQLiteStorage`.
-/

namespace Pizzini.Storage

open Wire Delivery
open Pizzini.Group (UUID asUUID ChatMessageKind GroupTables)
open Pizzini.Chat (ChatBubbleSide)

/-! ## Raw values -/

/-- `ChatBubbleSide.rawValue`. -/
def sideRawValue : ChatBubbleSide → String
  | .me => "me"
  | .peer => "peer"

/-- `ChatBubbleSide(rawValue:)`. -/
def sideOfRawValue (s : String) : Option ChatBubbleSide :=
  [ChatBubbleSide.me, .peer].find? fun side => sideRawValue side = s

/-- `ChatMessageKind.rawValue`. -/
def kindRawValue : ChatMessageKind → String
  | .preKey => "preKey"
  | .whisper => "whisper"
  | .system => "system"
  | .attachment => "attachment"

/-- `ChatMessageKind(rawValue:)`. -/
def kindOfRawValue (s : String) : Option ChatMessageKind :=
  [ChatMessageKind.preKey, .whisper, .system, .attachment].find? fun kind => kindRawValue kind = s

/-- `AttachmentTier`. -/
inductive AttachmentTier where
  | textFamily
  | archive
  | mediaStripAndWarn
  | authorLeakingDoc
  | codeOnTap
deriving DecidableEq

/-- `AttachmentTier.rawValue`. -/
def AttachmentTier.rawValue : AttachmentTier → String
  | textFamily => "textFamily"
  | archive => "archive"
  | mediaStripAndWarn => "mediaStripAndWarn"
  | authorLeakingDoc => "authorLeakingDoc"
  | codeOnTap => "codeOnTap"

/-- `AttachmentTier(rawValue:)`. -/
def AttachmentTier.ofRawValue (s : String) : Option AttachmentTier :=
  [textFamily, archive, mediaStripAndWarn, authorLeakingDoc, codeOnTap].find? fun tier =>
    tier.rawValue = s

/-- `ReadReceiptsMode`. -/
inductive ReadReceiptsMode where
  | followDefault
  | alwaysOn
  | alwaysOff
deriving DecidableEq

/-- `ReadReceiptsMode.rawValue`. -/
def ReadReceiptsMode.rawValue : ReadReceiptsMode → String
  | followDefault => "follow_default"
  | alwaysOn => "always_on"
  | alwaysOff => "always_off"

/-- `ReadReceiptsMode(rawValue:)`. -/
def ReadReceiptsMode.ofRawValue (s : String) : Option ReadReceiptsMode :=
  [followDefault, alwaysOn, alwaysOff].find? fun mode => mode.rawValue = s

/-- `ContactSource`. -/
inductive ContactSource where
  | qrScan
  | pastedText
  | unknown
deriving DecidableEq

/-- `ContactSource.rawValue`. -/
def ContactSource.rawValue : ContactSource → String
  | qrScan => "qr_scan"
  | pastedText => "pasted_text"
  | unknown => "unknown"

/-- `ContactSource(rawValue:)`. -/
def ContactSource.ofRawValue (s : String) : Option ContactSource :=
  [qrScan, pastedText, unknown].find? fun source => source.rawValue = s

/-! ## Records (Models.swift, Outbox.swift) -/

/-- `AttachmentInfo`. -/
structure AttachmentInfo where
  attachmentId : Bytes
  filename : String
  byteSize : UInt64
  mime : String
  tier : AttachmentTier
  sandboxRelativePath : Option String
  isInbound : Bool

/-- `PersistedMessage`. -/
structure PersistedMessage where
  id : UUID
  side : ChatBubbleSide
  text : String
  kind : ChatMessageKind
  bytes : Int64
  timestamp : Date
  messageId : Option Bytes
  readAt : Option Date
  attachment : Option AttachmentInfo
  senderPeerId : Option Bytes
  groupMessageId : Option Bytes

/-- `Contact`. -/
structure Contact where
  id : UUID
  identityPub : Bytes
  displayName : String
  sessionEstablished : Bool
  log : List PersistedMessage
  lastMessageAt : Option Date
  lastSeenAt : Option Date
  addedAt : Date
  lastChainServedAt : Option Date
  ttlSeconds : UInt32
  readReceiptsMode : ReadReceiptsMode
  peerVerifyKey : Option Bytes
  lastBundleServedAt : Option Date
  addedVia : ContactSource
  verifiedAt : Option Date
  mutedAt : Option Date
  outboundTokenChain : Option Chain

/-- `OutboxEntry`. -/
structure OutboxEntry where
  messageId : Bytes
  recipientPeerId : Bytes
  sealedCiphertext : Bytes
  token : Bytes
  /-- a `TimeInterval` -/
  ttl : ℚ
  sentAt : Date
  retries : Int64
  deliveredAt : Option Date
  failedAt : Option Date
  relayedAt : Option Date
  attachmentId : Option Bytes
  chunkIndex : Option UInt32
  chunkCount : Option UInt32
  groupMessageId : Option Bytes
  readAt : Option Date

/-! ## Tables (Schema.swift) -/

/-- The columns of `contacts`. -/
inductive ContactsColumn where
  | id
  | identityPub
  | displayName
  | sessionEstablished
  | lastMessageAt
  | lastSeenAt
  | addedAt
  | lastChainServedAt
  | ttlSeconds
  | readReceiptsMode
  | peerVerifyKey
  | lastBundleServedAt
  | addedVia
  | verifiedAt
  | mutedAt
  | outboundTokenChain
deriving DecidableEq

/-- The columns of `messages`. -/
inductive MessagesColumn where
  | id
  | contactId
  | groupId
  | side
  | text
  | kind
  | bytes
  | timestamp
  | messageId
  | readAt
  | senderPeerId
  | groupMessageId
  | attachmentId
  | attachmentFilename
  | attachmentByteSize
  | attachmentMime
  | attachmentTier
  | attachmentSandboxPath
  | attachmentIsInbound
deriving DecidableEq

/-- The columns of `outbox`. -/
inductive OutboxColumn where
  | messageId
  | recipientPeerId
  | sealedCiphertext
  | token
  | ttl
  | sentAt
  | retries
  | deliveredAt
  | failedAt
  | relayedAt
  | attachmentId
  | chunkIndex
  | chunkCount
  | groupMessageId
  | readAt
deriving DecidableEq

/-- The tables, each by its primary key. -/
structure Tables where
  contacts : Dict Bytes (ContactsColumn → SqlValue)
  messages : Dict Bytes (MessagesColumn → SqlValue)
  outbox : Dict Bytes (OutboxColumn → SqlValue)
  groups : GroupTables

/-- A fresh database. -/
def Tables.empty : Tables := ⟨∅, ∅, ∅, .empty⟩

/-! ## Messages (SQLiteStorage.swift:655–788) -/

/-- `MessageOwner`. -/
inductive MessageOwner where
  | contact (id : UUID)
  | group (id : Bytes)
deriving DecidableEq

namespace MessageOwner

/-- What is bound to `contact_id`. -/
def contactId : MessageOwner → SqlValue
  | contact id => .blob id.1
  | group _ => .null

/-- What is bound to `group_id`. -/
def groupId : MessageOwner → SqlValue
  | contact _ => .null
  | group id => .blob id

/-- `WHERE contact_id = ?` or `WHERE group_id = ?`. -/
def owns (owner : MessageOwner) (row : MessagesColumn → SqlValue) : Bool :=
  match owner with
  | contact id => row .contactId = .blob id.1
  | group id => row .groupId = .blob id

/-- The row that the foreign key refers to is there. -/
def Exists (owner : MessageOwner) (t : Tables) : Prop :=
  match owner with
  | contact id => id.1 ∈ t.contacts
  | group id => id ∈ t.groups.groups.map Group.GroupRow.id

instance (owner : MessageOwner) (t : Tables) : Decidable (owner.Exists t) :=
  match owner with
  | contact id => inferInstanceAs (Decidable (id.1 ∈ t.contacts))
  | group id => inferInstanceAs (Decidable (id ∈ t.groups.groups.map Group.GroupRow.id))

end MessageOwner

/-- The columns of the `INSERT` of `upsertMessage`. -/
def messagesInserted : List MessagesColumn :=
  [.id, .contactId, .groupId, .side, .text, .kind, .bytes, .timestamp,
    .messageId, .readAt, .senderPeerId, .groupMessageId,
    .attachmentId, .attachmentFilename, .attachmentByteSize,
    .attachmentMime, .attachmentTier, .attachmentSandboxPath,
    .attachmentIsInbound]

/-- The columns of its `DO UPDATE SET`. -/
def messagesUpdated : List MessagesColumn :=
  [.side, .text, .kind, .bytes, .timestamp, .messageId, .readAt, .senderPeerId, .groupMessageId,
    .attachmentId, .attachmentFilename, .attachmentByteSize, .attachmentMime, .attachmentTier,
    .attachmentSandboxPath, .attachmentIsInbound]

/-- The columns of the `SELECT` of `loadMessagesWhere`. -/
def messagesSelected : List MessagesColumn :=
  [.id, .side, .text, .kind, .bytes, .timestamp, .messageId, .readAt,
    .senderPeerId, .groupMessageId,
    .attachmentId, .attachmentFilename, .attachmentByteSize,
    .attachmentMime, .attachmentTier, .attachmentSandboxPath,
    .attachmentIsInbound]

/-- The values bound by `upsertMessage`. -/
def messageValues (owner : MessageOwner) (m : PersistedMessage) (byteSize : Option Int64) :
    List SqlValue :=
  [.blob m.id.1,
    owner.contactId,
    owner.groupId,
    .ofString (sideRawValue m.side),
    .ofString m.text,
    .ofString (kindRawValue m.kind),
    .integer m.bytes,
    .ofDate m.timestamp,
    .ofOption .blob m.messageId,
    .ofOption .ofDate m.readAt,
    .ofOption .blob m.senderPeerId,
    .ofOption .blob m.groupMessageId,
    .ofOption .blob (m.attachment.map AttachmentInfo.attachmentId),
    .ofOption .ofString (m.attachment.map AttachmentInfo.filename),
    .ofOption .integer byteSize,
    .ofOption .ofString (m.attachment.map AttachmentInfo.mime),
    .ofOption .ofString (m.attachment.map fun a => a.tier.rawValue),
    .ofOption .ofString (m.attachment.bind AttachmentInfo.sandboxRelativePath),
    .ofOption .ofBool (m.attachment.map AttachmentInfo.isInbound)]

/-- `m.attachment.map { Int64($0.byteSize) }`. -/
def boundByteSize : Option AttachmentInfo → Option (Option Int64)
  | none => some none
  | some attachment => (int64? attachment.byteSize).map some

/-- `upsertMessage(_:owner:)` (SQLiteStorage.swift:733). -/
def upsertMessage (m : PersistedMessage) (owner : MessageOwner) (t : Tables) : Option Tables :=
  match boundByteSize m.attachment with
  | none => none
  | some byteSize =>
    if owner.Exists t then
      some { t with
        messages := KeyedTable.upsert (doUpdate messagesUpdated) m.id.1
          (bound messagesInserted (messageValues owner m byteSize)) t.messages }
    else none

/-- The attachment of a row. -/
def readAttachment (col : Nat → SqlValue) : Option (Option AttachmentInfo) :=
  if (col 10).columnIsNull then some none
  else
    match (col 10).columnBlob with
    | none => some none
    | some aid =>
      match toUInt64 (col 12).columnInt64 with
      | none => none
      | some byteSize =>
        some (some
          { attachmentId := aid
            filename := (col 11).columnText.getD ""
            byteSize := byteSize
            mime := (col 13).columnText.getD ""
            tier := (AttachmentTier.ofRawValue ((col 14).columnText.getD "")).getD .textFamily
            sandboxRelativePath := (col 15).columnText
            isInbound := (col 16).columnBool })

/-- The loop body of `loadMessagesWhere` (SQLiteStorage.swift:671). -/
def readMessage (key : Bytes) (row : MessagesColumn → SqlValue) :
    Option (Option PersistedMessage) :=
  let col := column messagesSelected .id key row
  match asUUID ((col 0).columnBlob.getD []) with
  | none => some none
  | some uuid =>
    (readAttachment col).map fun attachment => some
      { id := uuid
        side := (sideOfRawValue ((col 1).columnText.getD "")).getD .me
        text := (col 2).columnText.getD ""
        kind := (kindOfRawValue ((col 3).columnText.getD "")).getD .whisper
        bytes := (col 4).columnInt64
        timestamp := .fromEpochMs (col 5).columnInt64
        messageId := (col 6).columnBlob
        readAt := (col 7).columnDate
        attachment := attachment
        senderPeerId := (col 8).columnBlob
        groupMessageId := (col 9).columnBlob }

/-- `ORDER BY timestamp ASC, id ASC`. -/
def MessagesLe (e f : Σ _ : Bytes, MessagesColumn → SqlValue) : Prop :=
  (e.2 .timestamp).columnInt64 < (f.2 .timestamp).columnInt64 ∨
    (e.2 .timestamp).columnInt64 = (f.2 .timestamp).columnInt64 ∧ Group.BytesLe e.1 f.1

instance : DecidableRel MessagesLe := fun e f =>
  inferInstanceAs (Decidable ((e.2 .timestamp).columnInt64 < (f.2 .timestamp).columnInt64 ∨
    (e.2 .timestamp).columnInt64 = (f.2 .timestamp).columnInt64 ∧ Group.BytesLe e.1 f.1))

/-- `loadMessages(contactId:)` and `loadMessages(groupId:)`. -/
def loadMessages (owner : MessageOwner) (t : Tables) : Option (List PersistedMessage) :=
  KeyedTable.collect readMessage (KeyedTable.select owner.owns MessagesLe t.messages)

/-! ## Contacts (SQLiteStorage.swift:555–653) -/

/-- `HashChainToken.encodeChain` (HashChainToken.swift:82); none is a trap of `UInt32(_:)`. -/
def encodeChain (chain : Chain) : Option Bytes :=
  if chain.length < 2 ^ 32 ∧ chain.nextIndex < 2 ^ 32 then
    some (chain.chainID.1 ++ (chain.seed.1 ++ (chain.root.1 ++
      (beBytes 4 chain.length ++ beBytes 4 chain.nextIndex))))
  else none

/-- The columns of the `INSERT` of `upsertContact`. -/
def contactsInserted : List ContactsColumn :=
  [.id, .identityPub, .displayName, .sessionEstablished,
    .lastMessageAt, .lastSeenAt, .addedAt,
    .lastChainServedAt, .ttlSeconds, .readReceiptsMode,
    .peerVerifyKey, .lastBundleServedAt,
    .addedVia, .verifiedAt, .mutedAt, .outboundTokenChain]

/-- The columns of its `DO UPDATE SET`. -/
def contactsUpdated : List ContactsColumn :=
  [.identityPub, .displayName, .sessionEstablished, .lastMessageAt, .lastSeenAt,
    .lastChainServedAt, .ttlSeconds, .readReceiptsMode, .peerVerifyKey, .lastBundleServedAt,
    .verifiedAt, .mutedAt, .outboundTokenChain]

/-- The columns of the `SELECT` of `loadContacts`. -/
def contactsSelected : List ContactsColumn :=
  [.id, .identityPub, .displayName, .sessionEstablished,
    .lastMessageAt, .lastSeenAt, .addedAt, .lastChainServedAt,
    .ttlSeconds, .readReceiptsMode, .peerVerifyKey, .lastBundleServedAt,
    .addedVia, .verifiedAt, .mutedAt, .outboundTokenChain]

/-- The values bound by `upsertContact`. -/
def contactValues (c : Contact) (chain : Option Bytes) : List SqlValue :=
  [.blob c.id.1,
    .blob c.identityPub,
    .ofString c.displayName,
    .ofBool c.sessionEstablished,
    .ofOption .ofDate c.lastMessageAt,
    .ofOption .ofDate c.lastSeenAt,
    .ofDate c.addedAt,
    .ofOption .ofDate c.lastChainServedAt,
    .ofUInt32 c.ttlSeconds,
    .ofString c.readReceiptsMode.rawValue,
    .ofOption .blob c.peerVerifyKey,
    .ofOption .ofDate c.lastBundleServedAt,
    .ofString c.addedVia.rawValue,
    .ofOption .ofDate c.verifiedAt,
    .ofOption .ofDate c.mutedAt,
    .ofOption .blob chain]

/-- `c.outboundTokenChain.map { HashChainToken.encodeChain($0) }`. -/
def boundChain : Option Chain → Option (Option Bytes)
  | none => some none
  | some chain => (encodeChain chain).map some

/-- Another contact has the identity. -/
def identityTaken (c : Contact) (t : Tables) : Bool :=
  t.contacts.entries.any fun e => e.1 ≠ c.id.1 ∧ e.2 .identityPub = .blob c.identityPub

/-- `upsertContact(_:)` (SQLiteStorage.swift:606). -/
def upsertContact (c : Contact) (t : Tables) : Option Tables :=
  match boundChain c.outboundTokenChain with
  | none => none
  | some chain =>
    if identityTaken c t then none
    else
      some { t with
        contacts := KeyedTable.upsert (doUpdate contactsUpdated) c.id.1
          (bound contactsInserted (contactValues c chain)) t.contacts }

/-- The loop body of `loadContacts` (SQLiteStorage.swift:563). -/
def readContact (t : Tables) (key : Bytes) (row : ContactsColumn → SqlValue) :
    Option (Option Contact) :=
  let col := column contactsSelected .id key row
  match asUUID ((col 0).columnBlob.getD []) with
  | none => some none
  | some uuid =>
    match toUInt32 (col 8).columnInt64, loadMessages (.contact uuid) t with
    | some ttlSeconds, some log =>
      some (some
        { id := uuid
          identityPub := (col 1).columnBlob.getD []
          displayName := (col 2).columnText.getD ""
          sessionEstablished := (col 3).columnBool
          log := log
          lastMessageAt := (col 4).columnDate
          lastSeenAt := (col 5).columnDate
          addedAt := .fromEpochMs (col 6).columnInt64
          lastChainServedAt := (col 7).columnDate
          ttlSeconds := ttlSeconds
          readReceiptsMode := (ReadReceiptsMode.ofRawValue
            ((col 9).columnText.getD ReadReceiptsMode.followDefault.rawValue)).getD .followDefault
          peerVerifyKey := (col 10).columnBlob
          lastBundleServedAt := (col 11).columnDate
          addedVia := (ContactSource.ofRawValue
            ((col 12).columnText.getD ContactSource.unknown.rawValue)).getD .unknown
          verifiedAt := (col 13).columnDate
          mutedAt := (col 14).columnDate
          outboundTokenChain := (col 15).columnBlob.bind decodeChain })
    | _, _ => none

/-- `ORDER BY added_at ASC`. -/
def ContactsLe (e f : Σ _ : Bytes, ContactsColumn → SqlValue) : Prop :=
  (e.2 .addedAt).columnInt64 ≤ (f.2 .addedAt).columnInt64

instance : DecidableRel ContactsLe := fun e f =>
  inferInstanceAs (Decidable ((e.2 .addedAt).columnInt64 ≤ (f.2 .addedAt).columnInt64))

/-- `loadContacts()` (SQLiteStorage.swift:555). -/
def loadContacts (t : Tables) : Option (List Contact) :=
  KeyedTable.collect (readContact t) (KeyedTable.select (fun _ => true) ContactsLe t.contacts)

/-! ## The outbox (SQLiteStorage.swift:1009–1092) -/

/-- The columns of the `INSERT` of `upsertOutboxEntry`, and of the `SELECT` of `loadOutbox`. -/
def outboxColumns : List OutboxColumn :=
  [.messageId, .recipientPeerId, .sealedCiphertext, .token,
    .ttl, .sentAt, .retries, .deliveredAt, .failedAt, .relayedAt,
    .attachmentId, .chunkIndex, .chunkCount, .groupMessageId, .readAt]

/-- The columns of the `DO UPDATE SET` of `upsertOutboxEntry`. -/
def outboxUpdated : List OutboxColumn :=
  [.recipientPeerId, .sealedCiphertext, .token, .ttl, .sentAt, .retries, .deliveredAt, .failedAt,
    .relayedAt, .attachmentId, .chunkIndex, .chunkCount, .groupMessageId, .readAt]

/-- `Int64(_:)` of a `TimeInterval`: towards zero; none is a trap. -/
def truncated (x : ℚ) : Option Int64 := Group.toInt64 (if 0 ≤ x then ⌊x⌋ else ⌈x⌉)

/-- The values bound by `upsertOutboxEntry`. -/
def outboxValues (e : OutboxEntry) (ttl : Int64) : List SqlValue :=
  [.blob e.messageId,
    .blob e.recipientPeerId,
    .blob e.sealedCiphertext,
    .blob e.token,
    .integer ttl,
    .ofDate e.sentAt,
    .integer e.retries,
    .ofOption .ofDate e.deliveredAt,
    .ofOption .ofDate e.failedAt,
    .ofOption .ofDate e.relayedAt,
    .ofOption .blob e.attachmentId,
    .ofOption .ofUInt32 e.chunkIndex,
    .ofOption .ofUInt32 e.chunkCount,
    .ofOption .blob e.groupMessageId,
    .ofOption .ofDate e.readAt]

/-- `upsertOutboxEntry(_:)` (SQLiteStorage.swift:1053). -/
def upsertOutboxEntry (e : OutboxEntry) (t : Tables) : Option Tables :=
  (truncated e.ttl).map fun ttl =>
    { t with
      outbox := KeyedTable.upsert (doUpdate outboxUpdated) e.messageId
        (bound outboxColumns (outboxValues e ttl)) t.outbox }

/-- `stmt.columnOptionalInt64(index).map { UInt32($0) }`. -/
def columnOptionalUInt32 (v : SqlValue) : Option (Option UInt32) :=
  match v.columnOptionalInt64 with
  | none => some none
  | some n => (toUInt32 n).map some

/-- The loop body of `loadOutbox` (SQLiteStorage.swift:1009). -/
def readOutboxEntry (key : Bytes) (row : OutboxColumn → SqlValue) :
    Option (Option OutboxEntry) :=
  let col := column outboxColumns .messageId key row
  match columnOptionalUInt32 (col 11), columnOptionalUInt32 (col 12) with
  | some chunkIndex, some chunkCount =>
    some (some
      { messageId := (col 0).columnBlob.getD []
        recipientPeerId := (col 1).columnBlob.getD []
        sealedCiphertext := (col 2).columnBlob.getD []
        token := (col 3).columnBlob.getD []
        ttl := (col 4).columnInt64.toInt
        sentAt := .fromEpochMs (col 5).columnInt64
        retries := (col 6).columnInt64
        deliveredAt := (col 7).columnDate
        failedAt := (col 8).columnDate
        relayedAt := (col 9).columnDate
        attachmentId := (col 10).columnBlob
        chunkIndex := chunkIndex
        chunkCount := chunkCount
        groupMessageId := (col 13).columnBlob
        readAt := (col 14).columnDate })
  | _, _ => none

/-- `ORDER BY sent_at ASC`. -/
def OutboxLe (e f : Σ _ : Bytes, OutboxColumn → SqlValue) : Prop :=
  (e.2 .sentAt).columnInt64 ≤ (f.2 .sentAt).columnInt64

instance : DecidableRel OutboxLe := fun e f =>
  inferInstanceAs (Decidable ((e.2 .sentAt).columnInt64 ≤ (f.2 .sentAt).columnInt64))

/-- `loadOutbox()` (SQLiteStorage.swift:1009). -/
def loadOutbox (t : Tables) : Option (Dict Bytes OutboxEntry) :=
  (KeyedTable.collect readOutboxEntry (KeyedTable.select (fun _ => true) OutboxLe t.outbox)).map
    fun entries => entries.foldl (fun store entry => store.insert entry.messageId entry) ∅

end Pizzini.Storage
