import Pizzini.Attachments.AttachmentReassembler
import Pizzini.Delivery.HeldFrames
import Pizzini.Group.GroupSend
import Pizzini.Group.SenderKeyHeader
import Pizzini.Group.Splice

/-!
# The chat client (`ChatStore.swift`, the chat handlers of `ChatStoreGroups.swift`)

`ChatStore` is a client as its conversations see it: the logs, the outbox with its chains
(`Outbound`), the contacts, the two reassemblers and the groups. `act` is one call from the
user or a timer, `receive` one sealed frame from a relay.

- Sealing is ideal: a frame that decrypts was sealed by its `sender` for its `recipient`.
  libsignal reports a frame that it has decrypted before as a duplicate.
- What the code asks of its environment is in the event: the message ids it draws, whether a
  seal or `persistSession` succeeds, how many relays are ready, whether a frame decrypts.
- `persistSession` may fail: `handleSealedFrame` does not look at its result. `durable` is what
  the last reception that saved the session has saved of `decrypted`, and a new process may
  find the session so, or as it was at any moment since (what a send saves is not counted).
- A write of a row may throw (`Chats.throws`), and one of an outbox entry or of a contact may
  be lost. A new process reads the rows of the table, outbox entries as they have been at some
  time, and any contacts, chains, groups and settings: nothing below rests on these (`Disk`).
- A launch that cannot read the database shows an error and does nothing: it is no event. A
  wipe takes the session, and the identity with it: the client that follows is another one.
- A call runs to its end. Where the process stops on the way, what is left to be written is
  not, and what comes next is a `relaunch`; a stop in front of a frame's handler is a case of
  its own (`Reception.proceeds`).
- The group state machine is the subject of the `Group` modules. Here an event of it may
  leave any groups, leave system rows, and broadcast frames.
- `History` is history: no handler reads it.
- Emissions do not read the logs, so a row that is appended before them and saved after them
  is added at once.
- A Swift dictionary is walked in the order of its keys' arrival.
-/

namespace Pizzini.Delivery

/-- `Chain.shouldRotate` (HashChainToken.swift:69). -/
def Chain.shouldRotate (chain : Chain) : Bool := chain.length * 4 / 5 < chain.nextIndex - 1

end Pizzini.Delivery

namespace Pizzini.Chat

open Wire Relay Delivery
open Pizzini.Attachments
  (AttachmentId AttachmentReassembler Completion FileChunkEnvelope Foundation Sandbox)
open Pizzini.Group
  (ChatGroup distributionId notMemberText notReadyText passesGates short)
open Pizzini.Group.ChatStore (others splitGroupId trimmed)

/-! ## Contacts -/

/-- `ReadReceiptsMode`. -/
inductive ReadReceiptsMode where
  | followDefault
  | alwaysOn
  | alwaysOff
deriving DecidableEq, Repr

/-- `Contact` (Models.swift), less the fields that no handler below reads. Its log is in
`Chats`, its chain in `Outbound`. -/
structure Contact where
  displayName : String
  sessionEstablished : Bool := false
  lastMessageAt : Option Int := none
  lastSeenAt : Option Int := none
  lastChainServedAt : Option Int := none
  ttlSeconds : Int := 24 * 60 * 60
  readReceiptsMode : ReadReceiptsMode := .followDefault
  lastBundleServedAt : Option Int := none
deriving DecidableEq

namespace Contact

/-- `effectiveReadReceiptsEnabled(globalDefault:)` (Models.swift:231). -/
def effectiveReadReceiptsEnabled (contact : Contact) (globalDefault : Bool) : Bool :=
  match contact.readReceiptsMode with
  | .followDefault => globalDefault
  | .alwaysOn => true
  | .alwaysOff => false

/-- `chainServeCooldown`: 6 hours. -/
def chainServeCooldown : Int := 6 * 60 * 60

/-- `chainRefreshCooldown`: 30 minutes. -/
def chainRefreshCooldown : Int := 30 * 60

end Contact

/-! ## Conversations that are emptied or loaded -/

namespace Chats

variable (x : Chats) (s : Surface)

/-- The ids of the rows of a conversation on disk. -/
def rowIds : List Nat := (x.messages.entries.filter fun e => e.2.1 = s).map fun e => e.1

/-- `log.removeAll()` with `deleteAllContactMessages` or `deleteAllGroupMessages`, and what the
foreign keys do when the contact or the group goes. -/
def removeAll : Chats :=
  let emptied := { x with
    log := Function.update x.log s []
    writes := x.writes + 1 }
  if x.throws x.writes then { emptied with unwritten := x.rowIds s ++ x.unwritten }
  else { emptied with messages := x.messages.retain fun _ row => row.1 ≠ s }

end Chats

/-! ## State -/

/-- A row that an inbound frame left. -/
structure Shown where
  surface : Surface
  frame : Sealed
  row : PersistedMessage
  /-- the conversation has been emptied since -/
  emptied : Bool := false
deriving DecidableEq

/-- A read receipt that was due, and the conversation that was read. -/
structure Mark where
  surface : Surface
  peer : Bytes
  highest : Bytes
deriving DecidableEq

/-- What has happened to a client. -/
structure History where
  /-- the frames with an id that the client drew, and when -/
  sent : List (Sealed × Int)
  /-- the frames that came to a handler of their kind -/
  taken : List Sealed
  shown : List Shown
  marks : List Mark
  /-- the frames that had been decrypted and that a new process did not know of -/
  lost : List Sealed
  /-- the entries that the outbox has had, each as it was after some call -/
  rows : List (Bytes × OutboxEntry)

/-- `ChatStore`. -/
structure ChatStore where
  out : Outbound
  chats : Chats
  contacts : Dict Bytes Contact
  groups : List ChatGroup
  blockedIdentities : List Bytes
  defaultReadReceiptsEnabled : Bool
  activeSurface : Option Surface
  pendingV2Sends : Dict Bytes (List String)
  chainRotationLastRequestedAt : Dict Bytes Int
  reassembler : AttachmentReassembler
  groupReassembler : AttachmentReassembler
  groupAttachmentRouting : Dict Bytes Bytes
  sandbox : Sandbox
  /-- the chain seeds that a relay took; they have a pipe of their own -/
  seeds : List Sealed
  /-- the frames that libsignal has decrypted, the last one first -/
  decrypted : List Sealed
  /-- those of them that are on disk for certain -/
  durable : List Sealed
  history : History

/-- The first launch. -/
def ChatStore.start (now : Int) (throws : Nat → Bool) : ChatStore where
  out := .start now
  chats := .start throws
  contacts := ∅
  groups := []
  blockedIdentities := []
  defaultReadReceiptsEnabled := false
  activeSurface := none
  pendingV2Sends := ∅
  chainRotationLastRequestedAt := ∅
  reassembler := .fresh
  groupReassembler := .fresh
  groupAttachmentRouting := ∅
  sandbox := fun _ => ∅
  seeds := []
  decrypted := []
  durable := []
  history := ⟨[], [], [], [], [], []⟩

/-- The frames that a relay took, and so may deliver. -/
def ChatStore.wire (c : ChatStore) : List Sealed := c.out.carried.map Carried.frame ++ c.seeds

/-! ## What a call meets -/

/-- One text on its way. -/
structure Draft where
  attempt : Attempt
  /-- `sealed.count` -/
  sealedSize : Nat
  /-- the error of a seal that throws -/
  error : String
  /-- the rotation request that may follow -/
  rotation : Attempt

/-- One chain on its way to a peer, with `encodeSeedDelivery(mintChain())`. -/
structure Serving where
  attempt : Attempt
  seed : Bytes

/-- The three group broadcasts. -/
inductive Broadcast where
  | groupOp (peer signedBytes : Bytes) (a : Attempt)
  | senderKeyDistribution (peer body : Bytes) (a : Attempt)
  | groupBootstrap (peer body : Bytes) (a : Attempt)

/-- The call of `Outbound`. -/
def Broadcast.event : Broadcast → Outbound.Event
  | .groupOp peer signedBytes a => .broadcastGroupOp peer signedBytes a
  | .senderKeyDistribution peer body a => .broadcastSenderKeyDistribution peer body a
  | .groupBootstrap peer body a => .broadcastGroupBootstrap peer body a

/-- What an event of the group state machine leaves. -/
structure GroupWork where
  groups : List ChatGroup
  notices : List (Bytes × String)
  broadcasts : List Broadcast

/-- What a received frame meets. -/
structure Reception where
  /-- `decryptSealed` does not throw -/
  decrypts : Bool
  /-- `persistSession` succeeds, for the frame or for an answer to it -/
  persists : Bool
  /-- the process does not stop in front of the handler -/
  proceeds : Bool
  /-- `sealedCiphertext.count` -/
  sealedSize : Nat
  /-- `relayState == .connected` -/
  connected : Bool
  ack : Attempt
  receipt : Bytes → Attempt
  serving : Serving
  drain : Nat → Draft
  /-- `groupDecrypt` -/
  groupPlaintext : Option Bytes
  work : GroupWork

namespace ChatStore

variable (blake3 : Bytes → ChainValue) (F : Foundation) (me : Bytes)

section Rows

variable (c : ChatStore)

/-- One call of an outbound path; the frames with the ids drawn for it are history. -/
def call (ev : Outbound.Event) : ChatStore :=
  let out := c.out.step blake3 me ev
  { c with
    out := out
    history := { c.history with
      sent := c.history.sent ++ (ev.seals me).map fun f => (f, c.out.now)
      rows := c.history.rows ++ out.outbox.entries.map fun e => (e.1, e.2) } }

/-- `state.contacts[idx]` is changed. -/
def updateContact (peer : Bytes) (f : Contact → Contact) : ChatStore :=
  match c.contacts.lookup peer with
  | none => c
  | some contact => { c with contacts := c.contacts.insert peer (f contact) }

/-- A row of the local user or of the app, in memory and on disk. -/
def addRow (s : Surface) (m : PersistedMessage) : ChatStore := { c with chats := c.chats.add s m }

/-- A row that a frame leaves, in memory and on disk. -/
def addShown (s : Surface) (f : Sealed) (m : PersistedMessage) : ChatStore :=
  { c with
    chats := c.chats.add s m
    history := { c.history with
      shown := c.history.shown ++ [⟨s, f, { m with id := c.chats.nextId }, false⟩] } }

/-- The row of an inbound group attachment: `appendIncomingAttachment` puts it in the log, and
`upsertGroup` saves no rows (ChatStoreGroups.swift:1233–1242). -/
def showUnsaved (s : Surface) (f : Sealed) (m : PersistedMessage) : ChatStore :=
  { c with
    chats := c.chats.append s m
    history := { c.history with
      shown := c.history.shown ++ [⟨s, f, { m with id := c.chats.nextId }, false⟩] } }

/-- A conversation is emptied. -/
def empty (s : Surface) : ChatStore :=
  { c with
    chats := c.chats.removeAll s
    history := { c.history with
      shown := c.history.shown.map fun x => { x with emptied := x.emptied || x.surface = s } } }

/-- A system row. -/
def systemRow (text : String) : PersistedMessage where
  side := .me
  text := text
  kind := .system
  bytes := 0
  timestamp := c.out.now

/-- `appendSystem(_:to:)` (ChatStore.swift:4001). -/
def appendSystem (text : String) (peer : Bytes) : ChatStore :=
  c.addRow (.oneOnOne peer) (c.systemRow text)

/-- `appendGroupSystem(groupAt:_:)` (ChatStoreGroups.swift:2312). -/
def appendGroupSystem (groupId : Bytes) (text : String) : ChatStore :=
  c.addRow (.group groupId) (c.systemRow text)

end Rows

/-! ## Chains -/

/-- The cooldown of `chainRotationLastRequestedAt`: 1 hour. -/
def requestedLately (c : ChatStore) (peer : Bytes) : Bool :=
  (c.chainRotationLastRequestedAt.lookup peer).any fun last => c.out.now - last < 60 * 60

/-- `maybeRequestProactiveChainRotation` (ChatStore.swift:2792). -/
def maybeRequestProactiveChainRotation (c : ChatStore) (peer : Bytes) (a : Attempt) : ChatStore :=
  match c.out.chain peer with
  | none => c
  | some chain =>
    if ¬ chain.shouldRotate ∨ c.requestedLately peer ∨ a.ready = 0 then c
    else
      let requested := c.call blake3 me (.sendChainRefreshRequest peer a)
      if (c.out.mintV2DeliveryToken blake3 peer).isSome ∧ a.encrypts ∧ a.persists then
        { requested with
          chainRotationLastRequestedAt :=
            requested.chainRotationLastRequestedAt.insert peer c.out.now }
      else requested

/-- `serveChain` with `sendChainSeedDelivery` (ChatStore.swift:3061–3190), less the
registration. The seed goes out without a token, and also when no relay is ready it counts
as served. -/
def serveChain (c : ChatStore) (peer : Bytes) (cooldown : Int) (s : Serving) : ChatStore :=
  match c.contacts.lookup peer with
  | none => c
  | some contact =>
    if contact.lastChainServedAt.any fun last => c.out.now - last < cooldown then c
    else if ¬ contact.sessionEstablished then c
    else if s.attempt.encrypts ∧ s.attempt.persists then
      let frame := Outbound.encryptSealed me peer s.attempt.messageId .chainSeedDelivery s.seed
      { c with
        seeds := if 0 < s.attempt.ready then c.seeds ++ [frame] else c.seeds
        contacts := c.contacts.insert peer { contact with lastChainServedAt := some c.out.now }
        history := { c.history with sent := c.history.sent ++ [(frame, c.out.now)] } }
    else c

/-- `maybeServePendingChain` (ChatStore.swift:3195). -/
def maybeServePendingChain (c : ChatStore) (peer : Bytes) (s : Serving) : ChatStore :=
  match c.contacts.lookup peer with
  | none => c
  | some contact =>
    if contact.sessionEstablished ∧ contact.lastBundleServedAt.isSome ∧
        contact.lastChainServedAt.isNone ∧ 0 < s.attempt.ready then
      c.serveChain me peer Contact.chainServeCooldown s
    else c

/-- `emitAck` (ChatStore.swift:4830) with `recoverChainAfterExhaustion`. -/
def emitAck (c : ChatStore) (peer acked : Bytes) (a : Attempt) : ChatStore :=
  match c.contacts.lookup peer with
  | none => c
  | some _ =>
    if (c.out.mintV2DeliveryToken blake3 peer).isSome then c.call blake3 me (.emitAck peer acked a)
    else if c.requestedLately peer then c
    else
      { c with
        chainRotationLastRequestedAt := c.chainRotationLastRequestedAt.insert peer c.out.now }

/-! ## Sending -/

/-- `refreshChainAndQueue` (ChatStore.swift:2825), with at most `maxPendingV2SendsPerContact`
texts queued. -/
def refreshChainAndQueue (c : ChatStore) (text : String) (peer : Bytes) : ChatStore :=
  let queue := (c.pendingV2Sends.lookup peer).getD []
  if 16 ≤ queue.length then
    c.appendSystem "Too many messages queued while reconnecting. Try again later." peer
  else
    { c with pendingV2Sends := c.pendingV2Sends.insert peer (queue ++ [text]) }.appendSystem
      "Refreshing connection — your message will go out shortly." peer

/-- `sendV2` on the log (ChatStore.swift:2306); `Outbound.send` is its part in the outbox. -/
def sendV2 (c : ChatStore) (text : String) (peer : Bytes) (contact : Contact) (a : Draft) :
    ChatStore :=
  let sent := c.call blake3 me (.send peer contact.ttlSeconds (utf8 text) a.attempt)
  if ¬ a.attempt.encrypts then sent.appendSystem ("Encrypt failed: " ++ a.error) peer
  else if ¬ a.attempt.persists then
    sent.appendSystem "Couldn't save secure state — message not sent. Send it again." peer
  else
    let shown := sent.addRow (.oneOnOne peer)
      { side := .me
        text := text
        kind := if contact.sessionEstablished then .whisper else .preKey
        bytes := a.sealedSize
        timestamp := c.out.now
        messageId := some a.attempt.messageId }
    (shown.updateContact peer fun contact =>
      { contact with lastMessageAt := some c.out.now }).maybeRequestProactiveChainRotation blake3
        me peer a.rotation

/-- `send(_:to:)` (ChatStore.swift:2269). -/
def send (c : ChatStore) (text : String) (peer : Bytes) (a : Draft) : ChatStore :=
  if trimmed text = "" ∨ a.attempt.ready = 0 then c
  else
    match c.contacts.lookup peer with
    | none => c
    | some contact =>
      if ¬ contact.sessionEstablished then
        c.appendSystem "Session not established yet — waiting for the other side to scan you." peer
      else if (c.out.mintV2DeliveryToken blake3 peer).isSome then
        c.sendV2 blake3 me (trimmed text) peer contact a
      else c.refreshChainAndQueue (trimmed text) peer

/-- `drainPendingV2Sends` (ChatStore.swift:2853). -/
def drainPendingV2Sends (c : ChatStore) (peer : Bytes) (drain : Nat → Draft) : ChatStore :=
  ((c.pendingV2Sends.lookup peer).getD []).zipIdx.foldl
    (fun c (text, i) => c.send blake3 me text peer (drain i))
    { c with pendingV2Sends := c.pendingV2Sends.erase peer }

/-- What the user attaches: `AttachmentInfo` of the row, and the caption. -/
structure Upload where
  info : AttachmentInfo
  captionText : String

/-- The row of an own attachment. -/
def uploadRow (c : ChatStore) (upload : Upload) : PersistedMessage where
  side := .me
  text := upload.captionText
  kind := .attachment
  bytes := upload.info.byteSize
  timestamp := c.out.now
  attachment := some upload.info

/-- `shipPreparedAttachment` (ChatStore.swift:2583), with the chunks' envelopes. The first
chunk that cannot be sealed or saved ends it; the tokens have been counted, so none of its
mints fails. -/
def shipPreparedAttachment (c : ChatStore) (peer : Bytes) (upload : Upload)
    (chunks : List (Bytes × Attempt)) (error : String) (rotation : Attempt) : ChatStore :=
  match c.contacts.lookup peer with
  | none => c
  | some contact =>
    let remaining := c.out.remaining peer
    if remaining < chunks.length then
      c.appendSystem
        (if remaining = 0 then
          "Refreshing connection — re-attach this file once it's back online."
        else
          "Chain almost spent — " ++ toString remaining ++ " tokens left, need " ++
            toString chunks.length ++ ". Refreshing.")
        peer
    else
      let sent := c.call blake3 me
        (.shipPreparedAttachment peer contact.ttlSeconds upload.info.attachmentId chunks)
      match chunks.zipIdx.find? fun chunk => !(chunk.1.2.encrypts && chunk.1.2.persists) with
      | some ((_, a), i) =>
        sent.appendSystem
          (if a.encrypts then
            "Couldn't save secure state at chunk " ++ toString i ++ "/" ++
              toString chunks.length ++ " — attachment not sent. Send it again."
          else
            "Encrypt failed at chunk " ++ toString i ++ "/" ++ toString chunks.length ++ ": " ++
              error)
          peer
      | none =>
        ((sent.addRow (.oneOnOne peer) (c.uploadRow upload)).updateContact peer fun contact =>
          { contact with lastMessageAt := some c.out.now }).maybeRequestProactiveChainRotation
            blake3 me peer rotation

/-! ## Sending to a group -/

/-- `state.groups.first { $0.id == groupId }`. -/
def findGroup (c : ChatStore) (groupId : Bytes) : Option ChatGroup :=
  c.groups.find? fun g => g.id = groupId

/-- One turn of the fan-out of `sendGroupMessage`: the leg, or the member's name on the list of
those left out. -/
def fanOut (groupMessageId body : Bytes) (attempt : Bytes → Attempt) :
    ChatStore × List String → Bytes → ChatStore × List String
  | (c, skipped), recipient =>
    match c.contacts.lookup recipient with
    | none => (c, skipped ++ [short recipient])
    | some contact =>
      if (c.out.mintV2DeliveryToken blake3 recipient).isSome then
        (c.call blake3 me (.sendGroupMessage groupMessageId body
          [⟨recipient, contact.ttlSeconds, attempt recipient⟩]), skipped)
      else (c, skipped ++ [short recipient])

/-- What `groupEncrypt` gives a group message, and the id it goes by. -/
structure GroupDraft where
  groupMessageId : Bytes
  ciphertext : Option Bytes
  /-- the rotation in front of the send -/
  rotation : GroupWork
  attempt : Bytes → Attempt

/-- An event of the group state machine. -/
def groupWork (c : ChatStore) (w : GroupWork) : ChatStore :=
  let told := w.notices.foldl (fun c (groupId, text) => c.appendGroupSystem groupId text)
    { c with groups := w.groups }
  w.broadcasts.foldl (fun c b => c.call blake3 me b.event) told

/-- `sendGroupMessage` (ChatStoreGroups.swift:583) from the ciphertext on. -/
def shipGroupMessage (c : ChatStore) (groupId : Bytes) (text : String) (g : ChatGroup)
    (ciphertext : Bytes) (d : GroupDraft) : ChatStore :=
  let recipients := others g me
  let (sent, skipped) :=
    recipients.foldl (fanOut blake3 me d.groupMessageId (groupId ++ ciphertext) d.attempt) (c, [])
  let shown := sent.addRow (.group groupId)
    { side := .me
      text := text
      kind := .whisper
      bytes := ciphertext.length
      timestamp := c.out.now
      groupMessageId := some d.groupMessageId }
  if skipped.isEmpty then shown
  else
    shown.appendGroupSystem groupId
      ("Sent to " ++ toString (recipients.length - skipped.length) ++ "/" ++
        toString recipients.length ++ " members. These members haven't sent their keys yet: " ++
        ", ".intercalate skipped ++ ".")

/-- `sendGroupMessage(groupId:text:)` (ChatStoreGroups.swift:583). -/
def sendGroupMessage (c : ChatStore) (groupId : Bytes) (text : String) (d : GroupDraft) :
    ChatStore :=
  if trimmed text = "" then c
  else
    match c.findGroup groupId with
    | none => c
    | some g =>
      if ¬ g.hasMember me then c.appendGroupSystem groupId notMemberText
      else if g.pendingInvitation then c
      else
        let c := c.groupWork blake3 me d.rotation
        match c.findGroup groupId with
        | none => c
        | some g =>
          if g.myCurrentDistributionId.isNone then c.appendGroupSystem groupId notReadyText
          else
            match d.ciphertext with
            | none =>
              c.appendGroupSystem groupId "Couldn't encrypt this message. Try sending it again."
            | some ciphertext => c.shipGroupMessage blake3 me groupId (trimmed text) g ciphertext d

/-- One chunk of `shipPreparedGroupAttachment`: its ciphertext, and its legs. -/
structure GroupChunk where
  ciphertext : Option Bytes
  attempt : Bytes → Attempt

/-- `shipPreparedGroupAttachment` (ChatStoreGroups.swift:920). -/
def shipPreparedGroupAttachment (c : ChatStore) (groupId groupMessageId : Bytes) (upload : Upload)
    (chunks : List GroupChunk) : ChatStore :=
  match c.findGroup groupId with
  | none => c
  | some g =>
    if ¬ g.hasMember me then c.appendGroupSystem groupId notMemberText
    else if g.pendingInvitation then c
    else if g.myCurrentDistributionId.isNone then c.appendGroupSystem groupId notReadyText
    else
      let encrypted := chunks.takeWhile fun chunk => chunk.ciphertext.isSome
      let legs := encrypted.map fun chunk =>
        (groupId ++ chunk.ciphertext.getD [], (others g me).filterMap fun recipient =>
          (c.contacts.lookup recipient).map fun contact =>
            (⟨recipient, contact.ttlSeconds, chunk.attempt recipient⟩ : Outbound.GroupLeg))
      let sent := c.call blake3 me (.shipPreparedGroupAttachment groupMessageId
        upload.info.attachmentId chunks.length legs)
      if encrypted.length < chunks.length then
        sent.appendGroupSystem groupId ("Couldn't encrypt chunk " ++ toString encrypted.length ++
          "/" ++ toString chunks.length ++ " of this attachment. Try sending it again.")
      else
        sent.addRow (.group groupId)
          { c.uploadRow upload with groupMessageId := some groupMessageId }

/-! ## Read receipts -/

/-- `emitReadReceipt(forContactAt:highestMessageId:)` (ChatStore.swift:3365). -/
def emitReadReceipt (c : ChatStore) (s : Surface) (peer highest : Bytes) (connected : Bool)
    (a : Attempt) : ChatStore :=
  match c.contacts.lookup peer with
  | none => c
  | some contact =>
    if contact.effectiveReadReceiptsEnabled c.defaultReadReceiptsEnabled ∧ 0 < a.ready ∧
        connected then
      let emitted := c.call blake3 me (.emitReadReceipt peer highest a)
      { emitted with
        history := { emitted.history with
          marks := emitted.history.marks ++ [⟨s, peer, highest⟩] } }
    else c

/-- `emitReadReceiptIfEnabled(forContactAt:)` (ChatStore.swift:3347). -/
def emitReadReceiptIfEnabled (c : ChatStore) (peer : Bytes) (connected : Bool) (a : Attempt) :
    ChatStore :=
  match (c.chats.log (.oneOnOne peer)).reverse.find? fun m =>
      m.side = .peer ∧ m.messageId.isSome with
  | none => c
  | some last =>
    c.emitReadReceipt blake3 me (.oneOnOne peer) peer (last.messageId.getD []) connected a

/-- The scan of `markGroupRead`: the latest row of each sender. -/
def highestPerSender (log : List PersistedMessage) : Dict Bytes (Bytes × Int) :=
  log.foldl
    (fun d row =>
      if row.side = .peer ∧ row.kind ≠ .system then
        match row.senderPeerId, row.messageId with
        | some sender, some mid =>
          if (d.lookup sender).any fun existing => row.timestamp ≤ existing.2 then d
          else d.insert sender (mid, row.timestamp)
        | _, _ => d
      else d)
    ∅

/-- `markGroupRead(groupID:)` (ChatStoreGroups.swift:493). -/
def markGroupRead (c : ChatStore) (groupId : Bytes) (connected : Bool) (a : Bytes → Attempt) :
    ChatStore :=
  match c.findGroup groupId with
  | none => c
  | some _ =>
    (highestPerSender (c.chats.log (.group groupId))).entries.foldl
      (fun c e => c.emitReadReceipt blake3 me (.group groupId) e.1 e.2.1 connected (a e.1)) c

/-- `markRead(contactID:)` (ChatStore.swift:3255). -/
def markRead (c : ChatStore) (peer : Bytes) (connected : Bool) (a : Attempt) : ChatStore :=
  (c.updateContact peer fun contact =>
    { contact with lastSeenAt := some c.out.now }).emitReadReceiptIfEnabled blake3 me peer
      connected a

/-! ## Frames that come in -/

/-- `handleReadReceiptPayload` (ChatStore.swift:4632). -/
def handleReadReceiptPayload (c : ChatStore) (payload peer : Bytes) (contact : Contact) :
    ChatStore :=
  if payload.length ≠ 16 then c
  else if ¬ contact.effectiveReadReceiptsEnabled c.defaultReadReceiptsEnabled then c
  else
    match Outbox.readReceiptCutoff payload (c.chats.log (.oneOnOne peer)) c.out.outbox with
    | none => c
    | some cutoff =>
      let chats := c.chats.updateWhere (.oneOnOne peer)
        (fun m => m.side = .me ∧ m.timestamp ≤ cutoff ∧ m.readAt = none)
        fun m => { m with readAt := some c.out.now }
      { c with chats := chats }.call blake3 me (.handleReadReceiptPayload peer cutoff)

/-- `handleChatPayload` (ChatStore.swift:4479). -/
def handleChatPayload (c : ChatStore) (f : Sealed) (r : Reception) : ChatStore :=
  let text := (ofUtf8? f.payload).getD ("<" ++ toString f.payload.length ++ " non-utf8 bytes>")
  let shown := c.addShown (.oneOnOne f.sender) f
    { side := .peer
      text := text
      kind := .whisper
      bytes := r.sealedSize
      timestamp := c.out.now
      messageId := some f.messageId }
  let served := (shown.updateContact f.sender fun contact =>
    { contact with
      lastMessageAt := some c.out.now
      sessionEstablished := true }).maybeServePendingChain me f.sender r.serving
  let read :=
    if served.activeSurface = some (.oneOnOne f.sender) then
      served.markRead blake3 me f.sender r.connected (r.receipt f.sender)
    else served
  read.emitAck blake3 me f.sender f.messageId r.ack

/-- The row of an attachment that is complete. -/
def completionRow (c : ChatStore) (completion : Completion) (senderPeerId : Option Bytes) :
    PersistedMessage where
  side := .peer
  text := ""
  kind := .attachment
  bytes := completion.totalSize
  timestamp := c.out.now
  attachment := some
    { attachmentId := completion.attachmentId
      filename := completion.sanitizedFilename
      byteSize := completion.totalSize
      mime := completion.mime
      sandboxRelativePath := some completion.url
      isInbound := true }
  senderPeerId := senderPeerId

/-- `handleFileChunkPayload` (ChatStore.swift:4531). Every chunk is acknowledged, whatever
comes of it. -/
def handleFileChunkPayload (c : ChatStore) (f : Sealed) (contact : Contact) (r : Reception) :
    ChatStore :=
  let handled :=
    match FileChunkEnvelope.decode f.payload with
    | .error _ => c.appendSystem
      ("Got a malformed file chunk from " ++ contact.displayName ++ ". Dropped.") f.sender
    | .ok envelope =>
      let (result, reassembler, sandbox) :=
        c.reassembler.feed F c.sandbox c.out.now f.sender envelope
      let fed := { c with
        reassembler := reassembler
        sandbox := sandbox }
      match result with
      | .progress .. | .rejected _ => fed
      | .complete completion =>
        ((fed.addShown (.oneOnOne f.sender) f (c.completionRow completion none)).updateContact
          f.sender fun contact =>
            { contact with
              lastMessageAt := some c.out.now
              sessionEstablished := true }).maybeServePendingChain me f.sender r.serving
  handled.emitAck blake3 me f.sender f.messageId r.ack

/-- `memberDisplayName(_:in:)` (ChatStoreGroups.swift:1929). -/
def memberDisplayName (c : ChatStore) (groupId peerId : Bytes) : String :=
  if peerId = me then "you"
  else
    match c.contacts.lookup peerId with
    | some contact => contact.displayName
    | none =>
      match (c.findGroup groupId).bind fun g => g.members.find? fun m => m.peerId = peerId with
      | some m => if m.displayName = "" then short peerId else m.displayName
      | none => short peerId

/-- `surfaceUndecryptable` (ChatStoreGroups.swift:2346): a run of failures leaves one row. -/
def surfaceUndecryptable (c : ChatStore) (groupId sender : Bytes) : ChatStore :=
  let body := "Couldn't decrypt a message from " ++ c.memberDisplayName me groupId sender ++
    ". They may need to tap 'Resend my keys' in Group Settings."
  if (c.chats.log (.group groupId)).getLast?.any fun last =>
      last.kind = .system && last.text = body then c
  else c.appendGroupSystem groupId body

/-- The trust gates that `handleGroupChat` and `handleGroupFileChunk` share, and
`groupDecrypt`: the group, and the plaintext where there is one to render. -/
def openGroupFrame (c : ChatStore) (f : Sealed) (r : Reception) :
    Option (Bytes × Bytes × Option Bytes) :=
  match splitGroupId f.payload with
  | none => none
  | some (groupId, ciphertext) =>
    if passesGates c.groups groupId f.sender (distributionId ciphertext) then
      if (c.findGroup groupId).any ChatGroup.pendingInvitation then none
      else some (groupId, ciphertext, r.groupPlaintext)
    else none

/-- `handleGroupChat` (ChatStoreGroups.swift:1789). -/
def handleGroupChat (c : ChatStore) (f : Sealed) (r : Reception) : ChatStore :=
  match c.openGroupFrame f r with
  | none => c
  | some (groupId, _, none) => c.surfaceUndecryptable me groupId f.sender
  | some (groupId, ciphertext, some plaintext) =>
    let text := (ofUtf8? plaintext).getD ("<" ++ toString plaintext.length ++ " non-utf8 bytes>")
    let shown := c.addShown (.group groupId) f
      { side := .peer
        text := text
        kind := .whisper
        bytes := ciphertext.length
        timestamp := c.out.now
        messageId := some f.messageId
        senderPeerId := some f.sender }
    if shown.activeSurface = some (.group groupId) then
      shown.markGroupRead blake3 me groupId r.connected r.receipt
    else shown

/-- `handleGroupFileChunk` (ChatStoreGroups.swift:1129). The group of an attachment's first
chunk is that of the others. -/
def handleGroupFileChunk (c : ChatStore) (f : Sealed) (r : Reception) : ChatStore :=
  match c.openGroupFrame f r with
  | none => c
  | some (groupId, _, none) => c.surfaceUndecryptable me groupId f.sender
  | some (groupId, _, some plaintext) =>
    match FileChunkEnvelope.decode plaintext with
    | .error _ => c
    | .ok envelope =>
      let routingKey := AttachmentReassembler.tableKey f.sender envelope.attachmentId
      if (c.groupAttachmentRouting.lookup routingKey).any fun prior => prior ≠ groupId then
        let (reassembler, sandbox) :=
          c.groupReassembler.discard c.sandbox f.sender envelope.attachmentId
        { c with
          groupReassembler := reassembler
          sandbox := sandbox
          groupAttachmentRouting := c.groupAttachmentRouting.erase routingKey }
      else
        let (result, reassembler, sandbox) :=
          c.groupReassembler.feed F c.sandbox c.out.now f.sender envelope
        let fed := { c with
          groupReassembler := reassembler
          sandbox := sandbox
          groupAttachmentRouting := c.groupAttachmentRouting.insert routingKey groupId }
        match result with
        | .progress .. | .rejected _ => fed
        | .complete completion =>
          { fed with
            groupAttachmentRouting :=
              fed.groupAttachmentRouting.erase routingKey }.showUnsaved (.group groupId) f
            (c.completionRow completion (some f.sender))

/-- `handleChainSeedDelivery` (ChatStore.swift:2969). -/
def handleChainSeedDelivery (c : ChatStore) (f : Sealed) (r : Reception) : ChatStore :=
  match decodeSeedDelivery f.payload with
  | none => c
  | some _ =>
    (c.call blake3 me (.handleChainSeedDelivery f.sender f.payload)).drainPendingV2Sends blake3 me
      f.sender r.drain

/-- The switch of `handleSealedFrame` over the inner kinds. -/
def handle (c : ChatStore) (f : Sealed) (contact : Contact) (r : Reception) :
    InnerEnvelopeKind → ChatStore
  | .chat => c.handleChatPayload blake3 me f r
  | .ack => c.call blake3 me (.handleAckPayload f.payload f.sender)
  | .readReceipt => c.handleReadReceiptPayload blake3 me f.payload f.sender contact
  | .fileChunk => c.handleFileChunkPayload blake3 F me f contact r
  | .groupChat => c.handleGroupChat blake3 me f r
  | .groupFileChunk => c.handleGroupFileChunk F me f r
  | .groupKeyDistribution | .groupOp | .groupBootstrap => c.groupWork blake3 me r.work
  | .chainSeedDelivery => c.handleChainSeedDelivery blake3 me f r
  | .chainRefreshRequest => c.serveChain me f.sender Contact.chainRefreshCooldown r.serving

/-- The pipe that a frame comes through: `didReceiveSealedSend` and `didReceiveAck`, or
`didReceiveChainSeedFrom`. -/
inductive Pipe where
  | sealedSend
  | chainSeed
deriving DecidableEq, Repr

/-- The text of a hex byte. -/
def hexByte (b : UInt8) : String :=
  String.ofList ['0', 'x', Group.hexDigit (b.toNat / 16), Group.hexDigit (b.toNat % 16)]

/-- `handleSealedFrame` (ChatStore.swift:4353) and `handleChainSeedFrame` (4173) from the
contact gate on: the ratchet has moved. The second takes chain seeds only. -/
def dispatch (c : ChatStore) (pipe : Pipe) (f : Sealed) (contact : Contact) (r : Reception) :
    ChatStore :=
  let took := { c with history := { c.history with taken := c.history.taken ++ [f] } }
  match pipe, f.kind with
  | .sealedSend, some kind => took.handle blake3 F me f contact r kind
  | .sealedSend, none =>
    c.appendSystem ("Received an unknown envelope (" ++
      (f.plaintext.head?.map hexByte).getD "(empty)" ++ ") — possible client mismatch.") f.sender
  | .chainSeed, some .chainSeedDelivery => took.handleChainSeedDelivery blake3 me f r
  | .chainSeed, _ => c

/-- One sealed frame. The session takes it once, and is saved if that goes well; a copy, a frame
of a blocked peer and a frame of a peer who is no contact are dropped after that. -/
def receive (c : ChatStore) (pipe : Pipe) (f : Sealed) (r : Reception) : ChatStore :=
  if ¬ r.decrypts then c
  else
    let decrypted := if f ∈ c.decrypted then c.decrypted else f :: c.decrypted
    let opened := { c with
      decrypted := decrypted
      durable := if r.persists then decrypted else c.durable }
    if ¬ r.proceeds then opened
    else if f.sender ∈ c.blockedIdentities then opened
    else
      match c.contacts.lookup f.sender with
      | none => opened
      | some contact =>
        if f ∈ c.decrypted then opened else opened.dispatch blake3 F me pipe f contact r

/-! ## The user and the timers -/

/-- `runRetryWalk` (ChatStore.swift:4729), with the partial attachments that are stale. -/
def runRetryWalk (c : ChatStore) (connected : Bool) (ready : Bytes → Nat) : ChatStore :=
  let walked := c.call blake3 me (.runRetryWalk connected ready)
  let drop := fun (r : AttachmentReassembler × Sandbox) (stale : Bytes × AttachmentId) =>
    r.1.discard r.2 stale.1 stale.2
  let (reassembler, sandbox) :=
    (c.reassembler.staleEntries c.out.now).foldl drop (c.reassembler, c.sandbox)
  let staleGroup := c.groupReassembler.staleEntries c.out.now
  let (groupReassembler, sandbox) := staleGroup.foldl drop (c.groupReassembler, sandbox)
  { walked with
    reassembler := reassembler
    groupReassembler := groupReassembler
    sandbox := sandbox
    groupAttachmentRouting := staleGroup.foldl
      (fun routing stale => routing.erase (AttachmentReassembler.tableKey stale.1 stale.2))
      c.groupAttachmentRouting }

/-- `userTryAgainExpired(messageId:)` (ChatStore.swift:913). -/
def userTryAgainExpired (c : ChatStore) (messageId : Bytes) (a : Draft) : ChatStore :=
  match c.out.outbox.lookup messageId with
  | none => c
  | some entry =>
    if (entry.failedAt.isSome ∨ entry.hasExpired c.out.now) ∧ entry.relayedAt.isNone ∧
        (c.contacts.lookup entry.recipientPeerId).isSome then
      match (c.chats.log (.oneOnOne entry.recipientPeerId)).reverse.find? fun m =>
          m.side = .me ∧ m.messageId = some messageId with
      | none => c
      | some logRow =>
        if logRow.kind = .attachment ∨ logRow.text = "" then c
        else
          (c.call blake3 me (.userTryAgainExpired messageId)).send blake3 me logRow.text
            entry.recipientPeerId a
    else c

/-- The contact, its chain and its conversation are gone. -/
def removeContact (c : ChatStore) (peer : Bytes) : ChatStore :=
  { c with
    out := { c.out with chain := Function.update c.out.chain peer none }
    contacts := c.contacts.erase peer
    pendingV2Sends := c.pendingV2Sends.erase peer
    chainRotationLastRequestedAt :=
      c.chainRotationLastRequestedAt.erase peer }.empty (.oneOnOne peer)

/-- `blockIdentity(_:)` (ChatStore.swift:3310). -/
def blockIdentity (c : ChatStore) (peer : Bytes) : ChatStore :=
  let blocked := if peer ∈ c.blockedIdentities then c
    else { c with blockedIdentities := c.blockedIdentities ++ [peer] }
  if (c.contacts.lookup peer).isSome then blocked.removeContact peer else blocked

/-- `deleteChat(_:)` (ChatStore.swift:3222). -/
def deleteChat (c : ChatStore) (peer : Bytes) : ChatStore :=
  if (c.contacts.lookup peer).isSome then
    (c.empty (.oneOnOne peer)).updateContact peer fun contact =>
      { contact with
        lastMessageAt := none
        lastSeenAt := some c.out.now }
  else c

/-- What a new process reads. -/
structure Disk where
  /-- the conversations, as `loadMessages` orders them -/
  log : Surface → List PersistedMessage
  outbox : Outbox
  /-- the frames that the session has decrypted -/
  session : List Sealed
  chain : Bytes → Option Chain
  contacts : Dict Bytes Contact
  groups : List ChatGroup
  blockedIdentities : List Bytes
  defaultReadReceiptsEnabled : Bool

/-- The conversations are read from their tables, once each row, in the order of the rows' dates.
An outbox entry is one that has been there, before or after the stamps of the call that made it.
The session is no older than when it was saved for certain. -/
structure Disk.Of (c : ChatStore) (disk : Disk) : Prop where
  log : ∀ s, (disk.log s).Nodup ∧ (∀ m, m ∈ disk.log s ↔ c.chats.stored s m) ∧
    (disk.log s).Pairwise fun m m' => m.timestamp ≤ m'.timestamp
  outbox : ∀ id e, disk.outbox.lookup id = some e →
    ∃ e', (id, e') ∈ c.history.rows ∧ Outbound.SameSend e' e
  durable : c.durable <:+ disk.session
  session : disk.session <:+ c.decrypted

/-- What the user does, and what the timers and the relays' states bring about. -/
inductive Event where
  | send (text : String) (peer : Bytes) (a : Draft)
  | shipPreparedAttachment (peer : Bytes) (upload : Upload) (chunks : List (Bytes × Attempt))
      (error : String) (rotation : Attempt)
  | sendGroupMessage (groupId : Bytes) (text : String) (d : GroupDraft)
  | shipPreparedGroupAttachment (groupId groupMessageId : Bytes) (upload : Upload)
      (chunks : List GroupChunk)
  | releaseLeg (index ready : Nat)
  | runRetryWalk (connected : Bool) (ready : Bytes → Nat)
  | userRetry (messageId : Bytes) (connected : Bool) (ready : Nat)
  | userRetryAttachment (attachmentId : AttachmentId) (connected : Bool) (ready : Bytes → Nat)
  | userTryAgainExpired (messageId : Bytes) (a : Draft)
  | markRead (peer : Bytes) (connected : Bool) (a : Attempt)
  | markGroupRead (groupId : Bytes) (connected : Bool) (a : Bytes → Attempt)
  /-- the relay state becomes `.connected`: the walk, and the receipt of the chat on screen -/
  | newlyReady (ready : Bytes → Nat) (receipt : Bytes → Attempt)
  | setActiveSurface (s : Option Surface)
  | addContact (peer : Bytes) (displayName : String)
  | rename (peer : Bytes) (newName : String)
  /-- a BUNDLE_RESPONSE from a contact -/
  | bundleResponse (peer : Bytes) (dropsChain : Bool) (s : Serving)
  /-- a contact's BUNDLE_REQUEST is answered -/
  | bundleServed (peer : Bytes) (s : Serving)
  | setContactTTL (peer : Bytes) (seconds : Int)
  | setReadReceiptsMode (peer : Bytes) (mode : ReadReceiptsMode)
  | setDefaultReadReceipts (enabled : Bool)
  | deleteChat (peer : Bytes)
  | deleteAllChats
  | deleteContact (peer : Bytes)
  | blockIdentity (peer : Bytes)
  | unblockIdentity (peer : Bytes)
  | deleteGroupChat (groupId : Bytes)
  /-- `leaveGroup` after its rotation, and `declineGroupInvitation` -/
  | removeGroup (groupId : Bytes)
  /-- a local operation on the groups -/
  | groupWork (w : GroupWork)
  | tick (seconds : Nat)
  /-- a new process -/
  | relaunch (disk : Disk)

/-- One call. -/
def act (c : ChatStore) : Event → ChatStore
  | .send text peer a => c.send blake3 me text peer a
  | .shipPreparedAttachment peer upload chunks error rotation =>
    c.shipPreparedAttachment blake3 me peer upload chunks error rotation
  | .sendGroupMessage groupId text d => c.sendGroupMessage blake3 me groupId text d
  | .shipPreparedGroupAttachment groupId groupMessageId upload chunks =>
    c.shipPreparedGroupAttachment blake3 me groupId groupMessageId upload chunks
  | .releaseLeg index ready => c.call blake3 me (.releaseLeg index ready)
  | .runRetryWalk connected ready => c.runRetryWalk blake3 me connected ready
  | .userRetry messageId connected ready => c.call blake3 me (.userRetry messageId connected ready)
  | .userRetryAttachment attachmentId connected ready =>
    c.call blake3 me (.userRetryAttachment attachmentId connected ready)
  | .userTryAgainExpired messageId a => c.userTryAgainExpired blake3 me messageId a
  | .markRead peer connected a => c.markRead blake3 me peer connected a
  | .markGroupRead groupId connected a => c.markGroupRead blake3 me groupId connected a
  | .newlyReady ready receipt =>
    let walked := c.runRetryWalk blake3 me true ready
    match walked.activeSurface with
    | none => walked
    | some (.oneOnOne peer) => walked.emitReadReceiptIfEnabled blake3 me peer true (receipt peer)
    | some (.group groupId) => walked.markGroupRead blake3 me groupId true receipt
  | .setActiveSurface s => { c with activeSurface := s }
  | .addContact peer displayName =>
    if peer ∈ c.blockedIdentities ∨ (c.contacts.lookup peer).isSome then c
    else { c with contacts := c.contacts.insert peer { displayName := displayName } }
  | .rename peer newName =>
    if trimmed newName = "" then c
    else c.updateContact peer fun contact => { contact with displayName := trimmed newName }
  | .bundleResponse peer dropsChain s =>
    let dropped := if dropsChain then
        { c with out := { c.out with chain := Function.update c.out.chain peer none } }
      else c
    (dropped.updateContact peer fun contact =>
      { contact with sessionEstablished := true }).maybeServePendingChain me peer s
  | .bundleServed peer s =>
    (c.updateContact peer fun contact =>
      { contact with lastBundleServedAt := some c.out.now }).serveChain me peer
        Contact.chainServeCooldown s
  | .setContactTTL peer seconds =>
    c.updateContact peer fun contact => { contact with ttlSeconds := seconds }
  | .setReadReceiptsMode peer mode =>
    c.updateContact peer fun contact => { contact with readReceiptsMode := mode }
  | .setDefaultReadReceipts enabled => { c with defaultReadReceiptsEnabled := enabled }
  | .deleteChat peer => c.deleteChat peer
  | .deleteAllChats => (c.contacts.entries.map fun e => e.1).foldl deleteChat c
  | .deleteContact peer => if (c.contacts.lookup peer).isSome then c.removeContact peer else c
  | .blockIdentity peer => c.blockIdentity peer
  | .unblockIdentity peer =>
    { c with blockedIdentities := c.blockedIdentities.filter fun b => b ≠ peer }
  | .deleteGroupChat groupId => if (c.findGroup groupId).isSome then c.empty (.group groupId) else c
  | .removeGroup groupId =>
    if (c.findGroup groupId).isSome then
      { c with groups := c.groups.filter fun g => g.id ≠ groupId }.empty (.group groupId)
    else c
  | .groupWork w => c.groupWork blake3 me w
  | .tick seconds => c.call blake3 me (.tick seconds)
  | .relaunch disk =>
    { c with
      out := { c.out with
        chain := disk.chain
        outbox := disk.outbox
        legs := [] }
      chats := { c.chats with log := disk.log }
      contacts := disk.contacts
      groups := disk.groups
      blockedIdentities := disk.blockedIdentities
      defaultReadReceiptsEnabled := disk.defaultReadReceiptsEnabled
      activeSurface := none
      pendingV2Sends := ∅
      chainRotationLastRequestedAt := ∅
      reassembler := .fresh
      groupReassembler := .fresh
      groupAttachmentRouting := ∅
      decrypted := disk.session
      durable := disk.session
      history := { c.history with
        lost := c.history.lost ++ c.decrypted.filter fun f => f ∉ disk.session } }

/-- A relaunch reads what is on the disk. -/
def Event.Reads (c : ChatStore) : Event → Prop
  | .relaunch disk => disk.Of c
  | _ => True

end ChatStore

end Pizzini.Chat
