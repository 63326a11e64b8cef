import Pizzini.Storage.Records

/-!
# What the database gives back of a row (SQLiteStorage.swift:553–788, 1009–1092)

A row that is written comes back, with its dates rounded to the millisecond, from any tables
that could be read before. Every other field does, but for texts with a NUL in them, which end
there, and for numbers that trap on the way in. The outbox has no exception. A contact keeps the
date and the source of its first version.
-/

namespace Pizzini.Storage

open Wire Delivery
open Pizzini.Group (UUID asUUID ChatMessageKind)
open Pizzini.Chat (ChatBubbleSide)
open Relay (ChainId ChainValue)

/-! ## Raw values -/

@[simp] theorem sideOfRawValue_cString (side : ChatBubbleSide) :
    sideOfRawValue (cString (sideRawValue side)) = some side := by
  cases side <;> decide

@[simp] theorem kindOfRawValue_cString (kind : ChatMessageKind) :
    kindOfRawValue (cString (kindRawValue kind)) = some kind := by
  cases kind <;> decide

@[simp] theorem AttachmentTier.ofRawValue_cString (tier : AttachmentTier) :
    ofRawValue (cString tier.rawValue) = some tier := by
  cases tier <;> decide

@[simp] theorem ReadReceiptsMode.ofRawValue_cString (mode : ReadReceiptsMode) :
    ofRawValue (cString mode.rawValue) = some mode := by
  cases mode <;> decide

@[simp] theorem ContactSource.ofRawValue_cString (source : ContactSource) :
    ofRawValue (cString source.rawValue) = some source := by
  cases source <;> decide

/-! ## Messages -/

theorem val_of_asUUID {bs : Bytes} {uuid : UUID} (h : asUUID bs = some uuid) : uuid.1 = bs := by
  rw [asUUID] at h
  split at h
  · cases h
    rfl
  · cases h

/-- No text that is bound has a NUL. -/
def NulFree (s : String) : Prop := '\x00' ∉ s.toList

instance (s : String) : Decidable (NulFree s) := inferInstanceAs (Decidable ('\x00' ∉ s.toList))

/-- The attachment as it is read back. -/
def AttachmentInfo.stored (a : AttachmentInfo) : AttachmentInfo :=
  { a with
    filename := cString a.filename
    mime := cString a.mime
    sandboxRelativePath := a.sandboxRelativePath.map cString }

/-- The message with its dates rounded. -/
def PersistedMessage.kept (m : PersistedMessage) : PersistedMessage :=
  { m with
    timestamp := m.timestamp.toMillisecond
    readAt := m.readAt.map Date.toMillisecond }

/-- The message as it is read back. -/
def PersistedMessage.stored (m : PersistedMessage) : PersistedMessage :=
  { m.kept with
    text := cString m.text
    attachment := m.attachment.map AttachmentInfo.stored }

/-- What comes back unchanged. -/
def AttachmentInfo.Storable (a : AttachmentInfo) : Prop :=
  a.byteSize.toNat < 2 ^ 63 ∧ NulFree a.filename ∧ NulFree a.mime ∧
    ∀ path, a.sandboxRelativePath = some path → NulFree path

/-- What comes back unchanged but for the dates. -/
def PersistedMessage.Storable (m : PersistedMessage) : Prop :=
  NulFree m.text ∧ ∀ a, m.attachment = some a → a.Storable

/-- The attachment of a row that was written. -/
theorem readAttachment_of_bound {col : Nat → SqlValue} {attachment : Option AttachmentInfo}
    {byteSize : Option Int64} (hbound : boundByteSize attachment = some byteSize)
    (hid : col 10 = .ofOption .blob (attachment.map AttachmentInfo.attachmentId))
    (hfilename : col 11 = .ofOption .ofString (attachment.map AttachmentInfo.filename))
    (hsize : col 12 = .ofOption .integer byteSize)
    (hmime : col 13 = .ofOption .ofString (attachment.map AttachmentInfo.mime))
    (htier : col 14 = .ofOption .ofString (attachment.map fun a => a.tier.rawValue))
    (hpath : col 15 = .ofOption .ofString (attachment.bind AttachmentInfo.sandboxRelativePath))
    (hinbound : col 16 = .ofOption .ofBool (attachment.map AttachmentInfo.isInbound)) :
    readAttachment col = some (attachment.map AttachmentInfo.stored) := by
  cases attachment with
  | none =>
    rw [readAttachment, hid]
    rfl
  | some a =>
    rw [boundByteSize] at hbound
    obtain ⟨n, hn, rfl⟩ := Option.map_eq_some_iff.mp hbound
    obtain ⟨hlt, rfl⟩ := int64?_eq_some_iff.mp hn
    have hread := toUInt64_ofInt hlt
    have hnull : (col 10).columnIsNull = false := by
      rw [hid]
      rfl
    have hblob : (col 10).columnBlob = some a.attachmentId := by
      rw [hid]
      rfl
    have hint : (col 12).columnInt64 = Int64.ofInt a.byteSize.toNat := by
      rw [hsize]
      rfl
    have hflag : (col 16).columnBool = a.isInbound := by
      rw [hinbound]
      exact SqlValue.columnBool_ofBool _
    simp only [readAttachment, hnull, hblob, hint, hread, hflag, hfilename, hmime, htier, hpath,
      SqlValue.columnText_ofOption, Option.map_some, Option.bind_some, Option.getD_some,
      AttachmentTier.ofRawValue_cString, Bool.false_eq_true, if_false]
    rfl

/-- A row that was written, over an earlier one or not. -/
theorem readMessage_of_bound {m : PersistedMessage} (owner : MessageOwner)
    {byteSize : Option Int64} (hbound : boundByteSize m.attachment = some byteSize)
    {row : MessagesColumn → SqlValue} (hrow : ∀ c ∈ messagesUpdated,
      row c = bound messagesInserted (messageValues owner m byteSize) c) :
    readMessage m.id.1 row = some (some m.stored) := by
  have hattachment : readAttachment (column messagesSelected .id m.id.1 row) =
      some (m.attachment.map AttachmentInfo.stored) :=
    readAttachment_of_bound hbound (hrow .attachmentId (by decide))
      (hrow .attachmentFilename (by decide)) (hrow .attachmentByteSize (by decide))
      (hrow .attachmentMime (by decide)) (hrow .attachmentTier (by decide))
      (hrow .attachmentSandboxPath (by decide)) (hrow .attachmentIsInbound (by decide))
  have hside : row .side = .ofString (sideRawValue m.side) := hrow .side (by decide)
  have htext : row .text = .ofString m.text := hrow .text (by decide)
  have hkind : row .kind = .ofString (kindRawValue m.kind) := hrow .kind (by decide)
  have hbytes : row .bytes = .integer m.bytes := hrow .bytes (by decide)
  have htimestamp : row .timestamp = .ofDate m.timestamp := hrow .timestamp (by decide)
  have hmessageId : row .messageId = .ofOption .blob m.messageId := hrow .messageId (by decide)
  have hreadAt : row .readAt = .ofOption .ofDate m.readAt := hrow .readAt (by decide)
  have hsender : row .senderPeerId = .ofOption .blob m.senderPeerId :=
    hrow .senderPeerId (by decide)
  have hgroup : row .groupMessageId = .ofOption .blob m.groupMessageId :=
    hrow .groupMessageId (by decide)
  have huuid : asUUID ((column messagesSelected .id m.id.1 row 0).columnBlob.getD []) = some m.id :=
    Group.asUUID_val _
  simp only [readMessage, huuid, hattachment, Option.map_some]
  show some (some (
      { id := m.id
        side := (sideOfRawValue ((row .side).columnText.getD "")).getD .me
        text := (row .text).columnText.getD ""
        kind := (kindOfRawValue ((row .kind).columnText.getD "")).getD .whisper
        bytes := (row .bytes).columnInt64
        timestamp := .fromEpochMs (row .timestamp).columnInt64
        messageId := (row .messageId).columnBlob
        readAt := (row .readAt).columnDate
        attachment := m.attachment.map AttachmentInfo.stored
        senderPeerId := (row .senderPeerId).columnBlob
        groupMessageId := (row .groupMessageId).columnBlob } : PersistedMessage)) = _
  rw [hside, htext, hkind, hbytes, htimestamp, hmessageId, hreadAt, hsender, hgroup]
  simp [PersistedMessage.stored, PersistedMessage.kept, Date.toMillisecond, SqlValue.ofDate,
    SqlValue.columnInt64]

/-- A row is read with the id that it is stored under. -/
theorem id_of_readMessage {key : Bytes} {row : MessagesColumn → SqlValue} {m : PersistedMessage}
    (h : readMessage key row = some (some m)) : m.id.1 = key := by
  rw [readMessage] at h
  cases huuid : asUUID key with
  | none =>
    rw [show asUUID ((column messagesSelected .id key row 0).columnBlob.getD []) = none
      from huuid] at h
    cases h
  | some uuid =>
    rw [show asUUID ((column messagesSelected .id key row 0).columnBlob.getD []) = some uuid
      from huuid] at h
    obtain ⟨attachment, -, heq⟩ := Option.map_eq_some_iff.mp h
    cases heq
    exact val_of_asUUID huuid

/-- The row that is there after an upsert has the new values in the columns of the update. -/
theorem upsert_columns {C : Type} [DecidableEq C] (set : List C) (k : Bytes)
    (excluded : C → SqlValue) (d : Dict Bytes (C → SqlValue)) :
    ∃ row, KeyedTable.upsert (doUpdate set) k excluded d = d.insert k row ∧
      (∀ c ∈ set, row c = excluded c) ∧
      (d.lookup k = none ∧ row = excluded ∨
        ∃ old, d.lookup k = some old ∧ row = doUpdate set old excluded) := by
  obtain ⟨row, hinsert, hrow⟩ := KeyedTable.upsert_cases (doUpdate set) k excluded d
  refine ⟨row, hinsert, fun c hc => ?_, hrow⟩
  rcases hrow with ⟨-, rfl⟩ | ⟨old, -, rfl⟩
  · rfl
  · exact if_pos hc

/-- The message is read back as it is, but for its dates. -/
def MessageSurvives (m : PersistedMessage) (owner : MessageOwner) (t : Tables) : Prop :=
  ∃ t', upsertMessage m owner t = some t' ∧ ∃ ms, loadMessages owner t' = some ms ∧
    ms.filter (fun m' => m'.id.1 = m.id.1) = [m.kept]

/-- A message that is written is read back, once. -/
theorem loadMessages_upsertMessage {m : PersistedMessage} {owner : MessageOwner} {t : Tables}
    {byteSize : Option Int64} (hbound : boundByteSize m.attachment = some byteSize)
    (howner : owner.Exists t)
    (hsame : ∀ row, t.messages.lookup m.id.1 = some row → owner.owns row = true)
    {ms : List PersistedMessage} (hload : loadMessages owner t = some ms) :
    ∃ t', upsertMessage m owner t = some t' ∧ ∃ ms', loadMessages owner t' = some ms' ∧
      ms'.filter (fun m' => m'.id.1 = m.id.1) = [m.stored] := by
  obtain ⟨row, hinsert, hcolumns, hrow⟩ := upsert_columns messagesUpdated m.id.1
    (bound messagesInserted (messageValues owner m byteSize)) t.messages
  have hupsert : upsertMessage m owner t =
      some { t with messages := t.messages.insert m.id.1 row } := by
    simp only [upsertMessage, hbound, if_pos howner, hinsert]
  refine ⟨_, hupsert, KeyedTable.collect_insert hload ?_
    (readMessage_of_bound owner hbound hcolumns) id_of_readMessage⟩
  rcases hrow with ⟨-, rfl⟩ | ⟨old, hold, rfl⟩
  · cases owner with
    | contact id => exact decide_eq_true rfl
    | group id => exact decide_eq_true rfl
  · -- the update leaves the owner
    have howns := hsame old hold
    cases owner with
    | contact id => exact howns
    | group id => exact howns

theorem map_cString_eq_self_iff {s : Option String} :
    s.map cString = s ↔ ∀ text, s = some text → NulFree text := by
  cases s with
  | none => exact iff_of_true rfl nofun
  | some text =>
    rw [Option.map_some, Option.some_inj, cString_eq_self_iff]
    exact ⟨fun h _ heq => Option.some.inj heq ▸ h, fun h => h text rfl⟩

/-- An attachment comes back where its texts have no NUL. -/
theorem AttachmentInfo.stored_eq_self_iff {a : AttachmentInfo} :
    a.stored = a ↔ NulFree a.filename ∧ NulFree a.mime ∧
      ∀ path, a.sandboxRelativePath = some path → NulFree path := by
  obtain ⟨id, filename, byteSize, mime, tier, path, inbound⟩ := a
  rw [stored, AttachmentInfo.mk.injEq]
  simp only [true_and, and_true]
  rw [cString_eq_self_iff, cString_eq_self_iff, map_cString_eq_self_iff]
  rfl

/-- A message comes back where its texts have no NUL. -/
theorem PersistedMessage.stored_eq_kept_iff {m : PersistedMessage} :
    m.stored = m.kept ↔ NulFree m.text ∧ ∀ a, m.attachment = some a → a.stored = a := by
  obtain ⟨id, side, text, kind, bytes, timestamp, messageId, readAt, attachment, sender, group⟩ := m
  rw [stored, kept, PersistedMessage.mk.injEq]
  simp only [true_and, and_true]
  rw [cString_eq_self_iff]
  refine and_congr_right fun _ => ?_
  cases attachment with
  | none => exact iff_of_true rfl nofun
  | some a =>
    rw [Option.map_some, Option.some_inj]
    exact ⟨fun h _ heq => Option.some.inj heq ▸ h, fun h => h a rfl⟩

/-- The size of an attachment of 2⁶³ bytes or more cannot be bound. -/
theorem boundByteSize_eq_some_iff {attachment : Option AttachmentInfo} :
    (∃ byteSize, boundByteSize attachment = some byteSize) ↔
      ∀ a, attachment = some a → a.byteSize.toNat < 2 ^ 63 := by
  cases attachment with
  | none => exact iff_of_true ⟨_, rfl⟩ nofun
  | some a =>
    rw [boundByteSize]
    constructor
    · rintro ⟨byteSize, h⟩ _ ⟨⟩
      obtain ⟨n, hn, -⟩ := Option.map_eq_some_iff.mp h
      exact (int64?_eq_some_iff.mp hn).1
    · intro h
      exact ⟨_, Option.map_eq_some_iff.mpr ⟨_, int64?_eq_some_iff.mpr ⟨h a rfl, rfl⟩, rfl⟩⟩

/-- A message comes back exactly if it has no NUL, and no attachment of 2⁶³ bytes or more. -/
theorem messageSurvives_iff {m : PersistedMessage} {owner : MessageOwner} {t : Tables}
    (howner : owner.Exists t)
    (hsame : ∀ row, t.messages.lookup m.id.1 = some row → owner.owns row = true)
    {ms : List PersistedMessage} (hload : loadMessages owner t = some ms) :
    MessageSurvives m owner t ↔ m.Storable := by
  have hsplit : m.Storable ↔ (∃ byteSize, boundByteSize m.attachment = some byteSize) ∧
      m.stored = m.kept := by
    rw [boundByteSize_eq_some_iff, PersistedMessage.stored_eq_kept_iff]
    exact ⟨fun h => ⟨fun a ha => (h.2 a ha).1, h.1,
        fun a ha => AttachmentInfo.stored_eq_self_iff.mpr (h.2 a ha).2⟩,
      fun h => ⟨h.2.1, fun a ha => ⟨h.1 a ha, AttachmentInfo.stored_eq_self_iff.mp (h.2.2 a ha)⟩⟩⟩
  rw [hsplit]
  cases hbound : boundByteSize m.attachment with
  | none =>
    refine iff_of_false ?_ fun h => nomatch h.1.choose_spec
    rintro ⟨t', hupsert, -⟩
    simp only [upsertMessage, hbound] at hupsert
    cases hupsert
  | some byteSize =>
    obtain ⟨t', hupsert, ms', hload', hfilter⟩ :=
      loadMessages_upsertMessage hbound howner hsame hload
    constructor
    · rintro ⟨t'', hupsert', ms'', hload'', hfilter'⟩
      cases hupsert.symm.trans hupsert'
      cases hload'.symm.trans hload''
      exact ⟨⟨_, rfl⟩, List.singleton_injective (hfilter.symm.trans hfilter')⟩
    · rintro ⟨-, heq⟩
      exact ⟨t', hupsert, ms', hload', heq ▸ hfilter⟩

/-! ## Contacts -/

/-- What `decodeChain` accepts, of what `encodeChain` can write. -/
def ChainStorable (chain : Chain) : Prop :=
  chain.length < 2 ^ 32 ∧ chain.nextIndex < 2 ^ 32 ∧
    0 < chain.length ∧ 1 ≤ chain.nextIndex ∧ chain.nextIndex ≤ chain.length + 1

/-- The contact with its dates rounded, with the log that is stored for it, and with the date and
the source of its earlier version. -/
def Contact.kept (c : Contact) (earlier : Option Contact) (log : List PersistedMessage) :
    Contact :=
  { c with
    log := log
    lastMessageAt := c.lastMessageAt.map Date.toMillisecond
    lastSeenAt := c.lastSeenAt.map Date.toMillisecond
    addedAt := (earlier.map Contact.addedAt).getD c.addedAt.toMillisecond
    lastChainServedAt := c.lastChainServedAt.map Date.toMillisecond
    lastBundleServedAt := c.lastBundleServedAt.map Date.toMillisecond
    addedVia := (earlier.map Contact.addedVia).getD c.addedVia
    verifiedAt := c.verifiedAt.map Date.toMillisecond
    mutedAt := c.mutedAt.map Date.toMillisecond }

/-- The contact as it is read back. -/
def Contact.stored (c : Contact) (earlier : Option Contact) (log : List PersistedMessage)
    (wire : Option Bytes) : Contact :=
  { c.kept earlier log with
    displayName := cString c.displayName
    outboundTokenChain := wire.bind decodeChain }

/-- What comes back unchanged but for the dates. -/
def Contact.Storable (c : Contact) : Prop :=
  NulFree c.displayName ∧ ∀ chain, c.outboundTokenChain = some chain → ChainStorable chain

/-- The version of the contact that is stored. -/
def storedContact (id : UUID) (t : Tables) : Option Contact :=
  (t.contacts.lookup id.1).bind fun row => (readContact t id.1 row).join

/-- The fields are where `decodeChain` looks for them. -/
theorem decodeChain_append (chainID : ChainId) (seed root : ChainValue) {length nextIndex : Nat}
    (hlength : length < 2 ^ 32) (hnext : nextIndex < 2 ^ 32) :
    decodeChain (chainID.1 ++ (seed.1 ++ (root.1 ++ (beBytes 4 length ++ beBytes 4 nextIndex)))) =
      if 0 < length ∧ 1 ≤ nextIndex ∧ nextIndex ≤ length + 1 then
        some ⟨chainID, seed, length, root, nextIndex⟩
      else none := by
  have hid : chainID.1.length = 16 := chainID.2
  have hseed : seed.1.length = 32 := seed.2
  have hroot : root.1.length = 32 := root.2
  generalize hwire : chainID.1 ++ (seed.1 ++ (root.1 ++ (beBytes 4 length ++ beBytes 4 nextIndex)))
    = wire
  have hlen : wire.length = 88 := by
    rw [← hwire]
    simp only [List.length_append, length_beBytes, hid, hseed, hroot]
  -- the offsets of the fields
  have hdrop16 : wire.drop 16 = seed.1 ++ (root.1 ++ (beBytes 4 length ++ beBytes 4 nextIndex)) := by
    rw [← hwire, List.drop_left' hid]
  have hdrop48 : wire.drop 48 = root.1 ++ (beBytes 4 length ++ beBytes 4 nextIndex) := by
    rw [show 48 = 16 + 32 from rfl, ← List.drop_drop, hdrop16, List.drop_left' hseed]
  have hdrop80 : wire.drop 80 = beBytes 4 length ++ beBytes 4 nextIndex := by
    rw [show 80 = 48 + 32 from rfl, ← List.drop_drop, hdrop48, List.drop_left' hroot]
  have hdrop84 : wire.drop 84 = beBytes 4 nextIndex := by
    rw [show 84 = 80 + 4 from rfl, ← List.drop_drop, hdrop80,
      List.drop_left' (length_beBytes 4 length)]
  rw [decodeChain, dif_pos hlen]
  simp only [hdrop16, hdrop48, hdrop80, hdrop84, List.take_left' (length_beBytes 4 length)]
  rw [beNat_beBytes hlength, beNat_beBytes hnext]
  refine if_congr Iff.rfl (congrArg some ?_) rfl
  rw [Chain.mk.injEq]
  refine ⟨Subtype.ext ?_, Subtype.ext (List.take_left' hseed), rfl,
    Subtype.ext (List.take_left' hroot), rfl⟩
  show wire.take 16 = chainID.1
  rw [← hwire, List.take_left' hid]

/-- A chain is decoded as it was encoded. -/
theorem decodeChain_of_encodeChain {chain : Chain} {wire : Bytes}
    (h : encodeChain chain = some wire) :
    decodeChain wire = if 0 < chain.length ∧ 1 ≤ chain.nextIndex ∧
      chain.nextIndex ≤ chain.length + 1 then some chain else none := by
  rw [encodeChain] at h
  split at h
  · next hlt =>
    cases h
    exact decodeChain_append chain.chainID chain.seed chain.root hlt.1 hlt.2
  · cases h

/-- The chain that is read back is the one that was bound. -/
theorem chain_survives_iff {chain : Option Chain} :
    (∃ wire, boundChain chain = some wire ∧ wire.bind decodeChain = chain) ↔
      ∀ ch, chain = some ch → ChainStorable ch := by
  cases chain with
  | none => exact iff_of_true ⟨_, rfl, rfl⟩ nofun
  | some ch =>
    rw [boundChain]
    constructor
    · rintro ⟨_, h, hread⟩ _ ⟨⟩
      obtain ⟨wire, hwire, rfl⟩ := Option.map_eq_some_iff.mp h
      rw [Option.bind_some, decodeChain_of_encodeChain hwire] at hread
      rw [encodeChain] at hwire
      split at hwire
      · next hlt =>
        split at hread
        · next hrange => exact ⟨hlt.1, hlt.2, hrange⟩
        · cases hread
      · cases hwire
    · intro h
      obtain ⟨hlength, hnext, hrange⟩ := h ch rfl
      obtain ⟨wire, hwire⟩ : ∃ wire, encodeChain ch = some wire := by
        rw [encodeChain, if_pos ⟨hlength, hnext⟩]
        exact ⟨_, rfl⟩
      refine ⟨_, congrArg _ hwire, ?_⟩
      rw [Option.bind_some, decodeChain_of_encodeChain hwire, if_pos hrange]

/-- A row with the columns of an update; `added_at` and `added_via` are of the row itself. -/
theorem readContact_of_bound {c : Contact} {wire : Option Bytes} {t : Tables}
    {row : ContactsColumn → SqlValue} (hrow : ∀ col ∈ contactsUpdated,
      row col = bound contactsInserted (contactValues c wire) col)
    {log : List PersistedMessage} (hlog : loadMessages (.contact c.id) t = some log) :
    readContact t c.id.1 row = some (some (
      { c.stored none log wire with
        addedAt := .fromEpochMs (row .addedAt).columnInt64
        addedVia := (ContactSource.ofRawValue
          ((row .addedVia).columnText.getD ContactSource.unknown.rawValue)).getD .unknown } :
        Contact)) := by
  have hidentity : row .identityPub = .blob c.identityPub := hrow .identityPub (by decide)
  have hname : row .displayName = .ofString c.displayName := hrow .displayName (by decide)
  have hsession : row .sessionEstablished = .ofBool c.sessionEstablished :=
    hrow .sessionEstablished (by decide)
  have hmessage : row .lastMessageAt = .ofOption .ofDate c.lastMessageAt :=
    hrow .lastMessageAt (by decide)
  have hseen : row .lastSeenAt = .ofOption .ofDate c.lastSeenAt := hrow .lastSeenAt (by decide)
  have hchain : row .lastChainServedAt = .ofOption .ofDate c.lastChainServedAt :=
    hrow .lastChainServedAt (by decide)
  have httl : row .ttlSeconds = .ofUInt32 c.ttlSeconds := hrow .ttlSeconds (by decide)
  have hmode : row .readReceiptsMode = .ofString c.readReceiptsMode.rawValue :=
    hrow .readReceiptsMode (by decide)
  have hverify : row .peerVerifyKey = .ofOption .blob c.peerVerifyKey :=
    hrow .peerVerifyKey (by decide)
  have hbundle : row .lastBundleServedAt = .ofOption .ofDate c.lastBundleServedAt :=
    hrow .lastBundleServedAt (by decide)
  have hverified : row .verifiedAt = .ofOption .ofDate c.verifiedAt := hrow .verifiedAt (by decide)
  have hmuted : row .mutedAt = .ofOption .ofDate c.mutedAt := hrow .mutedAt (by decide)
  have htoken : row .outboundTokenChain = .ofOption .blob wire :=
    hrow .outboundTokenChain (by decide)
  have huuid : asUUID ((column contactsSelected .id c.id.1 row 0).columnBlob.getD []) = some c.id :=
    Group.asUUID_val _
  have hseconds : toUInt32 (column contactsSelected .id c.id.1 row 8).columnInt64 =
      some c.ttlSeconds := by
    show toUInt32 (row .ttlSeconds).columnInt64 = _
    rw [httl, toUInt32_ofUInt32]
  simp only [readContact, huuid, hseconds, hlog]
  show some (some (
        { id := c.id
          identityPub := (row .identityPub).columnBlob.getD []
          displayName := (row .displayName).columnText.getD ""
          sessionEstablished := (row .sessionEstablished).columnBool
          log := log
          lastMessageAt := (row .lastMessageAt).columnDate
          lastSeenAt := (row .lastSeenAt).columnDate
          addedAt := .fromEpochMs (row .addedAt).columnInt64
          lastChainServedAt := (row .lastChainServedAt).columnDate
          ttlSeconds := c.ttlSeconds
          readReceiptsMode := (ReadReceiptsMode.ofRawValue ((row .readReceiptsMode).columnText.getD
            ReadReceiptsMode.followDefault.rawValue)).getD .followDefault
          peerVerifyKey := (row .peerVerifyKey).columnBlob
          lastBundleServedAt := (row .lastBundleServedAt).columnDate
          addedVia := (ContactSource.ofRawValue
            ((row .addedVia).columnText.getD ContactSource.unknown.rawValue)).getD .unknown
          verifiedAt := (row .verifiedAt).columnDate
          mutedAt := (row .mutedAt).columnDate
          outboundTokenChain := (row .outboundTokenChain).columnBlob.bind decodeChain } : Contact))
    = _
  simp only [hidentity, hname, hsession, hmessage, hseen, hchain, hmode, hverify, hbundle,
    hverified, hmuted, htoken, SqlValue.columnText_ofString, SqlValue.columnBool_ofBool, SqlValue.columnDate_ofOption,
    SqlValue.columnBlob_ofOption, Option.getD_some, ReadReceiptsMode.ofRawValue_cString]
  rfl

/-- A row is read with the id that it is stored under. -/
theorem id_of_readContact {t : Tables} {key : Bytes} {row : ContactsColumn → SqlValue} {c : Contact}
    (h : readContact t key row = some (some c)) : c.id.1 = key := by
  rw [readContact] at h
  cases huuid : asUUID key with
  | none =>
    rw [show asUUID ((column contactsSelected .id key row 0).columnBlob.getD []) = none
      from huuid] at h
    cases h
  | some uuid =>
    rw [show asUUID ((column contactsSelected .id key row 0).columnBlob.getD []) = some uuid
      from huuid] at h
    simp only at h
    split at h
    · cases h
      exact val_of_asUUID huuid
    · cases h

/-- The columns that an update leaves. -/
theorem added_of_readContact {t : Tables} {key : Bytes} {row : ContactsColumn → SqlValue}
    {c : Contact} (h : readContact t key row = some (some c)) :
    c.addedAt = .fromEpochMs (row .addedAt).columnInt64 ∧
      c.addedVia = (ContactSource.ofRawValue
        ((row .addedVia).columnText.getD ContactSource.unknown.rawValue)).getD .unknown := by
  rw [readContact] at h
  split at h
  · cases h
  · split at h
    · cases h
      exact ⟨rfl, rfl⟩
    · cases h

/-- A row under an identifier is not skipped. -/
theorem exists_of_isSome_readContact {t : Tables} {id : UUID} {row : ContactsColumn → SqlValue}
    (h : (readContact t id.1 row).isSome) : ∃ c, readContact t id.1 row = some (some c) := by
  obtain ⟨read, hread⟩ := Option.isSome_iff_exists.mp h
  rw [hread]
  rw [readContact] at hread
  split at hread
  · next hnone => cases hnone.symm.trans (Group.asUUID_val id)
  · split at hread
    · cases hread
      exact ⟨_, rfl⟩
    · cases hread

/-- The log of a contact is in another table than the contact. -/
theorem readContact_contacts (t : Tables) (contacts : Dict Bytes (ContactsColumn → SqlValue)) :
    readContact { t with contacts := contacts } = readContact t := rfl

/-- The contact is read back as it is, but for its dates, its log and where it came from. -/
def ContactSurvives (c : Contact) (t : Tables) : Prop :=
  ∃ t', upsertContact c t = some t' ∧ ∃ cs log, loadContacts t' = some cs ∧
    loadMessages (.contact c.id) t = some log ∧
      cs.filter (fun c' => c'.id.1 = c.id.1) = [c.kept (storedContact c.id t) log]

/-- A contact that is written is read back, once. -/
theorem loadContacts_upsertContact {c : Contact} {t : Tables} {wire : Option Bytes}
    (hbound : boundChain c.outboundTokenChain = some wire) (hfree : identityTaken c t = false)
    {cs : List Contact} (hload : loadContacts t = some cs) {log : List PersistedMessage}
    (hlog : loadMessages (.contact c.id) t = some log) :
    ∃ t', upsertContact c t = some t' ∧ ∃ cs', loadContacts t' = some cs' ∧
      cs'.filter (fun c' => c'.id.1 = c.id.1) = [c.stored (storedContact c.id t) log wire] := by
  obtain ⟨row, hinsert, hcolumns, hrow⟩ := upsert_columns contactsUpdated c.id.1
    (bound contactsInserted (contactValues c wire)) t.contacts
  have hupsert : upsertContact c t = some { t with contacts := t.contacts.insert c.id.1 row } := by
    simp only [upsertContact, hbound, hfree, hinsert]
    rfl
  refine ⟨_, hupsert, ?_⟩
  rw [loadContacts, readContact_contacts]
  refine KeyedTable.collect_insert hload rfl ?_ id_of_readContact
  rw [readContact_of_bound hcolumns hlog]
  rcases hrow with ⟨hnone, rfl⟩ | ⟨old, hold, rfl⟩
  · rw [storedContact, hnone]
    refine congrArg (fun c => some (some c)) ?_
    rw [Contact.stored, Contact.kept, Contact.stored, Contact.kept, Contact.mk.injEq]
    refine ⟨rfl, rfl, rfl, rfl, rfl, rfl, rfl, rfl, rfl, rfl, rfl, rfl, rfl, ?_, rfl, rfl, rfl⟩
    show (ContactSource.ofRawValue ((SqlValue.ofString c.addedVia.rawValue).columnText.getD
      _)).getD _ = c.addedVia
    rw [SqlValue.columnText_ofString, Option.getD_some, ContactSource.ofRawValue_cString]
    rfl
  · -- the date and the source of the earlier row
    obtain ⟨c₀, hc₀⟩ := exists_of_isSome_readContact <|
      (KeyedTable.collect_eq_some_iff.mp hload).1 ⟨c.id.1, old⟩
        (KeyedTable.mem_select.mpr ⟨AList.mem_lookup_iff.mp hold, rfl⟩)
    have hearlier : storedContact c.id t = some c₀ := by
      rw [storedContact, hold, Option.bind_some, hc₀]
      rfl
    obtain ⟨hadded, hvia⟩ := added_of_readContact hc₀
    rw [hearlier]
    refine congrArg (fun c => some (some c)) ?_
    rw [Contact.stored, Contact.kept, Contact.stored, Contact.kept, Contact.mk.injEq]
    exact ⟨rfl, rfl, rfl, rfl, rfl, rfl, rfl, hadded.symm, rfl, rfl, rfl, rfl, rfl, hvia.symm, rfl,
      rfl, rfl⟩

/-- A contact comes back exactly if its name has no NUL and its chain is one that is decoded. -/
theorem contactSurvives_iff {c : Contact} {t : Tables} (hfree : identityTaken c t = false)
    {cs : List Contact} (hload : loadContacts t = some cs) {log : List PersistedMessage}
    (hlog : loadMessages (.contact c.id) t = some log) : ContactSurvives c t ↔ c.Storable := by
  rw [Contact.Storable, ← chain_survives_iff]
  cases hbound : boundChain c.outboundTokenChain with
  | none =>
    refine iff_of_false ?_ fun h => nomatch h.2.choose_spec.1
    rintro ⟨t', hupsert, -⟩
    simp only [upsertContact, hbound] at hupsert
    cases hupsert
  | some wire =>
    obtain ⟨t', hupsert, cs', hload', hfilter⟩ :=
      loadContacts_upsertContact hbound hfree hload hlog
    have hsame : c.stored (storedContact c.id t) log wire = c.kept (storedContact c.id t) log ↔
        NulFree c.displayName ∧ wire.bind decodeChain = c.outboundTokenChain := by
      rw [Contact.stored, Contact.kept, Contact.mk.injEq]
      simp only [true_and]
      rw [cString_eq_self_iff]
      rfl
    constructor
    · rintro ⟨t'', hupsert', cs'', log', hload'', hlog', hfilter'⟩
      cases hupsert.symm.trans hupsert'
      cases hload'.symm.trans hload''
      cases hlog.symm.trans hlog'
      obtain ⟨hname, hchain⟩ := hsame.mp (List.singleton_injective (hfilter.symm.trans hfilter'))
      exact ⟨hname, wire, rfl, hchain⟩
    · rintro ⟨hname, _, ⟨⟩, hchain⟩
      exact ⟨t', hupsert, cs', log, hload', hlog, hsame.mpr ⟨hname, hchain⟩ ▸ hfilter⟩

/-! ## The outbox -/

/-- The entry with its dates rounded. -/
def OutboxEntry.kept (e : OutboxEntry) : OutboxEntry :=
  { e with
    sentAt := e.sentAt.toMillisecond
    deliveredAt := e.deliveredAt.map Date.toMillisecond
    failedAt := e.failedAt.map Date.toMillisecond
    relayedAt := e.relayedAt.map Date.toMillisecond
    readAt := e.readAt.map Date.toMillisecond }

/-- The entry is read back as it is, but for its dates. -/
def OutboxEntrySurvives (e : OutboxEntry) (t : Tables) : Prop :=
  ∃ t', upsertOutboxEntry e t = some t' ∧
    ∃ store, loadOutbox t' = some store ∧ store.lookup e.messageId = some e.kept

/-- A number that was bound, or nothing. -/
@[simp] theorem columnOptionalUInt32_ofOption (n : Option UInt32) :
    columnOptionalUInt32 (.ofOption .ofUInt32 n) = some n := by
  cases n with
  | none => rfl
  | some n =>
    show (toUInt32 (SqlValue.ofUInt32 n).columnInt64).map some = some (some n)
    rw [toUInt32_ofUInt32]
    rfl

/-- A whole number of seconds is not truncated. -/
theorem truncated_natCast {n : Nat} (h : n < 2 ^ 63) : truncated n = some (Int64.ofInt n) := by
  rw [truncated, if_pos (Nat.cast_nonneg n), Int.floor_natCast, Group.toInt64,
    if_pos ⟨by omega, by omega⟩]

/-- A row that was written, over an earlier one or not. -/
theorem readOutboxEntry_of_bound {e : OutboxEntry} {n : UInt32} (httl : e.ttl = n.toNat)
    {row : OutboxColumn → SqlValue} (hrow : ∀ c ∈ outboxUpdated,
      row c = bound outboxColumns (outboxValues e (Int64.ofInt n.toNat)) c) :
    readOutboxEntry e.messageId row = some (some e.kept) := by
  have hrecipient : row .recipientPeerId = .blob e.recipientPeerId :=
    hrow .recipientPeerId (by decide)
  have hsealed : row .sealedCiphertext = .blob e.sealedCiphertext :=
    hrow .sealedCiphertext (by decide)
  have htoken : row .token = .blob e.token := hrow .token (by decide)
  have hseconds : row .ttl = .integer (Int64.ofInt n.toNat) := hrow .ttl (by decide)
  have hsent : row .sentAt = .ofDate e.sentAt := hrow .sentAt (by decide)
  have hretries : row .retries = .integer e.retries := hrow .retries (by decide)
  have hdelivered : row .deliveredAt = .ofOption .ofDate e.deliveredAt :=
    hrow .deliveredAt (by decide)
  have hfailed : row .failedAt = .ofOption .ofDate e.failedAt := hrow .failedAt (by decide)
  have hrelayed : row .relayedAt = .ofOption .ofDate e.relayedAt := hrow .relayedAt (by decide)
  have hattachment : row .attachmentId = .ofOption .blob e.attachmentId :=
    hrow .attachmentId (by decide)
  have hindex : row .chunkIndex = .ofOption .ofUInt32 e.chunkIndex := hrow .chunkIndex (by decide)
  have hcount : row .chunkCount = .ofOption .ofUInt32 e.chunkCount := hrow .chunkCount (by decide)
  have hgroup : row .groupMessageId = .ofOption .blob e.groupMessageId :=
    hrow .groupMessageId (by decide)
  have hread : row .readAt = .ofOption .ofDate e.readAt := hrow .readAt (by decide)
  have hlt := n.toNat_lt
  have hint : (Int64.ofInt (n.toNat : ℤ)).toInt = n.toNat :=
    Int64.toInt_ofInt_of_le (by omega) (by omega)
  have hback : ((Int64.ofInt (n.toNat : ℤ)).toInt : ℚ) = e.ttl := by
    rw [hint, httl]
    rfl
  have hchunkIndex : columnOptionalUInt32 (column outboxColumns .messageId e.messageId row 11) =
      some e.chunkIndex := by
    show columnOptionalUInt32 (row .chunkIndex) = _
    rw [hindex, columnOptionalUInt32_ofOption]
  have hchunkCount : columnOptionalUInt32 (column outboxColumns .messageId e.messageId row 12) =
      some e.chunkCount := by
    show columnOptionalUInt32 (row .chunkCount) = _
    rw [hcount, columnOptionalUInt32_ofOption]
  simp only [readOutboxEntry, hchunkIndex, hchunkCount]
  show some (some (
      { messageId := e.messageId
        recipientPeerId := (row .recipientPeerId).columnBlob.getD []
        sealedCiphertext := (row .sealedCiphertext).columnBlob.getD []
        token := (row .token).columnBlob.getD []
        ttl := (row .ttl).columnInt64.toInt
        sentAt := .fromEpochMs (row .sentAt).columnInt64
        retries := (row .retries).columnInt64
        deliveredAt := (row .deliveredAt).columnDate
        failedAt := (row .failedAt).columnDate
        relayedAt := (row .relayedAt).columnDate
        attachmentId := (row .attachmentId).columnBlob
        chunkIndex := e.chunkIndex
        chunkCount := e.chunkCount
        groupMessageId := (row .groupMessageId).columnBlob
        readAt := (row .readAt).columnDate } : OutboxEntry)) = _
  simp only [hrecipient, hsealed, htoken, hseconds, hsent, hretries, hdelivered, hfailed, hrelayed,
    hattachment, hgroup, hread, SqlValue.columnDate_ofOption, SqlValue.columnBlob_ofOption, SqlValue.columnInt64, hback]
  rfl

/-- A row is read with the message id that it is stored under. -/
theorem messageId_of_readOutboxEntry {key : Bytes} {row : OutboxColumn → SqlValue}
    {e : OutboxEntry} (h : readOutboxEntry key row = some (some e)) : e.messageId = key := by
  rw [readOutboxEntry] at h
  split at h
  · cases h
    rfl
  · cases h

/-- An entry comes back. -/
theorem outboxEntrySurvives {e : OutboxEntry} {n : UInt32} (httl : e.ttl = n.toNat) {t : Tables}
    {store : Dict Bytes OutboxEntry} (hload : loadOutbox t = some store) :
    OutboxEntrySurvives e t := by
  have hlt := n.toNat_lt
  obtain ⟨row, hinsert, hcolumns, -⟩ := upsert_columns outboxUpdated e.messageId
    (bound outboxColumns (outboxValues e (Int64.ofInt n.toNat))) t.outbox
  have hupsert : upsertOutboxEntry e t =
      some { t with outbox := t.outbox.insert e.messageId row } := by
    rw [upsertOutboxEntry, httl, truncated_natCast (by omega), Option.map_some, hinsert]
  obtain ⟨entries, hentries, -⟩ := Option.map_eq_some_iff.mp hload
  obtain ⟨entries', hentries', hfilter⟩ := KeyedTable.collect_insert hentries rfl
    (readOutboxEntry_of_bound httl hcolumns) messageId_of_readOutboxEntry
  refine ⟨_, hupsert, _, congrArg _ hentries', ?_⟩
  rw [KeyedTable.lookup_foldl_insert_key, hfilter]
  rfl

end Pizzini.Storage
