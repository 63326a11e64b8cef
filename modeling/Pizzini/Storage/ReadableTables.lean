import Pizzini.Storage.RowRoundTrips

/-!
# Tables that were written can be read

`Readable` is kept by the three upserts, and so by any run of them (`Readable.run`).
`rows_survive`: in readable tables a record comes back exactly if its texts have no NUL and its
numbers fit. `nul_ends_text` is a message that does not.
-/

namespace Pizzini.Storage

open Wire Delivery
open Pizzini.Group (UUID)

/-- Every row can be read. -/
structure Readable (t : Tables) : Prop where
  contacts : ∀ e ∈ t.contacts.entries, (toUInt32 (e.2 .ttlSeconds).columnInt64).isSome
  messages : ∀ e ∈ t.messages.entries, (readMessage e.1 e.2).isSome
  outbox : ∀ e ∈ t.outbox.entries, (readOutboxEntry e.1 e.2).isSome

/-- A row that is inserted is the only one that is new. -/
theorem forall_entries_insert {K R : Type} [DecidableEq K] {P : (Σ _ : K, R) → Prop}
    {d : Dict K R} (hd : ∀ e ∈ d.entries, P e) {k : K} {row : R} (hrow : P ⟨k, row⟩) :
    ∀ e ∈ (d.insert k row).entries, P e := by
  intro e he
  rw [AList.entries_insert, List.mem_cons] at he
  rcases he with rfl | he
  · exact hrow
  · exact hd e ((List.kerase_sublist k d.entries).subset he)

namespace Readable

variable {t t' : Tables}

theorem empty : Readable .empty := ⟨nofun, nofun, nofun⟩

theorem loadMessages (h : Readable t) (owner : MessageOwner) :
    ∃ ms, loadMessages owner t = some ms :=
  ⟨_, KeyedTable.collect_eq_some_iff.mpr
    ⟨fun e he => h.messages e (KeyedTable.mem_select.mp he).1, rfl⟩⟩

theorem loadContacts (h : Readable t) : ∃ cs, loadContacts t = some cs := by
  refine ⟨_, KeyedTable.collect_eq_some_iff.mpr ⟨fun e he => ?_, rfl⟩⟩
  obtain ⟨ttlSeconds, httl⟩ :=
    Option.isSome_iff_exists.mp (h.contacts e (KeyedTable.mem_select.mp he).1)
  have hcol : column contactsSelected .id e.1 e.2 8 = e.2 .ttlSeconds := rfl
  rw [readContact, hcol, httl]
  split
  · rfl
  · next uuid _ =>
    obtain ⟨log, hlog⟩ := h.loadMessages (.contact uuid)
    rw [hlog]
    rfl

theorem loadOutbox (h : Readable t) : ∃ store, loadOutbox t = some store := by
  refine ⟨_, congrArg _ (KeyedTable.collect_eq_some_iff.mpr ⟨fun e he => ?_, rfl⟩)⟩
  exact h.outbox e (KeyedTable.mem_select.mp he).1

theorem upsertContact {c : Contact} (h : Readable t) (hstep : upsertContact c t = some t') :
    Readable t' := by
  rw [Storage.upsertContact] at hstep
  split at hstep
  · cases hstep
  · next wire hwire =>
    obtain ⟨row, hinsert, hcolumns, -⟩ := upsert_columns contactsUpdated c.id.1
      (bound contactsInserted (contactValues c wire)) t.contacts
    split at hstep
    · cases hstep
    · cases hstep
      refine ⟨?_, h.messages, h.outbox⟩
      rw [hinsert]
      refine forall_entries_insert h.contacts ?_
      show (toUInt32 (row .ttlSeconds).columnInt64).isSome
      have httl : row .ttlSeconds = .ofUInt32 c.ttlSeconds := hcolumns .ttlSeconds (by decide)
      rw [httl, toUInt32_ofUInt32]
      rfl

theorem upsertMessage {m : PersistedMessage} {owner : MessageOwner} (h : Readable t)
    (hstep : upsertMessage m owner t = some t') : Readable t' := by
  rw [Storage.upsertMessage] at hstep
  split at hstep
  · cases hstep
  · next byteSize hbound =>
    obtain ⟨row, hinsert, hcolumns, -⟩ := upsert_columns messagesUpdated m.id.1
      (bound messagesInserted (messageValues owner m byteSize)) t.messages
    split at hstep
    · cases hstep
      refine ⟨h.contacts, ?_, h.outbox⟩
      rw [hinsert]
      refine forall_entries_insert h.messages ?_
      rw [readMessage_of_bound owner hbound hcolumns]
      rfl
    · cases hstep

theorem upsertOutboxEntry {e : OutboxEntry} {n : UInt32} (httl : e.ttl = n.toNat) (h : Readable t)
    (hstep : upsertOutboxEntry e t = some t') : Readable t' := by
  have hlt := n.toNat_lt
  rw [Storage.upsertOutboxEntry, httl, truncated_natCast (by omega), Option.map_some] at hstep
  cases hstep
  obtain ⟨row, hinsert, hcolumns, -⟩ := upsert_columns outboxUpdated e.messageId
    (bound outboxColumns (outboxValues e (Int64.ofInt n.toNat))) t.outbox
  refine ⟨h.contacts, h.messages, ?_⟩
  rw [hinsert]
  refine forall_entries_insert h.outbox ?_
  rw [readOutboxEntry_of_bound httl hcolumns]
  rfl

end Readable

/-- The three upserts. -/
inductive Write where
  | contact (c : Contact)
  | message (m : PersistedMessage) (owner : MessageOwner)
  | outboxEntry (e : OutboxEntry)

namespace Write

/-- What is written. -/
def apply : Write → Tables → Option Tables
  | contact c => upsertContact c
  | message m owner => upsertMessage m owner
  | outboxEntry e => upsertOutboxEntry e

/-- The time an outbox entry lives is a contact's `ttlSeconds`. -/
def WholeSeconds : Write → Prop
  | contact _ => True
  | message _ _ => True
  | outboxEntry e => ∃ n : UInt32, e.ttl = n.toNat

/-- One write after the other. -/
def run : List Write → Tables → Option Tables
  | [], t => some t
  | w :: ws, t => (w.apply t).bind (run ws)

end Write

namespace Readable

theorem write {w : Write} {t t' : Tables} (h : Readable t) (hw : w.WholeSeconds)
    (hstep : w.apply t = some t') : Readable t' := by
  cases w with
  | contact c => exact h.upsertContact hstep
  | message m owner => exact h.upsertMessage hstep
  | outboxEntry e =>
    obtain ⟨n, httl⟩ := hw
    exact h.upsertOutboxEntry httl hstep

/-- What was written can be read. -/
theorem run {ws : List Write} {t t' : Tables} (h : Readable t) (hws : ∀ w ∈ ws, w.WholeSeconds)
    (hrun : Write.run ws t = some t') : Readable t' := by
  induction ws generalizing t with
  | nil =>
    cases hrun
    exact h
  | cons w ws ih =>
    obtain ⟨t₁, hstep, hrest⟩ := Option.bind_eq_some_iff.mp hrun
    obtain ⟨hw, hws⟩ := List.forall_mem_cons.mp hws
    exact ih (h.write hw hstep) hws hrest

end Readable

/-- Over any rows, an earlier version of its own or not, a record is read back as it was
written exactly if no text of it has a NUL and its numbers fit. An outbox entry always is. -/
theorem rows_survive {t : Tables} (ht : Readable t) :
    (∀ c : Contact, identityTaken c t = false → (ContactSurvives c t ↔ c.Storable)) ∧
    (∀ (m : PersistedMessage) (owner : MessageOwner), owner.Exists t →
      (∀ row, t.messages.lookup m.id.1 = some row → owner.owns row = true) →
        (MessageSurvives m owner t ↔ m.Storable)) ∧
    ∀ (e : OutboxEntry) (n : UInt32), e.ttl = n.toNat → OutboxEntrySurvives e t := by
  refine ⟨fun c hfree => ?_, fun m owner howner hsame => ?_, fun e n httl => ?_⟩
  · obtain ⟨cs, hcs⟩ := ht.loadContacts
    obtain ⟨log, hlog⟩ := ht.loadMessages (.contact c.id)
    exact contactSurvives_iff hfree hcs hlog
  · obtain ⟨ms, hms⟩ := ht.loadMessages owner
    exact messageSurvives_iff howner hsame hms
  · obtain ⟨store, hstore⟩ := ht.loadOutbox
    exact outboxEntrySurvives httl hstore

/-! ## A message with a NUL -/

/-- Some identifier. -/
def someId : UUID := ⟨List.replicate 16 7, rfl⟩

/-- The epoch. -/
def epoch : Date := .fromEpochMs 0

/-- A contact. -/
def alice : Contact where
  id := someId
  identityPub := List.replicate 33 5
  displayName := "Alice"
  sessionEstablished := true
  log := []
  lastMessageAt := none
  lastSeenAt := some epoch
  addedAt := epoch
  lastChainServedAt := none
  ttlSeconds := 86400
  readReceiptsMode := .followDefault
  peerVerifyKey := none
  lastBundleServedAt := none
  addedVia := .qrScan
  verifiedAt := none
  mutedAt := none
  outboundTokenChain := none

/-- A message of hers. -/
def messageOf (text : String) : PersistedMessage where
  id := someId
  side := .peer
  text := text
  kind := .whisper
  bytes := 3
  timestamp := epoch
  messageId := none
  readAt := none
  attachment := none
  senderPeerId := none
  groupMessageId := none

/-- A frame to her. -/
def frame : OutboxEntry where
  messageId := List.replicate 16 9
  recipientPeerId := List.replicate 33 5
  sealedCiphertext := [1, 2, 3]
  token := []
  ttl := 86400
  sentAt := epoch
  retries := 0
  deliveredAt := none
  failedAt := none
  relayedAt := none
  attachmentId := none
  chunkIndex := none
  chunkCount := none
  groupMessageId := none
  readAt := none

/-- The tables with the contact in them. -/
def aliceTables : Tables :=
  { Tables.empty with
    contacts := (∅ : Dict Bytes (ContactsColumn → SqlValue)).insert someId.1
      (bound contactsInserted (contactValues alice none)) }

theorem upsertContact_alice : upsertContact alice .empty = some aliceTables := rfl

theorem owns_of_lookup_alice {k : Bytes} {owner : MessageOwner} (row : MessagesColumn → SqlValue)
    (h : aliceTables.messages.lookup k = some row) : owner.owns row = true :=
  nomatch (show (none : Option (MessagesColumn → SqlValue)) = some row from h)

theorem rows_survive_alice : ContactSurvives alice aliceTables ∧
    MessageSurvives (messageOf "a b") (.contact someId) aliceTables ∧
    OutboxEntrySurvives frame aliceTables := by
  obtain ⟨hcontact, hmessage, hentry⟩ :=
    rows_survive (Readable.empty.upsertContact upsertContact_alice)
  refine ⟨(hcontact alice (by decide)).mpr ⟨by decide, nofun⟩,
    (hmessage (messageOf "a b") (.contact someId) (by decide) owns_of_lookup_alice).mpr
      ⟨by decide, nofun⟩,
    hentry frame 86400 (congrArg (Nat.cast : Nat → ℚ) (by decide : 86400 = (86400 : UInt32).toNat))⟩

/-- A text ends at its first NUL, whatever stands after it. -/
theorem nul_ends_text :
    upsertContact alice .empty = some aliceTables ∧
      ¬ MessageSurvives (messageOf "a\x00b") (.contact someId) aliceTables := by
  refine ⟨upsertContact_alice, fun h => ?_⟩
  obtain ⟨ms, hms⟩ := (Readable.empty.upsertContact upsertContact_alice).loadMessages
    (.contact someId)
  have hstorable := (messageSurvives_iff (by decide) owns_of_lookup_alice hms).mp h
  exact hstorable.1 (by decide)

end Pizzini.Storage
