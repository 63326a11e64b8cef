import Pizzini.Crypto.Snapshot

/-!
# A snapshot gives a consistent store back

What `serialize` has written (`Writes`), with counts that fit (`CountsFit`), is
read back section by section, whatever stands in its session section
(`fromSerialized_snapshotWith`).

In a `Consistent` store a session with content belongs to an identity, and the
index names every sender key whose identity the format can hold. Where such a
store also fits the `u32` fields of the format (`FitsFormat`), `from_serialized`
reads from `serialize`'s bytes the same store (`SameStore`).
-/

namespace Pizzini.Crypto

open Wire Stateful

variable {L : Libsignal}

namespace DeviceStore

/-! ## What a snapshot holds -/

/-- The counts and the lengths of the snapshot fit its `u32` fields. -/
structure FitsFormat (s : DeviceStore L) : Prop where
  identity : (L.serializeIdentityKeyPair s.identityKeyPair).length < 2 ^ 32
  peers : s.peers.length < 2 ^ 32
  preKeys : s.preKeys.entries.length < 2 ^ 32
  signedPreKeys : s.signedPreKeys.entries.length < 2 ^ 32
  kyberPreKeys : s.kyberPreKeys.entries.length < 2 ^ 32
  senderKeys : s.senderKeyIndex.length < 2 ^ 32
  preKey : ∀ entry ∈ s.preKeys.entries, (L.serializePreKey entry.2).length < 2 ^ 32
  signedPreKey : ∀ entry ∈ s.signedPreKeys.entries,
    (L.serializeSignedPreKey entry.2).length < 2 ^ 32
  kyberPreKey : ∀ entry ∈ s.kyberPreKeys.entries,
    (L.serializeKyberPreKey entry.2).length < 2 ^ 32
  session : ∀ address session, s.sessions.lookup address = some session →
    (L.serializeSession session).length < 2 ^ 32
  certificate : s.certificateBytes.length < 2 ^ 32
  senderKey : ∀ key record, s.senderKeys.lookup key = some record →
    (L.serializeSenderKey record).length < 2 ^ 32

/-- The counts alone. -/
structure CountsFit (s : DeviceStore L) : Prop where
  peers : s.peers.length < 2 ^ 32
  preKeys : s.preKeys.entries.length < 2 ^ 32
  signedPreKeys : s.signedPreKeys.entries.length < 2 ^ 32
  kyberPreKeys : s.kyberPreKeys.entries.length < 2 ^ 32
  senderKeys : s.senderKeyEntries.length < 2 ^ 32

/-- The lengths that `serialize` checks. -/
structure Writes (s : DeviceStore L) : Prop where
  identity : (L.serializeIdentityKeyPair s.identityKeyPair).length < 2 ^ 32
  peer : ∀ peer ∈ s.peers, peer.length < 2 ^ 16
  preKey : ∀ entry ∈ s.preKeys.entries, (L.serializePreKey entry.2).length < 2 ^ 32
  signedPreKey : ∀ entry ∈ s.signedPreKeys.entries,
    (L.serializeSignedPreKey entry.2).length < 2 ^ 32
  kyberPreKey : ∀ entry ∈ s.kyberPreKeys.entries,
    (L.serializeKyberPreKey entry.2).length < 2 ^ 32
  session : ∀ entry ∈ s.sessionEntries, (L.serializeSession entry.2).length < 2 ^ 32
  certificate : s.certificateBytes.length < 2 ^ 32
  senderKey : ∀ entry ∈ s.senderKeyEntries, entry.1.length < 2 ^ 16 ∧
    (L.serializeSenderKey entry.2.2).length < 2 ^ 32

/-- What the operations keep. -/
structure Consistent (s : DeviceStore L) : Prop where
  session : ∀ identity session, s.sessions.lookup (addressFor identity) = some session →
    L.serializeSession session ≠ [] → ∃ key, L.decodeIdentityKey identity = .ok key
  peer : ∀ peer ∈ s.peers, peer.length < 2 ^ 16
  senderKey : ∀ key record, s.senderKeys.lookup key = some record → L.serializeSenderKey record ≠ []
  indexed : ∀ identity dist, identity.length < 2 ^ 16 →
    s.senderKeys.lookup (addressFor identity, dist) ≠ none → (identity, dist) ∈ s.senderKeyIndex
  index : ∀ entry ∈ s.senderKeyIndex, entry.1.length < 2 ^ 16

/-- The same store, as far as a snapshot goes: of the sessions those of the
peers, where an empty record counts as none. -/
structure SameStore (s s' : DeviceStore L) : Prop where
  identityKeyPair : s'.identityKeyPair = s.identityKeyPair
  registrationId : s'.registrationId = s.registrationId
  nextPreKeyId : s'.nextPreKeyId = s.nextPreKeyId
  nextSignedPreKeyId : s'.nextSignedPreKeyId = s.nextSignedPreKeyId
  nextKyberPreKeyId : s'.nextKyberPreKeyId = s.nextKyberPreKeyId
  peers : s'.peers = s.peers
  preKeys : ∀ id, s'.preKeys.lookup id = s.preKeys.lookup id
  signedPreKeys : ∀ id, s'.signedPreKeys.lookup id = s.signedPreKeys.lookup id
  kyberPreKeys : ∀ id, s'.kyberPreKeys.lookup id = s.kyberPreKeys.lookup id
  sessions : ∀ peer ∈ s.peers, s'.sessions.lookup (addressFor peer) =
    (s.sessions.lookup (addressFor peer)).filter fun session => !(L.serializeSession session).isEmpty
  pinned : ∀ peer ∈ s.peers, s'.sessions.lookup (addressFor peer) ≠ none →
    ∃ key, L.decodeIdentityKey peer = .ok key ∧ s'.identities.lookup (addressFor peer) = some key
  senderCertificate : s'.senderCertificate = s.senderCertificate
  senderKeys : ∀ identity dist, identity.length < 2 ^ 16 →
    s'.senderKeys.lookup (addressFor identity, dist) = s.senderKeys.lookup (addressFor identity, dist)

/-! ## The bytes -/

theorem mapM_ok {α β : Type} {f : α → Result β} {g : α → β} {as : List α}
    (h : ∀ a ∈ as, f a = .ok (g a)) : as.mapM f = .ok (as.map g) := by
  induction as with
  | nil => rfl
  | cons a as ih =>
    rw [List.mapM_cons, h a List.mem_cons_self, ih fun b hb => h b (List.mem_cons_of_mem _ hb)]
    rfl

def blob16 (blob : Bytes) : Bytes := beBytes 2 blob.length ++ blob

def blob32 (blob : Bytes) : Bytes := beBytes 4 blob.length ++ blob

theorem writeU16Blob_ok {blob : Bytes} (h : blob.length < 2 ^ 16) :
    writeU16Blob blob = .ok (blob16 blob) := if_pos h

theorem writeU32Blob_ok {blob : Bytes} (h : blob.length < 2 ^ 32) :
    writeU32Blob blob = .ok (blob32 blob) := if_pos h

def recordBytes {R : Type} (serializeRecord : R → Bytes) (entry : (_ : UInt32) × R) : Bytes :=
  u32Bytes entry.1 ++ blob32 (serializeRecord entry.2)

def sessionBytes (entry : Bytes × L.SessionRecord) : Bytes :=
  blob16 entry.1 ++ blob32 (L.serializeSession entry.2)

def senderKeyBytes (entry : Bytes × DistributionId × L.SenderKeyRecord) : Bytes :=
  blob16 entry.1 ++ entry.2.1.1 ++ blob32 (L.serializeSenderKey entry.2.2)

/-- The snapshot, where no write panics. -/
def snapshotBytes (s : DeviceStore L) : Bytes :=
  [STORE_VERSION] ++ (blob32 (L.serializeIdentityKeyPair s.identityKeyPair) ++
    (u32Bytes s.registrationId ++ (u32Bytes s.nextPreKeyId ++ (u32Bytes s.nextSignedPreKeyId ++
    (u32Bytes s.nextKyberPreKeyId ++ (countedBytes (s.peers.map blob16) ++
    (countedBytes (s.preKeys.entries.map (recordBytes L.serializePreKey)) ++
    (countedBytes (s.signedPreKeys.entries.map (recordBytes L.serializeSignedPreKey)) ++
    (countedBytes (s.kyberPreKeys.entries.map (recordBytes L.serializeKyberPreKey)) ++
    (countedBytes (s.sessionEntries.map sessionBytes) ++ (blob32 s.certificateBytes ++
    countedBytes (s.senderKeyEntries.map senderKeyBytes))))))))))))

theorem mem_sessionEntries {s : DeviceStore L} {entry : Bytes × L.SessionRecord} :
    entry ∈ s.sessionEntries ↔ entry.1 ∈ s.peers ∧
      s.sessions.lookup (addressFor entry.1) = some entry.2 ∧ L.serializeSession entry.2 ≠ [] := by
  obtain ⟨peer, session⟩ := entry
  rw [sessionEntries, List.mem_filterMap]
  constructor
  · rintro ⟨other, hpeer, hother⟩
    cases hlookup : s.sessions.lookup (addressFor other) with
    | none =>
      rw [hlookup] at hother
      cases hother
    | some record =>
      rw [hlookup] at hother
      dsimp only at hother
      split at hother
      · cases hother
      · rename_i hne
        cases hother
        exact ⟨hpeer, hlookup, fun hnil => hne (by rw [hnil]; rfl)⟩
  · rintro ⟨hpeer, hlookup, hne⟩
    refine ⟨peer, hpeer, ?_⟩
    dsimp only at hlookup hne
    rw [hlookup]
    dsimp only
    rw [if_neg]
    rw [List.isEmpty_iff]
    exact hne

theorem mem_senderKeyEntries {s : DeviceStore L}
    {entry : Bytes × DistributionId × L.SenderKeyRecord} :
    entry ∈ s.senderKeyEntries ↔ (entry.1, entry.2.1) ∈ s.senderKeyIndex ∧
      s.senderKeys.lookup (addressFor entry.1, entry.2.1) = some entry.2.2 ∧
        L.serializeSenderKey entry.2.2 ≠ [] := by
  obtain ⟨identity, dist, record⟩ := entry
  rw [senderKeyEntries, List.mem_filterMap]
  constructor
  · rintro ⟨other, hindex, hother⟩
    cases hlookup : s.senderKeys.lookup (addressFor other.1, other.2) with
    | none =>
      rw [hlookup] at hother
      cases hother
    | some found =>
      rw [hlookup] at hother
      dsimp only at hother
      split at hother
      · cases hother
      · rename_i hne
        cases hother
        exact ⟨hindex, hlookup, fun hnil => hne (by rw [hnil]; rfl)⟩
  · rintro ⟨hindex, hlookup, hne⟩
    refine ⟨(identity, dist), hindex, ?_⟩
    dsimp only at hlookup hne ⊢
    rw [hlookup]
    dsimp only
    rw [if_neg]
    rw [List.isEmpty_iff]
    exact hne

theorem FitsFormat.counts {s : DeviceStore L} (hfits : FitsFormat s) : CountsFit s :=
  ⟨hfits.peers, hfits.preKeys, hfits.signedPreKeys, hfits.kyberPreKeys,
    Nat.lt_of_le_of_lt (List.length_filterMap_le _ _) hfits.senderKeys⟩

theorem FitsFormat.writes {s : DeviceStore L} (hfits : FitsFormat s) (hc : Consistent s) :
    Writes s where
  identity := hfits.identity
  peer := hc.peer
  preKey := hfits.preKey
  signedPreKey := hfits.signedPreKey
  kyberPreKey := hfits.kyberPreKey
  session entry hentry := hfits.session _ _ (mem_sessionEntries.mp hentry).2.1
  certificate := hfits.certificate
  senderKey entry hentry := by
    obtain ⟨hindex, hlookup, -⟩ := mem_senderKeyEntries.mp hentry
    exact ⟨hc.index _ hindex, hfits.senderKey _ _ hlookup⟩

/-- Where the lengths fit, nothing panics. -/
theorem serialize_of_writes {s : DeviceStore L} (hw : Writes s) :
    s.serialize = .ok s.snapshotBytes := by
  have hrecord : ∀ {R : Type} {ser : R → Bytes} {entries : List ((_ : UInt32) × R)},
      (∀ entry ∈ entries, (ser entry.2).length < 2 ^ 32) →
        entries.mapM (writeRecord ser) = .ok (entries.map (recordBytes ser)) := by
    intro R ser entries hlen
    refine mapM_ok fun entry hentry => ?_
    rw [writeRecord, writeU32Blob_ok (hlen entry hentry)]
    rfl
  have hsession : s.sessionEntries.mapM writeSession = .ok (s.sessionEntries.map sessionBytes) := by
    refine mapM_ok fun entry hentry => ?_
    obtain ⟨hpeer, -⟩ := mem_sessionEntries.mp hentry
    rw [writeSession, writeU16Blob_ok (hw.peer _ hpeer), writeU32Blob_ok (hw.session _ hentry)]
    rfl
  have hsenderKey : s.senderKeyEntries.mapM writeSenderKey =
      .ok (s.senderKeyEntries.map senderKeyBytes) := by
    refine mapM_ok fun entry hentry => ?_
    obtain ⟨hidentity, hrecord⟩ := hw.senderKey entry hentry
    rw [writeSenderKey, writeU16Blob_ok hidentity, writeU32Blob_ok hrecord]
    rfl
  rw [serialize, writeU32Blob_ok hw.identity,
    mapM_ok fun peer hpeer => writeU16Blob_ok (hw.peer peer hpeer), hrecord hw.preKey,
    hrecord hw.signedPreKey, hrecord hw.kyberPreKey, hsession, writeU32Blob_ok hw.certificate,
    hsenderKey]
  rfl

theorem serialize_ok {s : DeviceStore L} (hfits : FitsFormat s) (hc : Consistent s) :
    s.serialize = .ok s.snapshotBytes := serialize_of_writes (hfits.writes hc)

theorem bind_eq_ok {α β : Type} {x : Result α} {f : α → Result β} {b : β} (h : x >>= f = .ok b) :
    ∃ a, x = .ok a ∧ f a = .ok b := by
  cases x with
  | error e => cases h
  | ok a => exact ⟨a, rfl, h⟩

theorem forall_ok_of_mapM {α β : Type} {f : α → Result β} {as : List α} {bs : List β}
    (h : as.mapM f = .ok bs) : ∀ a ∈ as, ∃ b, f a = .ok b := by
  induction as generalizing bs with
  | nil => exact nofun
  | cons a as ih =>
    rw [List.mapM_cons] at h
    obtain ⟨b, ha, hrest⟩ := bind_eq_ok h
    obtain ⟨bs', has, -⟩ := bind_eq_ok hrest
    exact List.forall_mem_cons.mpr ⟨⟨b, ha⟩, ih has⟩

theorem length_of_writeU16Blob {blob bs : Bytes} (h : writeU16Blob blob = .ok bs) :
    blob.length < 2 ^ 16 := by
  rw [writeU16Blob] at h
  split at h
  · assumption
  · cases h

theorem length_of_writeU32Blob {blob bs : Bytes} (h : writeU32Blob blob = .ok bs) :
    blob.length < 2 ^ 32 := by
  rw [writeU32Blob] at h
  split at h
  · assumption
  · cases h

/-- What `serialize` has written fits. -/
theorem writes_of_serialize {s : DeviceStore L} {bytes : Bytes} (h : s.serialize = .ok bytes) :
    Writes s ∧ bytes = s.snapshotBytes := by
  have hrecord : ∀ {R : Type} {ser : R → Bytes} {entries : List ((_ : UInt32) × R)} {bss},
      entries.mapM (writeRecord ser) = .ok bss →
        ∀ entry ∈ entries, (ser entry.2).length < 2 ^ 32 := by
    intro R ser entries bss hentries entry hentry
    obtain ⟨bs, hbs⟩ := forall_ok_of_mapM hentries entry hentry
    obtain ⟨blob, hblob, -⟩ := bind_eq_ok hbs
    exact length_of_writeU32Blob hblob
  obtain ⟨identity, hidentity, h₁⟩ := bind_eq_ok h
  obtain ⟨peers, hpeers, h₂⟩ := bind_eq_ok h₁
  obtain ⟨preKeys, hpreKeys, h₃⟩ := bind_eq_ok h₂
  obtain ⟨signedPreKeys, hsignedPreKeys, h₄⟩ := bind_eq_ok h₃
  obtain ⟨kyberPreKeys, hkyberPreKeys, h₅⟩ := bind_eq_ok h₄
  obtain ⟨sessions, hsessions, h₆⟩ := bind_eq_ok h₅
  obtain ⟨certificate, hcertificate, h₇⟩ := bind_eq_ok h₆
  obtain ⟨senderKeys, hsenderKeys, -⟩ := bind_eq_ok h₇
  have hw : Writes s := {
    identity := length_of_writeU32Blob hidentity
    peer := by
      intro peer hpeer
      obtain ⟨bs, hbs⟩ := forall_ok_of_mapM hpeers peer hpeer
      exact length_of_writeU16Blob hbs
    preKey := hrecord hpreKeys
    signedPreKey := hrecord hsignedPreKeys
    kyberPreKey := hrecord hkyberPreKeys
    session := by
      intro entry hentry
      obtain ⟨bs, hbs⟩ := forall_ok_of_mapM hsessions entry hentry
      obtain ⟨peer, -, hrest⟩ := bind_eq_ok hbs
      obtain ⟨record, hblob, -⟩ := bind_eq_ok hrest
      exact length_of_writeU32Blob hblob
    certificate := length_of_writeU32Blob hcertificate
    senderKey := by
      intro entry hentry
      obtain ⟨bs, hbs⟩ := forall_ok_of_mapM hsenderKeys entry hentry
      obtain ⟨sender, hsender, hrest⟩ := bind_eq_ok hbs
      obtain ⟨record, hblob, -⟩ := bind_eq_ok hrest
      exact ⟨length_of_writeU16Blob hsender, length_of_writeU32Blob hblob⟩ }
  exact ⟨hw, Except.ok.inj (h.symm.trans (serialize_of_writes hw))⟩

/-! ## Reading it back -/

/-- The sessions and identities that the session section restores. -/
def restoredSessions (s : DeviceStore L) : Restored L :=
  (s.sessionEntries.map fun entry => (entry.1, L.serializeSession entry.2)).foldl Restored.add
    ⟨∅, ∅, []⟩

/-- The store that the snapshot is read back as. -/
def restored (s : DeviceStore L) : DeviceStore L :=
  { fresh (L := L) s.identityKeyPair s.registrationId with
    nextPreKeyId := s.nextPreKeyId
    nextSignedPreKeyId := s.nextSignedPreKeyId
    nextKyberPreKeyId := s.nextKyberPreKeyId
    peers := s.peers.filter fun peer => !s.restoredSessions.skippedPeers.contains peer
    preKeys := saveAll (s.preKeys.entries.map fun entry => (entry.1, entry.2))
    signedPreKeys := saveAll (s.signedPreKeys.entries.map fun entry => (entry.1, entry.2))
    kyberPreKeys := saveAll (s.kyberPreKeys.entries.map fun entry => (entry.1, entry.2))
    sessions := s.restoredSessions.sessions
    identities := s.restoredSessions.identities
    senderCertificate := s.senderCertificate
    senderKeys := storeAll s.senderKeyEntries
    senderKeyIndex := s.senderKeyEntries.map fun entry => (entry.1, entry.2.1) }

/-- The snapshot with this in its session section. -/
def snapshotWith (s : DeviceStore L) (written : List (Bytes × Bytes)) : Bytes :=
  [STORE_VERSION] ++ (blob32 (L.serializeIdentityKeyPair s.identityKeyPair) ++
    (u32Bytes s.registrationId ++ (u32Bytes s.nextPreKeyId ++ (u32Bytes s.nextSignedPreKeyId ++
    (u32Bytes s.nextKyberPreKeyId ++ (countedBytes (s.peers.map blob16) ++
    (countedBytes (s.preKeys.entries.map (recordBytes L.serializePreKey)) ++
    (countedBytes (s.signedPreKeys.entries.map (recordBytes L.serializeSignedPreKey)) ++
    (countedBytes (s.kyberPreKeys.entries.map (recordBytes L.serializeKyberPreKey)) ++
    (countedBytes (written.map fun entry => blob16 entry.1 ++ blob32 entry.2) ++
    (blob32 s.certificateBytes ++ countedBytes (s.senderKeyEntries.map senderKeyBytes))))))))))))

/-- What `serialize` writes into the session section. -/
def writtenSessions (s : DeviceStore L) : List (Bytes × Bytes) :=
  s.sessionEntries.map fun entry => (entry.1, L.serializeSession entry.2)

/-- The store that the snapshot with this section is read back as. -/
def restoredWith (s : DeviceStore L) (written : List (Bytes × Bytes)) : DeviceStore L :=
  let r := written.foldl Restored.add (⟨∅, ∅, []⟩ : Restored L)
  { s.restored with
    peers := s.peers.filter fun peer => !r.skippedPeers.contains peer
    sessions := r.sessions
    identities := r.identities }

theorem snapshotWith_writtenSessions (s : DeviceStore L) :
    s.snapshotWith s.writtenSessions = s.snapshotBytes := by
  rw [snapshotWith, writtenSessions, List.map_map]
  rfl

theorem restoredWith_writtenSessions (s : DeviceStore L) :
    s.restoredWith s.writtenSessions = s.restored := rfl

theorem Reads.isEmpty_bind {α : Type} {f : Bool → Cursor α} {bs : Bytes} {a : α} (hne : bs ≠ [])
    (h : Reads (f false) bs a) : Reads (Cursor.isEmpty >>= f) bs a := by
  intro rest
  have hempty : Cursor.isEmpty.run (bs ++ rest) = (.ok false, bs ++ rest) := by
    cases bs with
    | nil => exact absurd rfl hne
    | cons b bs => rfl
  rw [bind_of_ok hempty, h]

theorem Reads.lift_bind {α β : Type} {r : Result α} {f : α → Cursor β} {bs : Bytes} {a : α} {b : β}
    (h : r = .ok a) (hf : Reads (f a) bs b) : Reads (Op.lift r >>= f) bs b :=
  (Reads.lift h).bind hf

/-- Mapped elements, each of which is read back. -/
theorem Reads.section {α β : Type} {element : Cursor β} {as : List α} {write : α → Bytes}
    {read : α → β} (h : ∀ a ∈ as, Reads element (write a) (read a)) (hne : ∀ a, write a ≠ [])
    (hlen : as.length < 2 ^ 32) :
    Reads (readCounted element) (countedBytes (as.map write)) (as.map read) := by
  refine Reads.counted ?_ ?_ (by rwa [List.length_map])
  · rw [List.forall₂_map_left_iff, List.forall₂_map_right_iff]
    exact List.forall₂_same.mpr h
  · intro bs hbs
    obtain ⟨a, -, rfl⟩ := List.mem_map.mp hbs
    exact hne a

theorem beBytes_append_ne_nil {n : Nat} (k : Nat) (bs : Bytes) : beBytes (n + 1) k ++ bs ≠ [] := by
  intro hnil
  have hlen := congrArg List.length hnil
  rw [List.length_append, length_beBytes, List.length_nil] at hlen
  omega

theorem reads_record {R : Type} {ser : R → Bytes} {deser : Bytes → Result R}
    (hlaw : ∀ record, deser (ser record) = .ok record) {entry : (_ : UInt32) × R}
    (hlen : (ser entry.2).length < 2 ^ 32) :
    Reads (readRecord deser) (recordBytes ser entry) (entry.1, entry.2) :=
  (Reads.u32 entry.1).bind ((Reads.u32Blob hlen).map ((Reads.lift (hlaw entry.2)).map (Reads.pure _)))

theorem reads_records {R : Type} {ser : R → Bytes} {deser : Bytes → Result R}
    (hlaw : ∀ record, deser (ser record) = .ok record) {entries : List ((_ : UInt32) × R)}
    (hcount : entries.length < 2 ^ 32) (hlen : ∀ entry ∈ entries, (ser entry.2).length < 2 ^ 32) :
    Reads (readCounted (readRecord deser)) (countedBytes (entries.map (recordBytes ser)))
      (entries.map fun entry => (entry.1, entry.2)) :=
  Reads.section (fun entry hentry => reads_record hlaw (hlen entry hentry))
    (fun _ => beBytes_append_ne_nil _ _) hcount

theorem reads_session {entry : Bytes × Bytes} (hpeer : entry.1.length < 2 ^ 16)
    (hlen : entry.2.length < 2 ^ 32) :
    Reads readSession (blob16 entry.1 ++ blob32 entry.2) entry :=
  (Reads.u16Blob hpeer).bind ((Reads.u32Blob hlen).map (Reads.pure _))

theorem reads_senderKey (hlaw : L.Lawful) {entry : Bytes × DistributionId × L.SenderKeyRecord}
    (hidentity : entry.1.length < 2 ^ 16) (hlen : (L.serializeSenderKey entry.2.2).length < 2 ^ 32) :
    Reads (readSenderKey L) (senderKeyBytes entry) entry := by
  obtain ⟨identity, ⟨dist, hdist⟩, record⟩ := entry
  rw [senderKeyBytes, List.append_assoc]
  refine (Reads.u16Blob hidentity).bind ((Reads.take hdist).bind
    ((Reads.u32Blob hlen).map ((Reads.lift (hlaw.senderKey record)).map ?_)))
  rw [dif_pos hdist]
  exact Reads.pure _

theorem reads_certificate (hlaw : L.Lawful) {s : DeviceStore L}
    (hlen : s.certificateBytes.length < 2 ^ 32) :
    Reads (readCertificate L STORE_VERSION) (blob32 s.certificateBytes) s.senderCertificate := by
  refine Reads.isEmpty_bind (beBytes_append_ne_nil _ _) ?_
  refine (Reads.u32Blob hlen).map ?_
  cases hcert : s.senderCertificate with
  | none =>
    simp only [certificateBytes, hcert]
    exact Reads.pure none
  | some cert =>
    simp only [certificateBytes, hcert]
    rw [if_neg fun hempty => hlaw.certificateBytes cert (List.isEmpty_iff.mp hempty)]
    exact (Reads.lift (hlaw.certificate cert)).map (Reads.pure _)

theorem reads_senderKeys (hlaw : L.Lawful) {s : DeviceStore L} (hcounts : CountsFit s)
    (hw : Writes s) : Reads (readSenderKeys L STORE_VERSION)
      (countedBytes (s.senderKeyEntries.map senderKeyBytes)) s.senderKeyEntries := by
  refine Reads.isEmpty_bind (beBytes_append_ne_nil _ _) ?_
  have hread : Reads (readCounted (readSenderKey L))
      (countedBytes (s.senderKeyEntries.map senderKeyBytes))
      (s.senderKeyEntries.map fun entry => entry) := Reads.section ?_ ?_ hcounts.senderKeys
  · rwa [List.map_id'] at hread
  · intro entry hentry
    exact reads_senderKey hlaw (hw.senderKey entry hentry).1 (hw.senderKey entry hentry).2
  · intro entry
    rw [senderKeyBytes, List.append_assoc, blob16, List.append_assoc]
    exact beBytes_append_ne_nil _ _

/-- A snapshot is read back, whatever its session section holds. -/
theorem reads_snapshotWith (hlaw : L.Lawful) {s : DeviceStore L} (hcounts : CountsFit s)
    (hw : Writes s) {written : List (Bytes × Bytes)} (hcount : written.length < 2 ^ 32)
    (hlen : ∀ entry ∈ written, entry.1.length < 2 ^ 16 ∧ entry.2.length < 2 ^ 32) :
    Reads (readSnapshot L) (s.snapshotWith written) (s.restoredWith written) := by
  have hpeers : Reads (readCounted Cursor.u16Blob) (countedBytes (s.peers.map blob16)) s.peers := by
    have hread : Reads (readCounted Cursor.u16Blob) (countedBytes (s.peers.map blob16))
        (s.peers.map fun peer => peer) :=
      Reads.section (fun peer hpeer => Reads.u16Blob (hw.peer peer hpeer))
        (fun _ => beBytes_append_ne_nil _ _) hcounts.peers
    rwa [List.map_id'] at hread
  have hsessions : Reads (readCounted readSession)
      (countedBytes (written.map fun entry => blob16 entry.1 ++ blob32 entry.2)) written := by
    have hread : Reads (readCounted readSession)
        (countedBytes (written.map fun entry => blob16 entry.1 ++ blob32 entry.2))
        (written.map fun entry => entry) := Reads.section ?_ ?_ hcount
    · rwa [List.map_id'] at hread
    · exact fun entry hentry => reads_session (hlen entry hentry).1 (hlen entry hentry).2
    · intro entry
      rw [blob16, List.append_assoc]
      exact beBytes_append_ne_nil _ _
  refine (Reads.u8 STORE_VERSION).bind ?_
  rw [if_neg fun h => h.1 rfl]
  refine (Reads.u32Blob hw.identity).bind ((Reads.lift_bind (hlaw.identityKeyPair _)) ?_)
  refine (Reads.u32 s.registrationId).bind ((Reads.u32 s.nextPreKeyId).bind
    ((Reads.u32 s.nextSignedPreKeyId).bind ((Reads.u32 s.nextKyberPreKeyId).bind (hpeers.bind ?_))))
  refine (reads_records hlaw.preKey hcounts.preKeys hw.preKey).bind
    ((reads_records hlaw.signedPreKey hcounts.signedPreKeys hw.signedPreKey).bind
      ((reads_records hlaw.kyberPreKey hcounts.kyberPreKeys hw.kyberPreKey).bind
        (hsessions.bind ((reads_certificate hlaw hw.certificate).bind
          ((reads_senderKeys hlaw hcounts hw).map ?_)))))
  exact Reads.pure (s.restoredWith written)

theorem fromSerialized_snapshotWith (hlaw : L.Lawful) {s : DeviceStore L} (hcounts : CountsFit s)
    (hw : Writes s) {written : List (Bytes × Bytes)} (hcount : written.length < 2 ^ 32)
    (hlen : ∀ entry ∈ written, entry.1.length < 2 ^ 16 ∧ entry.2.length < 2 ^ 32) :
    fromSerialized L (s.snapshotWith written) = .ok (s.restoredWith written) := by
  have hread := reads_snapshotWith hlaw hcounts hw hcount hlen []
  rw [List.append_nil] at hread
  rw [fromSerialized, hread]

theorem length_writtenSessions {s : DeviceStore L} (hcounts : CountsFit s) :
    s.writtenSessions.length < 2 ^ 32 := by
  rw [writtenSessions, List.length_map]
  exact Nat.lt_of_le_of_lt (List.length_filterMap_le _ _) hcounts.peers

theorem Writes.writtenSessions {s : DeviceStore L} (hw : Writes s) :
    ∀ entry ∈ s.writtenSessions, entry.1.length < 2 ^ 16 ∧ entry.2.length < 2 ^ 32 := by
  intro written hwritten
  obtain ⟨entry, hentry, rfl⟩ := List.mem_map.mp hwritten
  exact ⟨hw.peer _ (mem_sessionEntries.mp hentry).1, hw.session entry hentry⟩

/-- What was written is read back. -/
theorem fromSerialized_of_writes (hlaw : L.Lawful) {s : DeviceStore L} (hcounts : CountsFit s)
    (hw : Writes s) : fromSerialized L s.snapshotBytes = .ok s.restored := by
  rw [← snapshotWith_writtenSessions, ← restoredWith_writtenSessions]
  exact fromSerialized_snapshotWith hlaw hcounts hw (length_writtenSessions hcounts)
    hw.writtenSessions

/-! ## What was read -/

theorem saveAll_lookup {R : Type} (m : Dict UInt32 R) (id : UInt32) :
    (saveAll (m.entries.map fun entry => (entry.1, entry.2))).lookup id = m.lookup id := by
  have hmem : ∀ {k : UInt32} {v : R}, (k, v) ∈ m.entries.map (fun entry => (entry.1, entry.2)) ↔
      m.lookup k = some v := by
    intro k v
    rw [AList.lookup_eq_some_iff, List.mem_map]
    constructor
    · rintro ⟨entry, hentry, heq⟩
      cases heq
      exact hentry
    · exact fun h => ⟨⟨k, v⟩, h, rfl⟩
  refine Option.ext fun v => ?_
  rw [saveAll, AList.lookup_foldl_insert, hmem, AList.lookup_empty]
  · simp
  · intro k v v' hv hv'
    exact Option.some.inj ((hmem.mp hv).symm.trans (hmem.mp hv'))

theorem storeAll_lookup (s : DeviceStore L) (identity : Bytes) (dist : DistributionId)
    (record : L.SenderKeyRecord) :
    (storeAll s.senderKeyEntries).lookup (addressFor identity, dist) = some record ↔
      (identity, dist, record) ∈ s.senderKeyEntries := by
  have hmap : storeAll s.senderKeyEntries = (s.senderKeyEntries.map fun entry =>
      ((addressFor entry.1, entry.2.1), entry.2.2)).foldl (fun out e => out.insert e.1 e.2) ∅ := by
    rw [storeAll, List.foldl_map]
  have hmem : ∀ {key : ProtocolAddress × DistributionId} {v : L.SenderKeyRecord},
      (key, v) ∈ s.senderKeyEntries.map (fun entry => ((addressFor entry.1, entry.2.1), entry.2.2)) →
        s.senderKeys.lookup key = some v := by
    intro key v hkey
    obtain ⟨entry, hentry, heq⟩ := List.mem_map.mp hkey
    cases heq
    exact (mem_senderKeyEntries.mp hentry).2.1
  rw [hmap, AList.lookup_foldl_insert fun hv hv' => Option.some.inj ((hmem hv).symm.trans (hmem hv')),
    AList.lookup_empty]
  constructor
  · rintro (hin | ⟨-, hnone⟩)
    · obtain ⟨entry, hentry, heq⟩ := List.mem_map.mp hin
      obtain ⟨hkey, hrecord⟩ := Prod.mk.inj heq
      obtain ⟨haddress, hdist⟩ := Prod.mk.inj hkey
      have hidentity := addressFor_inj haddress
      obtain ⟨identity', dist', record'⟩ := entry
      dsimp only at hidentity hdist hrecord
      rw [hidentity, hdist, hrecord] at hentry
      exact hentry
    · cases hnone
  · exact fun hin => .inl (List.mem_map.mpr ⟨_, hin, rfl⟩)

/-- Every restored session has its identity pinned. -/
def Restored.Pinned (r : Restored L) : Prop :=
  ∀ peer, r.sessions.lookup (addressFor peer) ≠ none →
    ∃ key, L.decodeIdentityKey peer = .ok key ∧ r.identities.lookup (addressFor peer) = some key

theorem add_ok (hlaw : L.Lawful) (r : Restored L) {peer : Bytes} {session : L.SessionRecord}
    {key : L.IdentityKey} (hkey : L.decodeIdentityKey peer = .ok key) :
    r.add (peer, L.serializeSession session) =
      ⟨r.sessions.insert (addressFor peer) session, r.identities.insert (addressFor peer) key,
        r.skippedPeers⟩ := by
  simp only [Restored.add, hlaw.session, hkey]

/-- Where every peer is an identity, no session is skipped. -/
theorem foldl_add (hlaw : L.Lawful) {entries : List (Bytes × L.SessionRecord)}
    (hdecodes : ∀ entry ∈ entries, ∃ key, L.decodeIdentityKey entry.1 = .ok key) :
    ∀ r r' : Restored L, (entries.map fun entry =>
        (entry.1, L.serializeSession entry.2)).foldl Restored.add r = r' →
      r'.skippedPeers = r.skippedPeers ∧
      r'.sessions = (entries.map fun entry => (addressFor entry.1, entry.2)).foldl
        (fun out e => out.insert e.1 e.2) r.sessions ∧ (Restored.Pinned r → Restored.Pinned r') := by
  induction entries with
  | nil =>
    rintro r r' rfl
    exact ⟨rfl, rfl, fun h => h⟩
  | cons entry entries ih =>
    intro r r' hfold
    obtain ⟨key, hkey⟩ := hdecodes entry List.mem_cons_self
    rw [List.map_cons, List.foldl_cons, add_ok hlaw r hkey] at hfold
    obtain ⟨hskipped, hsessions, hpinned⟩ :=
      ih (fun e he => hdecodes e (List.mem_cons_of_mem _ he)) _ r' hfold
    refine ⟨hskipped, hsessions, fun hr => hpinned ?_⟩
    intro peer hpeer
    dsimp only at hpeer ⊢
    rw [AList.lookup_insert_of_eq_or_ne] at hpeer ⊢
    by_cases haddress : addressFor peer = addressFor entry.1
    · rw [if_pos haddress]
      exact ⟨key, by rw [addressFor_inj haddress]; exact hkey, rfl⟩
    · rw [if_neg haddress] at hpeer ⊢
      exact hr peer hpeer

theorem restoredSessions_ok (hlaw : L.Lawful) {s : DeviceStore L} (hc : Consistent s) :
    s.restoredSessions.skippedPeers = [] ∧ Restored.Pinned s.restoredSessions ∧
    ∀ peer session, s.restoredSessions.sessions.lookup (addressFor peer) = some session ↔
      (peer, session) ∈ s.sessionEntries := by
  have hdecodes : ∀ entry ∈ s.sessionEntries, ∃ key, L.decodeIdentityKey entry.1 = .ok key := by
    intro entry hentry
    obtain ⟨-, hlookup, hne⟩ := mem_sessionEntries.mp hentry
    exact hc.session _ _ hlookup hne
  obtain ⟨hskipped, hsessions, hpinned⟩ := foldl_add hlaw hdecodes ⟨∅, ∅, []⟩ _ rfl
  refine ⟨hskipped, hpinned fun peer hpeer => absurd rfl hpeer, ?_⟩
  intro peer session
  have hmem : ∀ {key : ProtocolAddress} {v : L.SessionRecord},
      (key, v) ∈ s.sessionEntries.map (fun entry => (addressFor entry.1, entry.2)) →
        s.sessions.lookup key = some v := by
    intro key v hkey
    obtain ⟨entry, hentry, heq⟩ := List.mem_map.mp hkey
    cases heq
    exact (mem_sessionEntries.mp hentry).2.1
  rw [restoredSessions, hsessions,
    AList.lookup_foldl_insert fun hv hv' => Option.some.inj ((hmem hv).symm.trans (hmem hv')),
    AList.lookup_empty]
  constructor
  · rintro (hin | ⟨-, hnone⟩)
    · obtain ⟨⟨peer', session'⟩, hentry, heq⟩ := List.mem_map.mp hin
      obtain ⟨haddress, hsession⟩ := Prod.mk.inj heq
      have hpeer := addressFor_inj haddress
      dsimp only at hpeer hsession
      rw [hpeer, hsession] at hentry
      exact hentry
    · cases hnone
  · exact fun hin => .inl (List.mem_map.mpr ⟨_, hin, rfl⟩)

theorem sameStore_restored (hlaw : L.Lawful) {s : DeviceStore L} (hc : Consistent s) :
    SameStore s s.restored := by
  obtain ⟨hskipped, hpinned, hsessions⟩ := restoredSessions_ok hlaw hc
  constructor
  case identityKeyPair => rfl
  case registrationId => rfl
  case nextPreKeyId => rfl
  case nextSignedPreKeyId => rfl
  case nextKyberPreKeyId => rfl
  case senderCertificate => rfl
  case preKeys => exact saveAll_lookup s.preKeys
  case signedPreKeys => exact saveAll_lookup s.signedPreKeys
  case kyberPreKeys => exact saveAll_lookup s.kyberPreKeys
  case peers =>
    show s.peers.filter (fun peer => !s.restoredSessions.skippedPeers.contains peer) = s.peers
    rw [hskipped]
    exact List.filter_eq_self.mpr fun _ _ => rfl
  case sessions =>
    intro peer hpeer
    refine Option.ext fun session => ?_
    rw [Option.filter_eq_some_iff]
    show s.restoredSessions.sessions.lookup (addressFor peer) = some session ↔ _
    rw [hsessions, mem_sessionEntries]
    constructor
    · rintro ⟨-, hlookup, hne⟩
      refine ⟨hlookup, ?_⟩
      rw [Bool.not_eq_true', List.isEmpty_eq_false_iff]
      exact hne
    · rintro ⟨hlookup, hne⟩
      rw [Bool.not_eq_true', List.isEmpty_eq_false_iff] at hne
      exact ⟨hpeer, hlookup, hne⟩
  case pinned => exact fun peer _ hsession => hpinned peer hsession
  case senderKeys =>
    intro identity dist hidentity
    refine Option.ext fun record => ?_
    show (storeAll s.senderKeyEntries).lookup (addressFor identity, dist) = some record ↔ _
    rw [storeAll_lookup, mem_senderKeyEntries]
    constructor
    · exact fun h => h.2.1
    · intro hlookup
      refine ⟨hc.indexed identity dist hidentity ?_, hlookup, hc.senderKey _ _ hlookup⟩
      rw [hlookup]
      exact Option.some_ne_none record

theorem fromSerialized_snapshotBytes (hlaw : L.Lawful) {s : DeviceStore L} (hfits : FitsFormat s)
    (hc : Consistent s) : fromSerialized L s.snapshotBytes = .ok s.restored :=
  fromSerialized_of_writes hlaw hfits.counts (hfits.writes hc)

/-- A chain of a sender whose identity the format cannot hold is not restored. -/
theorem restored_long_sender {s : DeviceStore L} (hc : Consistent s) {identity : Bytes}
    (hlong : 2 ^ 16 ≤ identity.length) (dist : DistributionId) :
    s.restored.senderKeys.lookup (addressFor identity, dist) = none := by
  refine Option.eq_none_iff_forall_ne_some.mpr fun record hrecord => ?_
  have hentry := (storeAll_lookup s identity dist record).mp hrecord
  have hshort := hc.index _ (mem_senderKeyEntries.mp hentry).1
  dsimp only at hshort
  omega

end DeviceStore

end Pizzini.Crypto
