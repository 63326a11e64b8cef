import Pizzini.Crypto.DeviceStore

/-!
# Snapshots of a `DeviceStore`

`DeviceStore::serialize` and `from_serialized` (store.rs:1093–1417). A snapshot
is read back section by section: `Reads x bs a` says that the reader `x` takes
`bs` off the front, whatever follows, and returns `a`.
-/

namespace Pizzini.Crypto

open Wire Stateful

variable {L : Libsignal}

namespace DeviceStore

/-! ## Writing (store.rs:1093–1223) -/

/-- `len() as u32`, big-endian. -/
def countBytes (n : Nat) : Bytes := beBytes 4 n

/-- A pre-key of any of the three kinds. -/
def writeRecord {R : Type} (serializeRecord : R → Bytes) (entry : (_ : UInt32) × R) : Result Bytes := do
  return u32Bytes entry.1 ++ (← writeU32Blob (serializeRecord entry.2))

/-- The sessions of the peers, but for empty records. -/
def sessionEntries (s : DeviceStore L) : List (Bytes × L.SessionRecord) :=
  s.peers.filterMap fun peer =>
    match s.sessions.lookup (addressFor peer) with
    | some session => if (L.serializeSession session).isEmpty then none else some (peer, session)
    | none => none

def writeSession (entry : Bytes × L.SessionRecord) : Result Bytes := do
  return (← writeU16Blob entry.1) ++ (← writeU32Blob (L.serializeSession entry.2))

/-- The sender keys of the index, but for empty records. -/
def senderKeyEntries (s : DeviceStore L) : List (Bytes × DistributionId × L.SenderKeyRecord) :=
  s.senderKeyIndex.filterMap fun entry =>
    match s.senderKeys.lookup (addressFor entry.1, entry.2) with
    | some record =>
      if (L.serializeSenderKey record).isEmpty then none else some (entry.1, entry.2, record)
    | none => none

def writeSenderKey (entry : Bytes × DistributionId × L.SenderKeyRecord) : Result Bytes := do
  return (← writeU16Blob entry.1) ++ entry.2.1.1 ++
    (← writeU32Blob (L.serializeSenderKey entry.2.2))

/-- The bytes of the certificate, or none. -/
def certificateBytes (s : DeviceStore L) : Bytes :=
  match s.senderCertificate with
  | some cert => L.serializeCertificate cert
  | none => []

/-- A section: the number of its elements, and their bytes. -/
def countedBytes (elements : List Bytes) : Bytes := countBytes elements.length ++ elements.flatten

/-- `DeviceStore::serialize`. -/
def serialize (s : DeviceStore L) : Result Bytes := do
  let identity ← writeU32Blob (L.serializeIdentityKeyPair s.identityKeyPair)
  let peers ← s.peers.mapM writeU16Blob
  let preKeys ← s.preKeys.entries.mapM (writeRecord L.serializePreKey)
  let signedPreKeys ← s.signedPreKeys.entries.mapM (writeRecord L.serializeSignedPreKey)
  let kyberPreKeys ← s.kyberPreKeys.entries.mapM (writeRecord L.serializeKyberPreKey)
  let sessions ← s.sessionEntries.mapM writeSession
  let certificate ← writeU32Blob s.certificateBytes
  let senderKeys ← s.senderKeyEntries.mapM writeSenderKey
  return [STORE_VERSION] ++ (identity ++ (u32Bytes s.registrationId ++ (u32Bytes s.nextPreKeyId ++
    (u32Bytes s.nextSignedPreKeyId ++ (u32Bytes s.nextKyberPreKeyId ++ (countedBytes peers ++
      (countedBytes preKeys ++ (countedBytes signedPreKeys ++ (countedBytes kyberPreKeys ++
        (countedBytes sessions ++ (certificate ++ countedBytes senderKeys)))))))))))

/-! ## Reading (store.rs:1225–1417) -/

/-- The elements of a section, one after the other. -/
def readMany {α : Type} (element : Cursor α) : Nat → Cursor (List α)
  | 0 => pure []
  | n + 1 => do
    let a ← element
    let rest ← readMany element n
    return a :: rest

/-- A count, and so many elements. -/
def readCounted {α : Type} (element : Cursor α) : Cursor (List α) := do
  readMany element (← Cursor.readCount)

def readRecord {R : Type} (deserialize : Bytes → Result R) : Cursor (UInt32 × R) := do
  let id ← Cursor.u32
  let record ← Op.lift (deserialize (← Cursor.u32Blob))
  return (id, record)

def readSession : Cursor (Bytes × Bytes) := do
  let peer ← Cursor.u16Blob
  let sessionBytes ← Cursor.u32Blob
  return (peer, sessionBytes)

def readSenderKey (L : Libsignal) : Cursor (Bytes × DistributionId × L.SenderKeyRecord) := do
  let senderIdentity ← Cursor.u16Blob
  let dist ← Cursor.take 16
  let record ← Op.lift (L.deserializeSenderKey (← Cursor.u32Blob))
  if h : dist.length = 16 then return (senderIdentity, ⟨dist, h⟩, record)
  else Op.throw (.panicked "copy_from_slice")

/-- The sessions and pinned identities so far, and the peers that were skipped. -/
structure Restored (L : Libsignal) where
  sessions : Dict ProtocolAddress L.SessionRecord
  identities : Dict ProtocolAddress L.IdentityKey
  skippedPeers : List Bytes

/-- One round of the session loop: a record that does not parse, or a peer that
is no identity, is skipped. -/
def Restored.add (r : Restored L) (entry : Bytes × Bytes) : Restored L :=
  match L.deserializeSession entry.2 with
  | .error _ => { r with skippedPeers := r.skippedPeers ++ [entry.1] }
  | .ok record =>
    let r := { r with sessions := r.sessions.insert (addressFor entry.1) record }
    match L.decodeIdentityKey entry.1 with
    | .error _ => { r with skippedPeers := r.skippedPeers ++ [entry.1] }
    | .ok identity => { r with identities := r.identities.insert (addressFor entry.1) identity }

/-- `save_pre_key` and its siblings, for every record of a section. -/
def saveAll {R : Type} (records : List (UInt32 × R)) : Dict UInt32 R :=
  records.foldl (fun saved entry => saved.insert entry.1 entry.2) ∅

/-- `store_sender_key`, for every entry. -/
def storeAll (entries : List (Bytes × DistributionId × L.SenderKeyRecord)) :
    Dict (ProtocolAddress × DistributionId) L.SenderKeyRecord :=
  entries.foldl (fun stored entry => stored.insert (addressFor entry.1, entry.2.1) entry.2.2) ∅

/-- The certificate, which a first version does not have. -/
def readCertificate (L : Libsignal) (version : UInt8) : Cursor (Option L.SenderCertificate) := do
  if version ≥ 2 && !(← Cursor.isEmpty) then
    let certBytes ← Cursor.u32Blob
    if certBytes.isEmpty then return none
    else return some (← Op.lift (L.deserializeCertificate certBytes))
  else return none

/-- The sender keys, which the third version added. -/
def readSenderKeys (L : Libsignal) (version : UInt8) :
    Cursor (List (Bytes × DistributionId × L.SenderKeyRecord)) := do
  if version ≥ 3 && !(← Cursor.isEmpty) then readCounted (readSenderKey L) else return []

/-- What the sections after the peers add. -/
def readRest (s : DeviceStore L) (version : UInt8) : Cursor (DeviceStore L) := do
  let preKeys ← readCounted (readRecord L.deserializePreKey)
  let signedPreKeys ← readCounted (readRecord L.deserializeSignedPreKey)
  let kyberPreKeys ← readCounted (readRecord L.deserializeKyberPreKey)
  let sessions ← readCounted readSession
  let certificate ← readCertificate L version
  let senderKeys ← readSenderKeys L version
  let restored := sessions.foldl Restored.add (⟨∅, ∅, []⟩ : Restored L)
  return { s with
    preKeys := saveAll preKeys
    signedPreKeys := saveAll signedPreKeys
    kyberPreKeys := saveAll kyberPreKeys
    sessions := restored.sessions
    identities := restored.identities
    peers := s.peers.filter fun peer => !restored.skippedPeers.contains peer
    senderCertificate := certificate
    senderKeys := storeAll senderKeys
    senderKeyIndex := senderKeys.map fun entry => (entry.1, entry.2.1) }

/-- `DeviceStore::from_serialized`. -/
def readSnapshot (L : Libsignal) : Cursor (DeviceStore L) := do
  let version ← Cursor.u8
  if version ≠ STORE_VERSION ∧ version ≠ 2 ∧ version ≠ 1 then
    Op.throw (.invalidArgument s!"unknown store version {version}")
  else do
    let pair ← Op.lift (L.parseIdentityKeyPair (← Cursor.u32Blob))
    let registrationId ← Cursor.u32
    let nextPreKeyId ← Cursor.u32
    let nextSignedPreKeyId ← Cursor.u32
    let nextKyberPreKeyId ← Cursor.u32
    let peers ← readCounted Cursor.u16Blob
    readRest
      { fresh (L := L) pair registrationId with
        nextPreKeyId := nextPreKeyId
        nextSignedPreKeyId := nextSignedPreKeyId
        nextKyberPreKeyId := nextKyberPreKeyId
        peers := peers } version

def fromSerialized (L : Libsignal) (bytes : Bytes) : Result (DeviceStore L) :=
  ((readSnapshot L).run bytes).1

/-! ## Readers that take what was written -/

def Reads {α : Type} (x : Cursor α) (bs : Bytes) (a : α) : Prop :=
  ∀ rest, x.run (bs ++ rest) = (.ok a, rest)

namespace Reads

variable {α β : Type} {x : Cursor α} {bs bs' : Bytes} {a : α} {b : β}

theorem pure (a : α) : Reads (Pure.pure a : Cursor α) [] a := fun _ => rfl

theorem bind {f : α → Cursor β} (hx : Reads x bs a) (hf : Reads (f a) bs' b) :
    Reads (x >>= f) (bs ++ bs') b := by
  intro rest
  rw [List.append_assoc, bind_of_ok (hx _), hf]

theorem map {f : α → Cursor β} (hx : Reads x bs a) (hf : Reads (f a) [] b) :
    Reads (x >>= f) bs b := by
  have hboth := hx.bind hf
  rwa [List.append_nil] at hboth

theorem lift {r : Result α} (h : r = .ok a) : Reads (Op.lift r : Cursor α) [] a := by
  intro rest
  rw [h]
  rfl

theorem take {n : Nat} (h : bs.length = n) : Reads (Cursor.take n) bs bs := by
  intro rest
  have hlen : ¬ (bs ++ rest).length < n := by
    rw [List.length_append]
    omega
  simp only [Cursor.take, if_neg hlen, List.take_left' h, List.drop_left' h]

theorem u8 (b : UInt8) : Reads Cursor.u8 [b] b :=
  (take (show ([b] : Bytes).length = 1 from rfl)).map (pure _)

theorem u16 {n : Nat} (h : n < 2 ^ 16) : Reads Cursor.u16 (beBytes 2 n) n := by
  refine (take (length_beBytes 2 n)).map ?_
  rw [beNat_beBytes h]
  exact pure _

theorem u32 (n : UInt32) : Reads Cursor.u32 (u32Bytes n) n := by
  refine (take (length_beBytes 4 n.toNat)).map ?_
  rw [show beNat (beBytes 4 n.toNat) = n.toNat from beNat_beBytes n.toNat_lt, UInt32.ofNat_toNat]
  exact pure _

theorem u32_of_nat {n : Nat} (h : n < 2 ^ 32) : Reads Cursor.u32 (beBytes 4 n) (UInt32.ofNat n) := by
  refine (take (length_beBytes 4 n)).map ?_
  rw [show beNat (beBytes 4 n) = n from beNat_beBytes h]
  exact pure _

theorem u16Blob {blob : Bytes} (h : blob.length < 2 ^ 16) :
    Reads Cursor.u16Blob (beBytes 2 blob.length ++ blob) blob :=
  (u16 h).bind (take rfl)

theorem u32Blob {blob : Bytes} (h : blob.length < 2 ^ 32) :
    Reads Cursor.u32Blob (beBytes 4 blob.length ++ blob) blob := by
  refine (u32_of_nat h).bind ?_
  rw [UInt32.toNat_ofNat_of_lt' h]
  exact take rfl

/-- Elements that are each read back are read back in order. -/
theorem many {element : Cursor α} {as : List α} {bss : List Bytes}
    (h : List.Forall₂ (fun a bs => Reads element bs a) as bss) :
    Reads (readMany element as.length) bss.flatten as := by
  induction h with
  | nil => exact pure []
  | cons ha _ ih => exact ha.bind (ih.map (pure _))

/-- A section is read back: its count passes the check, since no element is
without bytes. -/
theorem counted {element : Cursor α} {as : List α} {bss : List Bytes}
    (h : List.Forall₂ (fun a bs => Reads element bs a) as bss) (hne : ∀ bs ∈ bss, bs ≠ [])
    (hlen : bss.length < 2 ^ 32) : Reads (readCounted element) (countedBytes bss) as := by
  have hflat : ∀ bss : List Bytes, (∀ bs ∈ bss, bs ≠ []) → bss.length ≤ bss.flatten.length := by
    intro bss hne
    induction bss with
    | nil => exact Nat.le_refl _
    | cons bs bss ih =>
      have hhead : 0 < bs.length := List.length_pos_of_ne_nil (hne bs List.mem_cons_self)
      have htail := ih fun b hb => hne b (List.mem_cons_of_mem _ hb)
      rw [List.flatten_cons, List.length_append, List.length_cons]
      omega
  intro rest
  have hcount : Cursor.readCount.run (countBytes bss.length ++ (bss.flatten ++ rest)) =
      (.ok bss.length, bss.flatten ++ rest) := by
    rw [Cursor.readCount, countBytes, bind_of_ok (u32_of_nat hlen _), bind_of_ok (run_get _)]
    have hle := hflat bss hne
    have hnat : (UInt32.ofNat bss.length).toNat = bss.length := UInt32.toNat_ofNat_of_lt' hlen
    rw [hnat, if_neg]
    · rfl
    · rw [List.length_append]
      omega
  rw [readCounted, countedBytes, List.append_assoc, bind_of_ok hcount, ← h.length_eq]
  exact many h rest

end Reads

end DeviceStore

end Pizzini.Crypto
