import Pizzini.Crypto.SealedSize
import Pizzini.Crypto.SnapshotRoundTrip
import Pizzini.Lib.Runs

/-!
# Every store in a run survives its snapshot

The public operations keep a store consistent, whether they succeed or fail
(`apply_consistent`): each stores a session only for an identity that it has
decoded or that had a session before, and notes each chain that it stores. So
every reachable store that fits the format is given back (`snapshot_restores`).
A chain of a longer identity than the format holds is not, and neither is a
store with `2^32` peers.
-/

namespace Pizzini.Crypto

open Wire Stateful Runs

variable {L : Libsignal}

namespace DeviceStore

/-! ## What the operations keep -/

theorem consistent_fresh (pair : L.IdentityKeyPair) (registrationId : UInt32) :
    Consistent (fresh (L := L) pair registrationId) where
  session identity session h _ := by cases h
  peer peer h := by cases h
  senderKey key record h := by cases h
  indexed identity dist _ h := absurd rfl h
  index entry h := by cases h

/-- Consistency reads the sessions, the peers and the sender keys. -/
theorem Consistent.congr {s s' : DeviceStore L} (hc : Consistent s) (hsessions : s'.sessions = s.sessions)
    (hpeers : s'.peers = s.peers) (hkeys : s'.senderKeys = s.senderKeys)
    (hindex : s'.senderKeyIndex = s.senderKeyIndex) : Consistent s' where
  session := by rw [hsessions]; exact hc.session
  peer := by rw [hpeers]; exact hc.peer
  senderKey := by rw [hkeys]; exact hc.senderKey
  indexed := by rw [hkeys, hindex]; exact hc.indexed
  index := by rw [hindex]; exact hc.index

/-- A session of an identity, or a session without bytes, may be stored. -/
theorem Consistent.storeSession {s s' : DeviceStore L} (hc : Consistent s) {peer : Bytes}
    {record : L.SessionRecord}
    (hrecord : L.serializeSession record ≠ [] → ∃ key, L.decodeIdentityKey peer = .ok key)
    (hsessions : s'.sessions = s.sessions.insert (addressFor peer) record)
    (hpeers : ∀ other ∈ s'.peers, other ∈ s.peers) (hkeys : s'.senderKeys = s.senderKeys)
    (hindex : s'.senderKeyIndex = s.senderKeyIndex) : Consistent s' where
  session := by
    intro identity session hlookup hne
    rw [hsessions, AList.lookup_insert_of_eq_or_ne] at hlookup
    by_cases haddress : addressFor identity = addressFor peer
    · rw [if_pos haddress] at hlookup
      cases hlookup
      rw [addressFor_inj haddress]
      exact hrecord hne
    · rw [if_neg haddress] at hlookup
      exact hc.session identity session hlookup hne
  peer other hother := hc.peer other (hpeers other hother)
  senderKey := by rw [hkeys]; exact hc.senderKey
  indexed := by rw [hkeys, hindex]; exact hc.indexed
  index := by rw [hindex]; exact hc.index

theorem keeps_registerPeer (peer : Bytes) : Keeps Consistent (registerPeer peer : StoreOp L Unit) := by
  refine Keeps.modify fun s hc => ?_
  by_cases hlong : peer.length > 65535
  · rw [if_pos hlong]
    exact hc
  · rw [if_neg hlong]
    by_cases hknown : s.peers.contains peer = true
    · rw [if_pos hknown]
      exact hc
    · rw [if_neg hknown]
      refine { hc with peer := ?_ }
      intro other hother
      obtain hold | hnew := List.mem_append.mp hother
      · exact hc.peer other hold
      · rw [List.mem_singleton.mp hnew]
        omega

theorem keeps_forgetPeer (hlaw : L.Lawful) (peer : Bytes) :
    Keeps Consistent (forgetPeer peer : StoreOp L Unit) :=
  Keeps.modify fun _ hc => hc.storeSession (fun hne => absurd hlaw.freshSession hne) rfl
    (fun _ hother => (List.mem_filter.mp hother).1) rfl rfl

/-- A change to the pre-keys and their counters, or to the certificate. -/
theorem keeps_modify {f : DeviceStore L → DeviceStore L}
    (hf : ∀ s, (f s).sessions = s.sessions ∧ (f s).peers = s.peers ∧
      (f s).senderKeys = s.senderKeys ∧ (f s).senderKeyIndex = s.senderKeyIndex) :
    Keeps Consistent (Op.modify f : StoreOp L Unit) :=
  Keeps.modify fun s hc => hc.congr (hf s).1 (hf s).2.1 (hf s).2.2.1 (hf s).2.2.2

theorem keeps_publishBundle (now : UInt64) (rng : L.Rng) :
    Keeps Consistent (publishBundle now rng : StoreOp L Bytes) := by
  refine Keeps.get_bind fun s hc => ?_
  refine (Keeps.lift_bind fun _ _ => ?_) s hc
  refine Keeps.bind (keeps_modify fun _ => ⟨rfl, rfl, rfl, rfl⟩) fun _ => ?_
  refine Keeps.bind (keeps_modify fun _ => ⟨rfl, rfl, rfl, rfl⟩) fun _ => ?_
  refine Keeps.lift_bind fun _ _ => ?_
  refine Keeps.bind (keeps_modify fun _ => ⟨rfl, rfl, rfl, rfl⟩) fun _ => ?_
  refine Keeps.bind (keeps_modify fun _ => ⟨rfl, rfl, rfl, rfl⟩) fun _ => ?_
  refine Keeps.lift_bind fun _ _ => ?_
  refine Keeps.bind (keeps_modify fun _ => ⟨rfl, rfl, rfl, rfl⟩) fun _ => ?_
  exact fun _ h => h

theorem keeps_initiateSession (peer bundle : Bytes) (now : UInt64) (rng : L.Rng) :
    Keeps Consistent (initiateSession peer bundle now rng : StoreOp L Unit) := by
  refine Keeps.lift_bind fun decoded _ => Keeps.lift_bind fun _ _ => Keeps.lift_bind fun key hkey => ?_
  refine Keeps.ite (fun _ => Keeps.throw _) fun _ => Keeps.get_bind fun s hc => ?_
  refine (Keeps.lift_bind fun processed _ => ?_) s hc
  refine Keeps.bind (Keeps.modify fun s hc => ?_) fun _ => keeps_registerPeer peer
  exact hc.storeSession (fun _ => ⟨key, hkey⟩) rfl (fun _ h => h) rfl rfl

theorem keeps_ensureSenderCertificate (now : UInt64) (rng : L.Rng) :
    Keeps Consistent (ensureSenderCertificate now rng : StoreOp L L.SenderCertificate) := by
  refine Keeps.ite (fun _ => Keeps.throw _) fun _ => Keeps.get_bind fun s hc => ?_
  refine (Keeps.lift_bind fun mint _ => Keeps.ite (fun _ => ?_) fun _ => ?_) s hc
  · refine Keeps.lift_bind fun cert _ => ?_
    exact Keeps.bind (keeps_modify fun _ => ⟨rfl, rfl, rfl, rfl⟩) fun _ => Keeps.pure cert
  · cases s.senderCertificate with
    | none => exact Keeps.throw _
    | some cert => exact Keeps.pure cert

/-- A send stores the session it encrypted in, which had content before. -/
theorem keeps_sealSend (hlaw : L.Lawful) (peer : Bytes) (messageId : FixedBytes 16)
    (plaintext : Bytes) (now : UInt64) (rng : L.Rng) :
    Keeps Consistent (sealSend peer messageId plaintext now rng : StoreOp L Bytes) := by
  refine (keeps_ensureSenderCertificate now rng).bind fun cert => Keeps.lift_bind fun padded _ => ?_
  refine Keeps.get_bind fun s hc => ?_
  cases hsession : s.sessions.lookup (addressFor peer) with
  | none => exact hc
  | some session =>
    dsimp only
    refine (Keeps.lift_bind fun inner hinner => ?_) s hc
    have hkey : ∃ key, L.decodeIdentityKey peer = .ok key :=
      hc.session peer session hsession (hlaw.encryptsInSession hinner)
    refine Keeps.bind (Keeps.modify fun s hc => ?_) fun _ => Keeps.lift_bind fun usmc _ => ?_
    · exact hc.storeSession (fun _ => hkey) rfl (fun _ h => h) rfl rfl
    · exact Keeps.get_bind fun _ hc => hc

theorem keeps_sealReceive («sealed» : Bytes) (now : UInt64) (rng : L.Rng) :
    Keeps Consistent (sealReceive «sealed» now rng : StoreOp L SealReceived) := by
  refine Keeps.get_bind fun s hc => ?_
  refine (Keeps.lift_bind fun usmc _ => Keeps.lift_bind fun claimed _ => ?_) s hc
  refine Keeps.ite (fun _ => Keeps.throw _) fun _ => Keeps.lift_bind fun trustRoot hroot => ?_
  refine Keeps.lift_bind fun valid _ => Keeps.ite (fun _ => Keeps.throw _) fun _ => ?_
  refine Keeps.lift_bind fun inner _ => Keeps.ite (fun _ => Keeps.throw _) fun _ => ?_
  refine Keeps.lift_bind fun messageType _ => Keeps.ite (fun _ => Keeps.throw _) fun _ => ?_
  refine Keeps.lift_bind fun parsed _ => ?_
  dsimp only
  generalize L.messageDecrypt parsed (addressFor (L.serializeIdentityKey claimed)) s.localAddress
    s.identityKeyPair s.registrationId (s.sessions.lookup (addressFor (L.serializeIdentityKey claimed)))
    (s.identities.lookup (addressFor (L.serializeIdentityKey claimed))) s.preKeys s.signedPreKeys
    s.kyberPreKeys s.kyberUses rng = decrypted
  obtain ⟨plain, session, identity, used, uses⟩ := decrypted
  refine Keeps.bind (Keeps.modify fun s hc => ?_) fun _ => ?_
  · cases session with
    | none => exact hc.congr rfl rfl rfl rfl
    | some record => exact hc.storeSession (fun _ => ⟨trustRoot, hroot⟩) rfl (fun _ h => h) rfl rfl
  · split
    · exact Keeps.lift_bind fun _ _ => Keeps.pure _
    · exact Keeps.pure _
    · exact Keeps.throw _

/-- A sender key with content is stored and put into the index. -/
theorem keeps_storeSenderKey {α : Type} {identity : Bytes} {dist : DistributionId}
    {record : L.SenderKeyRecord} (hrecord : L.serializeSenderKey record ≠ []) (a : α) :
    Keeps Consistent (do
      storeSenderKey (addressFor identity) dist record
      noteSenderKey identity dist
      return a : StoreOp L α) := by
  refine fun s hc => ?_
  have hindexed : ∀ s' : DeviceStore L,
      s'.sessions = s.sessions → s'.peers = s.peers →
      s'.senderKeys = s.senderKeys.insert (addressFor identity, dist) record →
      (∀ entry ∈ s.senderKeyIndex, entry ∈ s'.senderKeyIndex) →
      (∀ entry ∈ s'.senderKeyIndex, entry.1.length < 2 ^ 16) →
      (identity.length < 2 ^ 16 → (identity, dist) ∈ s'.senderKeyIndex) → Consistent s' := by
    intro s' hsessions hpeers hkeys hold hshort hnew
    refine ⟨by rw [hsessions]; exact hc.session, by rw [hpeers]; exact hc.peer, ?_, ?_, hshort⟩
    · intro key found hfound
      rw [hkeys, AList.lookup_insert_of_eq_or_ne] at hfound
      by_cases hkey : key = (addressFor identity, dist)
      · rw [if_pos hkey] at hfound
        cases hfound
        exact hrecord
      · rw [if_neg hkey] at hfound
        exact hc.senderKey key found hfound
    · intro other dist' hother hlookup
      rw [hkeys, AList.lookup_insert_of_eq_or_ne] at hlookup
      by_cases hkey : (addressFor other, dist') = (addressFor identity, dist)
      · obtain ⟨haddress, rfl⟩ := Prod.mk.inj hkey
        obtain rfl := addressFor_inj haddress
        exact hnew hother
      · rw [if_neg hkey] at hlookup
        exact hold _ (hc.indexed other dist' hother hlookup)
  show Consistent (if identity.length > 65535 then _ else _)
  by_cases hlong : identity.length > 65535
  · rw [if_pos hlong]
    exact hindexed _ rfl rfl rfl (fun _ h => h) hc.index (by omega)
  · rw [if_neg hlong]
    by_cases hknown : s.senderKeyIndex.contains (identity, dist) = true
    · rw [if_pos hknown]
      exact hindexed _ rfl rfl rfl (fun _ h => h) hc.index fun _ => List.contains_iff_mem.mp hknown
    · rw [if_neg hknown]
      refine hindexed _ rfl rfl rfl (fun _ h => List.mem_append_left _ h) ?_ fun _ =>
        List.mem_append_right _ (List.mem_singleton_self _)
      intro entry hentry
      obtain hold | hnew := List.mem_append.mp hentry
      · exact hc.index entry hold
      · rw [List.mem_singleton.mp hnew]
        show identity.length < 2 ^ 16
        omega

theorem keeps_senderKeyDistributionCreate (hlaw : L.Lawful) (dist : DistributionId) (rng : L.Rng) :
    Keeps Consistent (senderKeyDistributionCreate dist rng : StoreOp L Bytes) := by
  refine Keeps.get_bind fun s hc => ?_
  refine (Keeps.lift_bind fun created hcreated => ?_) s hc
  exact keeps_storeSenderKey (hlaw.createdBytes hcreated) created.1

theorem keeps_senderKeyDistributionProcess (hlaw : L.Lawful) (sender skdm : Bytes) :
    Keeps Consistent (senderKeyDistributionProcess sender skdm : StoreOp L DistributionId) := by
  refine Keeps.lift_bind fun parsed _ => Keeps.get_bind fun s hc => ?_
  refine (Keeps.lift_bind fun record hrecord => ?_) s hc
  exact keeps_storeSenderKey (hlaw.processedBytes hrecord) parsed.2

theorem keeps_groupDecrypt (hlaw : L.Lawful) (sender ciphertext : Bytes) :
    Keeps Consistent (groupDecrypt sender ciphertext : StoreOp L Bytes) := by
  refine Keeps.lift_bind fun dist _ => Keeps.get_bind fun s hc => ?_
  cases hlookup : s.senderKeys.lookup (addressFor sender, dist) with
  | none => exact hc
  | some record =>
    refine (Keeps.lift_bind fun decrypted hdecrypted => ?_) s hc
    exact keeps_storeSenderKey (hlaw.decryptedBytes hdecrypted) decrypted.1

/-- `group_encrypt` writes no index entry: the chain that it advances has one. -/
theorem keeps_groupEncrypt (hlaw : L.Lawful) (dist : DistributionId) (plaintext : Bytes)
    (rng : L.Rng) : Keeps Consistent (groupEncrypt dist plaintext rng : StoreOp L Bytes) := by
  refine Keeps.get_bind fun s hc => ?_
  cases hlookup : s.senderKeys.lookup (s.localAddress, dist) with
  | none => exact hc
  | some record =>
    dsimp only
    cases hencrypted : L.groupEncrypt record plaintext rng with
    | error e => exact hc
    | ok encrypted =>
      refine ⟨hc.session, hc.peer, ?_, ?_, hc.index⟩
      · intro key found hfound
        have hfound : (s.senderKeys.insert (s.localAddress, dist) encrypted.2).lookup key =
            some found := hfound
        rw [AList.lookup_insert_of_eq_or_ne] at hfound
        by_cases hkey : key = (s.localAddress, dist)
        · rw [if_pos hkey] at hfound
          cases hfound
          exact hlaw.encryptedBytes hencrypted
        · rw [if_neg hkey] at hfound
          exact hc.senderKey key found hfound
      · intro identity dist' hshort hfound
        refine hc.indexed identity dist' hshort ?_
        have hfound : (s.senderKeys.insert (s.localAddress, dist) encrypted.2).lookup
            (addressFor identity, dist') ≠ none := hfound
        rw [AList.lookup_insert_of_eq_or_ne] at hfound
        by_cases hkey : (addressFor identity, dist') = (s.localAddress, dist)
        · rw [hkey, hlookup]
          exact Option.some_ne_none record
        · rwa [if_neg hkey] at hfound

/-! ## Runs -/

/-- A call of a public operation. -/
inductive StoreCall (L : Libsignal) where
  | publishBundle (now : UInt64) (rng : L.Rng)
  | initiateSession (peerIdentity bundle : Bytes) (now : UInt64) (rng : L.Rng)
  | registerPeer (peerIdentity : Bytes)
  | forgetPeer (peerIdentity : Bytes)
  | sealSend (peerIdentity : Bytes) (messageId : FixedBytes 16) (plaintext : Bytes) (now : UInt64)
    (rng : L.Rng)
  | sealReceive («sealed» : Bytes) (now : UInt64) (rng : L.Rng)
  | ensureSenderCertificate (now : UInt64) (rng : L.Rng)
  | senderKeyDistributionCreate (distributionId : DistributionId) (rng : L.Rng)
  | senderKeyDistributionProcess (senderIdentity skdm : Bytes)
  | groupEncrypt (distributionId : DistributionId) (plaintext : Bytes) (rng : L.Rng)
  | groupDecrypt (senderIdentity ciphertext : Bytes)

/-- The store after a call, which may have failed. -/
def StoreCall.apply (s : DeviceStore L) : StoreCall L → DeviceStore L
  | .publishBundle now rng => ((DeviceStore.publishBundle now rng).run s).2
  | .initiateSession peer bundle now rng => ((DeviceStore.initiateSession peer bundle now rng).run s).2
  | .registerPeer peer => ((DeviceStore.registerPeer peer).run s).2
  | .forgetPeer peer => ((DeviceStore.forgetPeer peer).run s).2
  | .sealSend peer messageId plaintext now rng =>
    ((DeviceStore.sealSend peer messageId plaintext now rng).run s).2
  | .sealReceive «sealed» now rng => ((DeviceStore.sealReceive «sealed» now rng).run s).2
  | .ensureSenderCertificate now rng => ((DeviceStore.ensureSenderCertificate now rng).run s).2
  | .senderKeyDistributionCreate dist rng =>
    ((DeviceStore.senderKeyDistributionCreate dist rng).run s).2
  | .senderKeyDistributionProcess sender skdm =>
    ((DeviceStore.senderKeyDistributionProcess sender skdm).run s).2
  | .groupEncrypt dist plaintext rng => ((DeviceStore.groupEncrypt dist plaintext rng).run s).2
  | .groupDecrypt sender ciphertext => ((DeviceStore.groupDecrypt sender ciphertext).run s).2

/-- A store that calls have made of a fresh one. -/
def Reachable (s : DeviceStore L) : Prop :=
  ∃ pair registrationId, Reach (fun s (call : StoreCall L) s' => s' = call.apply s)
    (fun _ _ => True) (fresh (L := L) pair registrationId) s

theorem reachable_foldl (pair : L.IdentityKeyPair) (registrationId : UInt32)
    (calls : List (StoreCall L)) :
    Reachable (calls.foldl StoreCall.apply (fresh (L := L) pair registrationId)) := by
  refine ⟨pair, registrationId, ?_⟩
  induction calls using List.reverseRecOn with
  | nil => exact Reach.refl
  | append_singleton calls call ih =>
    rw [List.foldl_append]
    exact ih.snoc rfl trivial

theorem apply_consistent (hlaw : L.Lawful) {s : DeviceStore L} (hc : Consistent s)
    (call : StoreCall L) : Consistent (call.apply s) := by
  cases call with
  | publishBundle now rng => exact keeps_publishBundle now rng s hc
  | initiateSession peer bundle now rng => exact keeps_initiateSession peer bundle now rng s hc
  | registerPeer peer => exact keeps_registerPeer peer s hc
  | forgetPeer peer => exact keeps_forgetPeer hlaw peer s hc
  | sealSend peer messageId plaintext now rng =>
    exact keeps_sealSend hlaw peer messageId plaintext now rng s hc
  | sealReceive «sealed» now rng => exact keeps_sealReceive «sealed» now rng s hc
  | ensureSenderCertificate now rng => exact keeps_ensureSenderCertificate now rng s hc
  | senderKeyDistributionCreate dist rng =>
    exact keeps_senderKeyDistributionCreate hlaw dist rng s hc
  | senderKeyDistributionProcess sender skdm =>
    exact keeps_senderKeyDistributionProcess hlaw sender skdm s hc
  | groupEncrypt dist plaintext rng => exact keeps_groupEncrypt hlaw dist plaintext rng s hc
  | groupDecrypt sender ciphertext => exact keeps_groupDecrypt hlaw sender ciphertext s hc

theorem Reachable.consistent (hlaw : L.Lawful) {s : DeviceStore L} (h : Reachable s) :
    Consistent s := by
  obtain ⟨pair, registrationId, hreach⟩ := h
  refine hreach.invariant Consistent ?_ (consistent_fresh pair registrationId)
  rintro s call s' hc - rfl
  exact apply_consistent hlaw hc call

/-- Whatever the calls, the snapshot gives the store back. -/
theorem snapshot_restores (hlaw : L.Lawful) {s : DeviceStore L} (h : Reachable s)
    (hfits : FitsFormat s) : ∃ bytes s', s.serialize = .ok bytes ∧
      fromSerialized L bytes = .ok s' ∧ SameStore s s' := by
  have hc : Consistent s := h.consistent hlaw
  exact ⟨s.snapshotBytes, s.restored, serialize_ok hfits hc,
    fromSerialized_snapshotBytes hlaw hfits hc, sameStore_restored hlaw hc⟩

/-! ## A run, and what a snapshot does not hold -/

theorem sampleLibsignal_lawful : sampleLibsignal.Lawful where
  identityKeyPair _ := rfl
  preKey _ := rfl
  signedPreKey _ := rfl
  kyberPreKey _ := rfl
  session _ := rfl
  certificate _ := rfl
  senderKey _ := rfl
  identityKey _ := rfl
  freshSession := rfl
  encryptsInSession := by
    intro plaintext remote loc record pinned now rng result h
    exact List.ne_nil_of_length_pos (sampleEncrypt_ok h).1
  certificateBytes _ := List.cons_ne_nil _ _
  createdBytes := by
    rintro address dist record rng result ⟨⟩
    exact List.cons_ne_nil _ _
  processedBytes := by
    rintro address message record result ⟨⟩
    exact List.cons_ne_nil _ _
  encryptedBytes := by
    rintro record plaintext rng result ⟨⟩
    exact List.cons_ne_nil _ _
  decryptedBytes := by
    rintro record ciphertext result ⟨⟩
    exact List.cons_ne_nil _ _

/-- What a list of calls makes of a fresh store. -/
def sampleRun (calls : List (StoreCall sampleLibsignal)) : DeviceStore sampleLibsignal :=
  calls.foldl StoreCall.apply (fresh (L := sampleLibsignal) [5] 1)

theorem reachable_sampleRun (calls : List (StoreCall sampleLibsignal)) :
    Reachable (sampleRun calls) := reachable_foldl (L := sampleLibsignal) [5] 1 calls

/-- A bundle of the sample peer. -/
def sampleBundle : Bytes :=
  [3, 0, 0, 0, 1, 0, 0, 0, 1, 0, 0, 0, 0, 1, 0, 0, 0, 0, 0, 0, 0, 1, 0, 0, 0, 0, 0, 0, 0, 1, 9,
    0, 33] ++ List.replicate 33 0

def sampleCalls : List (StoreCall sampleLibsignal) :=
  [.initiateSession samplePeer sampleBundle 0 (), .senderKeyDistributionProcess samplePeer [7],
    .publishBundle 0 (), .sealSend samplePeer (FixedBytes.replicate 16 1) [65] 1600000000000 (),
    .groupDecrypt samplePeer [3]]

theorem sampleRun_fits : FitsFormat (sampleRun sampleCalls) where
  identity := by decide +kernel
  peers := by decide +kernel
  preKeys := by decide +kernel
  signedPreKeys := by decide +kernel
  kyberPreKeys := by decide +kernel
  senderKeys := by decide +kernel
  preKey := by decide +kernel
  signedPreKey := by decide +kernel
  kyberPreKey := by decide +kernel
  session := by
    intro address session h
    have hall : ∀ entry ∈ (sampleRun sampleCalls).sessions.entries,
        (sampleLibsignal.serializeSession entry.2).length < 2 ^ 32 := by decide +kernel
    exact hall ⟨address, session⟩ (AList.lookup_eq_some_iff.mp h)
  certificate := by decide +kernel
  senderKey := by
    intro key record h
    have hall : ∀ entry ∈ (sampleRun sampleCalls).senderKeys.entries,
        (sampleLibsignal.serializeSenderKey entry.2).length < 2 ^ 32 := by decide +kernel
    exact hall ⟨key, record⟩ (AList.lookup_eq_some_iff.mp h)

theorem snapshot_restores_sample : ∃ bytes s',
    (sampleRun sampleCalls).serialize = .ok bytes ∧ fromSerialized sampleLibsignal bytes = .ok s' ∧
      SameStore (sampleRun sampleCalls) s' :=
  snapshot_restores sampleLibsignal_lawful (reachable_sampleRun sampleCalls) sampleRun_fits

/-- An identity that is one byte too long for the format. -/
def longSender : Bytes := List.replicate 65536 0

/-- A store that has processed a chain of that identity. -/
def longSenderStore : DeviceStore sampleLibsignal :=
  sampleRun [.senderKeyDistributionProcess longSender []]

theorem apply_long_sender {identity : Bytes} (hlong : identity.length > 65535) :
    StoreCall.apply (fresh (L := sampleLibsignal) [5] 1) (.senderKeyDistributionProcess identity []) =
    { fresh (L := sampleLibsignal) [5] 1 with
      senderKeys := (∅ : Dict (ProtocolAddress × DistributionId) Bytes).insert
        (addressFor identity, FixedBytes.replicate 16 0) [2] } := by
  show (((noteSenderKey identity (FixedBytes.replicate 16 0) :
    StoreOp sampleLibsignal Unit).run _).2) = _
  rw [noteSenderKey, run_modify, if_pos hlong]
  rfl

theorem longSenderStore_eq : longSenderStore =
    { fresh (L := sampleLibsignal) [5] 1 with
      senderKeys := (∅ : Dict (ProtocolAddress × DistributionId) Bytes).insert
        (addressFor longSender, FixedBytes.replicate 16 0) [2] } := by
  have hlong : longSender.length > 65535 := by
    rw [longSender, List.length_replicate]
    omega
  rw [longSenderStore, sampleRun, List.foldl_cons, List.foldl_nil, apply_long_sender hlong]

/-- A store that has `n` peers and nothing else. -/
def crowded (n : Nat) : DeviceStore sampleLibsignal :=
  { fresh (L := sampleLibsignal) [5] 1 with peers := (List.range n).map (beBytes 4) }

theorem reachable_crowded {n : Nat} (hn : n ≤ 2 ^ 32) : Reachable (crowded n) := by
  refine ⟨[5], 1, ?_⟩
  induction n with
  | zero => exact Reach.refl
  | succ n ih =>
    refine (ih (by omega)).snoc (e := .registerPeer (beBytes 4 n)) ?_ trivial
    have hnew : ¬ (((List.range n).map (beBytes 4)).contains (beBytes 4 n) = true) := by
      intro hold
      obtain ⟨k, hk, hbytes⟩ := List.mem_map.mp (List.contains_iff_mem.mp hold)
      have hlt := List.mem_range.mp hk
      have hnat := congrArg beNat hbytes
      rw [beNat_beBytes (by omega), beNat_beBytes (by omega)] at hnat
      omega
    show _ = (((registerPeer (beBytes 4 n) : StoreOp sampleLibsignal Unit).run (crowded n)).2)
    rw [registerPeer, run_modify, if_neg (by rw [length_beBytes]; omega)]
    rw [if_neg (show ¬ ((crowded n).peers.contains (beBytes 4 n) = true) from hnew), crowded,
      List.range_succ, List.map_append]
    rfl

theorem mem_crowded {k n : Nat} (h : k < n) : beBytes 4 k ∈ (crowded n).peers :=
  List.mem_map.mpr ⟨k, List.mem_range.mpr h, rfl⟩

theorem serialize_crowded (n : Nat) : (crowded n).serialize = .ok (crowded n).snapshotBytes := by
  have hpeers : (crowded n).peers.mapM writeU16Blob = .ok ((crowded n).peers.map blob16) := by
    refine mapM_ok fun peer hpeer => writeU16Blob_ok ?_
    obtain ⟨k, -, rfl⟩ := List.mem_map.mp hpeer
    rw [length_beBytes]
    omega
  have hsessions : (crowded n).sessionEntries = [] := by
    rw [sessionEntries, List.filterMap_eq_nil_iff]
    exact fun _ _ => rfl
  rw [serialize, hpeers, hsessions, snapshotBytes, hsessions]
  rfl

theorem readRest_peers {s s' : DeviceStore L} {version : UInt8} {bytes rest : Bytes}
    (h : (readRest s version).run bytes = (.ok s', rest)) (hs : s.peers = []) : s'.peers = [] := by
  obtain ⟨preKeys, _, -, h₁⟩ := bind_ok h
  obtain ⟨signedPreKeys, _, -, h₂⟩ := bind_ok h₁
  obtain ⟨kyberPreKeys, _, -, h₃⟩ := bind_ok h₂
  obtain ⟨sessions, _, -, h₄⟩ := bind_ok h₃
  obtain ⟨certificate, _, -, h₅⟩ := bind_ok h₄
  obtain ⟨senderKeys, _, -, h₆⟩ := bind_ok h₅
  cases h₆
  show s.peers.filter _ = []
  rw [hs, List.filter_nil]

/-- A snapshot whose section of peers has the count 0. -/
theorem readSnapshot_no_peers (rest : Bytes) : (readSnapshot sampleLibsignal).run ([STORE_VERSION] ++
    (blob32 [5] ++ (u32Bytes 1 ++ (u32Bytes 1 ++ (u32Bytes 1 ++ (u32Bytes 1 ++
      (beBytes 4 0 ++ rest))))))) = (readRest (crowded 0) STORE_VERSION).run rest := by
  have hnone : (readCounted Cursor.u16Blob).run (beBytes 4 0 ++ rest) = (.ok [], rest) :=
    Reads.counted (.nil : List.Forall₂ _ [] []) (fun _ h => by cases h) (by decide) rest
  have hidentity : ∀ rest : Bytes, Cursor.u32Blob.run (blob32 [5] ++ rest) = (.ok [5], rest) :=
    Reads.u32Blob (show List.length ([5] : Bytes) < 2 ^ 32 by decide)
  have hpair : ∀ rest : Bytes, (Op.lift (sampleLibsignal.parseIdentityKeyPair [5]) :
      Cursor sampleLibsignal.IdentityKeyPair).run rest = (.ok [5], rest) := fun _ => rfl
  rw [readSnapshot, bind_of_ok (Reads.u8 STORE_VERSION _), if_neg fun hversion => hversion.1 rfl,
    bind_of_ok (hidentity _), bind_of_ok (hpair _), bind_of_ok (Reads.u32 1 _),
    bind_of_ok (Reads.u32 1 _), bind_of_ok (Reads.u32 1 _), bind_of_ok (Reads.u32 1 _),
    bind_of_ok hnone]
  rfl

/-- `2^32` peers are counted as none, so no snapshot gives them back. -/
theorem crowded_lost {s' : DeviceStore sampleLibsignal}
    (h : fromSerialized sampleLibsignal (crowded (2 ^ 32)).snapshotBytes = .ok s') :
    s'.peers = [] := by
  have hcount : countBytes ((crowded (2 ^ 32)).peers.map blob16).length = beBytes 4 0 := by
    rw [List.length_map, crowded, List.length_map, List.length_range]
    rfl
  have hsplit : ∃ rest, (crowded (2 ^ 32)).snapshotBytes = [STORE_VERSION] ++ (blob32 [5] ++
      (u32Bytes 1 ++ (u32Bytes 1 ++ (u32Bytes 1 ++ (u32Bytes 1 ++ (beBytes 4 0 ++ rest)))))) := by
    rw [snapshotBytes, countedBytes, hcount, List.append_assoc]
    exact ⟨_, rfl⟩
  obtain ⟨rest, hbytes⟩ := hsplit
  rw [hbytes, fromSerialized, readSnapshot_no_peers] at h
  cases hrest : (readRest (crowded 0) STORE_VERSION).run rest with
  | mk result left =>
    rw [hrest] at h
    dsimp only at h
    rw [h] at hrest
    exact readRest_peers hrest rfl

/-- Two stores that no snapshot gives back: one has processed a chain of an
identity of 65536 bytes, one has `2^32` peers. -/
theorem snapshot_loses_long_sender_and_crowd :
    (Reachable longSenderStore ∧ ∃ bytes s', longSenderStore.serialize = .ok bytes ∧
      fromSerialized sampleLibsignal bytes = .ok s' ∧
      longSenderStore.senderKeys.lookup (addressFor longSender, FixedBytes.replicate 16 0) = some [2] ∧
      s'.senderKeys.lookup (addressFor longSender, FixedBytes.replicate 16 0) = none) ∧
    (Reachable (crowded (2 ^ 32)) ∧ beBytes 4 0 ∈ (crowded (2 ^ 32)).peers ∧
      ∃ bytes, (crowded (2 ^ 32)).serialize = .ok bytes ∧
        ∀ s', fromSerialized sampleLibsignal bytes = .ok s' → s'.peers = []) := by
  have hreach : Reachable longSenderStore := reachable_sampleRun _
  have hc : Consistent longSenderStore := hreach.consistent sampleLibsignal_lawful
  have hfits : FitsFormat longSenderStore := by
    rw [longSenderStore_eq]
    constructor
    case session =>
      intro address session h
      cases h
    case senderKey =>
      intro key record h
      have h : AList.lookup key ((∅ : Dict (ProtocolAddress × DistributionId) Bytes).insert
          (addressFor longSender, FixedBytes.replicate 16 0) [2]) = some record := h
      rw [AList.lookup_insert_of_eq_or_ne] at h
      by_cases hkey : key = (addressFor longSender, FixedBytes.replicate 16 0)
      · rw [if_pos hkey] at h
        cases h
        decide
      · rw [if_neg hkey] at h
        cases h
    all_goals decide
  refine ⟨⟨hreach, longSenderStore.snapshotBytes, longSenderStore.restored, serialize_ok hfits hc,
    fromSerialized_snapshotBytes sampleLibsignal_lawful hfits hc, ?_, ?_⟩, ?_⟩
  · rw [longSenderStore_eq]
    generalize longSender = identity
    exact AList.lookup_insert _
  · have hlength : longSender.length = 65536 := by rw [longSender, List.length_replicate]
    exact restored_long_sender hc (Nat.le_trans (by decide) (Nat.le_of_eq hlength.symm)) _
  · refine ⟨reachable_crowded (Nat.le_refl _), ?_, _, serialize_crowded _, fun s' => crowded_lost⟩
    exact mem_crowded (by omega)

end DeviceStore

end Pizzini.Crypto
