import Mathlib.Data.Finset.Basic
import Pizzini.Crypto.SnapshotRuns

/-!
# A damaged session costs its own peer (store.rs:1225–1417)

Session records of some peers are replaced in a snapshot by bytes that do not parse. What is
loaded is then what a snapshot without these peers gives (`restoredWith_damaged`): they are in
neither the peers nor the sessions nor the pinned identities, and everything else is as it was.

A load leaves a consistent store, and another one changes nothing (`sameDevice_restored`). So
damage is contained in every store that calls and loads, of damaged snapshots too, have made of a
fresh one (`damage_contained`).
-/

namespace Pizzini.Crypto

open Wire Stateful Runs

variable {L : Libsignal}

namespace DeviceStore

/-! ## The damage -/

/-- The store without these peers. -/
def without (s : DeviceStore L) (P : Finset Bytes) : DeviceStore L :=
  { s with peers := s.peers.filter fun peer => peer ∉ P }

/-- What stands in the session section for an entry: for a peer of `P` bytes that do not parse,
and otherwise its record. -/
def Damaged (P : Finset Bytes) (entry : Bytes × L.SessionRecord) (written : Bytes × Bytes) : Prop :=
  written.1 = entry.1 ∧
    if entry.1 ∈ P then written.2.length < 2 ^ 32 ∧ ∃ e, L.deserializeSession written.2 = .error e
    else written.2 = L.serializeSession entry.2

theorem filterMap_filter_comm {α β : Type} {f : α → Option β} {p : α → Bool} {q : β → Bool}
    (h : ∀ a b, f a = some b → p a = q b) (as : List α) :
    (as.filter p).filterMap f = (as.filterMap f).filter q := by
  induction as with
  | nil => rfl
  | cons a as ih =>
    cases hb : f a with
    | none =>
      rw [List.filterMap_cons_none hb, ← ih]
      cases hp : p a with
      | false => rw [List.filter_cons_of_neg (by rw [hp]; exact Bool.false_ne_true)]
      | true => rw [List.filter_cons_of_pos hp, List.filterMap_cons_none hb]
    | some b =>
      rw [List.filterMap_cons_some hb]
      cases hp : p a with
      | false =>
        have hq : q b = false := (h a b hb).symm.trans hp
        rw [List.filter_cons_of_neg (by rw [hp]; exact Bool.false_ne_true),
          List.filter_cons_of_neg (by rw [hq]; exact Bool.false_ne_true), ih]
      | true =>
        have hq : q b = true := (h a b hb).symm.trans hp
        rw [List.filter_cons_of_pos hp, List.filter_cons_of_pos hq, List.filterMap_cons_some hb, ih]

theorem sessionEntries_without (s : DeviceStore L) (P : Finset Bytes) :
    (s.without P).sessionEntries = s.sessionEntries.filter fun entry => entry.1 ∉ P := by
  refine filterMap_filter_comm ?_ s.peers
  intro peer entry hentry
  split at hentry
  · split at hentry
    · cases hentry
    · cases hentry
      rfl
  · cases hentry

theorem consistent_without {s : DeviceStore L} (hc : Consistent s) (P : Finset Bytes) :
    Consistent (s.without P) :=
  { hc with peer := fun peer hpeer => hc.peer peer (List.mem_of_mem_filter hpeer) }

/-! ## What is skipped -/

/-- The entries of peers that are identities, restored. -/
def Restored.addAll (r : Restored L) (entries : List (Bytes × L.SessionRecord)) : Restored L where
  sessions := entries.foldl (fun out entry => out.insert (addressFor entry.1) entry.2) r.sessions
  identities := entries.foldl
    (fun out entry => match L.decodeIdentityKey entry.1 with
      | .ok key => out.insert (addressFor entry.1) key
      | .error _ => out) r.identities
  skippedPeers := r.skippedPeers

/-- The damaged entries are skipped, and the others are restored. -/
theorem foldl_add_damaged (hlaw : L.Lawful) {P : Finset Bytes}
    {entries : List (Bytes × L.SessionRecord)} {written : List (Bytes × Bytes)}
    (hdamage : List.Forall₂ (Damaged P) entries written)
    (hdecodes : ∀ entry ∈ entries, ∃ key, L.decodeIdentityKey entry.1 = .ok key) :
    ∀ r : Restored L, written.foldl Restored.add r =
      { r.addAll (entries.filter fun entry => entry.1 ∉ P) with
        skippedPeers := r.skippedPeers ++
          (entries.filter fun entry => entry.1 ∈ P).map Prod.fst } := by
  induction hdamage with
  | nil =>
    intro r
    show r = ⟨r.sessions, r.identities, r.skippedPeers ++ []⟩
    rw [List.append_nil]
  | @cons entry w entries written hentry _ ih =>
    intro r
    obtain ⟨peer, bytes⟩ := w
    obtain ⟨rfl, hbytes⟩ := hentry
    rw [List.foldl_cons, ih (fun e he => hdecodes e (List.mem_cons_of_mem _ he))]
    split at hbytes
    · next hP =>
      -- a record that does not parse
      obtain ⟨-, e, herror⟩ := hbytes
      have hadd : r.add (entry.1, bytes) =
          { r with skippedPeers := r.skippedPeers ++ [entry.1] } := by
        simp only [Restored.add, herror]
      rw [hadd, List.filter_cons_of_neg (by simpa using hP), List.filter_cons_of_pos (by simpa using hP),
        List.map_cons]
      simp only [Restored.addAll, List.append_assoc, List.singleton_append]
    · next hP =>
      obtain ⟨key, hkey⟩ := hdecodes entry List.mem_cons_self
      obtain rfl : bytes = _ := hbytes
      rw [add_ok hlaw r hkey, List.filter_cons_of_pos (by simpa using hP),
        List.filter_cons_of_neg (by simpa using hP)]
      simp only [Restored.addAll, List.foldl_cons, hkey]

theorem damaged_empty (entries : List (Bytes × L.SessionRecord)) :
    List.Forall₂ (Damaged ∅) entries
      (entries.map fun entry => (entry.1, L.serializeSession entry.2)) := by
  rw [List.forall₂_map_right_iff]
  exact List.forall₂_same.mpr fun entry _ => ⟨rfl, rfl⟩

theorem Consistent.decodes {s : DeviceStore L} (hc : Consistent s) :
    ∀ entry ∈ s.sessionEntries, ∃ key, L.decodeIdentityKey entry.1 = .ok key := by
  intro entry hentry
  obtain ⟨-, hlookup, hne⟩ := mem_sessionEntries.mp hentry
  exact hc.session _ _ hlookup hne

theorem restoredWith_of_damaged (hlaw : L.Lawful) {s : DeviceStore L} (hc : Consistent s)
    {P : Finset Bytes} {written : List (Bytes × Bytes)}
    (hdamage : List.Forall₂ (Damaged P) s.sessionEntries written) :
    s.restoredWith written =
      { s.restored with
        peers := s.peers.filter fun peer =>
          !((s.sessionEntries.filter fun entry => entry.1 ∈ P).map Prod.fst).contains peer
        sessions := (Restored.addAll ⟨∅, ∅, []⟩
          (s.sessionEntries.filter fun entry => entry.1 ∉ P)).sessions
        identities := (Restored.addAll ⟨∅, ∅, []⟩
          (s.sessionEntries.filter fun entry => entry.1 ∉ P)).identities } := by
  rw [restoredWith, foldl_add_damaged hlaw hdamage hc.decodes]
  rfl

/-- The store that is read back, with its sessions and identities spelled out. -/
theorem restored_eq (hlaw : L.Lawful) {s : DeviceStore L} (hc : Consistent s) :
    s.restored =
      { s.restored with
        peers := s.peers
        sessions := (Restored.addAll ⟨∅, ∅, []⟩ s.sessionEntries).sessions
        identities := (Restored.addAll ⟨∅, ∅, []⟩ s.sessionEntries).identities } := by
  have hrestored := restoredWith_of_damaged hlaw hc (damaged_empty s.sessionEntries)
  have hall : s.sessionEntries.filter (fun entry => entry.1 ∉ (∅ : Finset Bytes)) =
      s.sessionEntries := List.filter_eq_self.mpr fun _ _ => rfl
  have hnone : s.sessionEntries.filter (fun entry => entry.1 ∈ (∅ : Finset Bytes)) = [] :=
    List.filter_eq_nil_iff.mpr fun _ _ => Bool.false_ne_true
  have hpeers : s.peers.filter (fun peer => !(([] : List Bytes).contains peer)) = s.peers :=
    List.filter_eq_self.mpr fun _ _ => rfl
  rw [hall, hnone, List.map_nil, hpeers] at hrestored
  exact hrestored

/-- The damaged snapshot is read back as the snapshot without the damaged peers. -/
theorem restoredWith_damaged (hlaw : L.Lawful) {s : DeviceStore L} (hc : Consistent s)
    {P : Finset Bytes} (hP : ∀ peer ∈ P, ∃ session, (peer, session) ∈ s.sessionEntries)
    {written : List (Bytes × Bytes)}
    (hdamage : List.Forall₂ (Damaged P) s.sessionEntries written) :
    s.restoredWith written = (s.without P).restored := by
  have hpeers : s.peers.filter (fun peer =>
      !((s.sessionEntries.filter fun entry => entry.1 ∈ P).map Prod.fst).contains peer) =
      s.peers.filter fun peer => peer ∉ P := by
    refine List.filter_congr fun peer _ => ?_
    have hiff : peer ∈ (s.sessionEntries.filter fun entry => entry.1 ∈ P).map Prod.fst ↔
        peer ∈ P := by
      rw [List.mem_map]
      constructor
      · rintro ⟨entry, hentry, rfl⟩
        exact of_decide_eq_true (List.mem_filter.mp hentry).2
      · intro hpeer
        obtain ⟨session, hsession⟩ := hP peer hpeer
        exact ⟨_, List.mem_filter.mpr ⟨hsession, decide_eq_true hpeer⟩, rfl⟩
    by_cases hpeer : peer ∈ P
    · rw [List.contains_iff_mem.mpr (hiff.mpr hpeer), decide_eq_false (not_not.mpr hpeer)]
      rfl
    · have hnot := mt hiff.mp hpeer
      rw [← List.contains_iff_mem, Bool.not_eq_true] at hnot
      rw [hnot, decide_eq_true hpeer]
      rfl
  rw [restoredWith_of_damaged hlaw hc hdamage, restored_eq hlaw (consistent_without hc P),
    sessionEntries_without, hpeers]
  rfl

/-! ## What is lost -/

/-- The same in everything but the peers, their sessions and their pinned identities. -/
structure SameRecords (s s' : DeviceStore L) : Prop where
  identityKeyPair : s'.identityKeyPair = s.identityKeyPair
  registrationId : s'.registrationId = s.registrationId
  nextPreKeyId : s'.nextPreKeyId = s.nextPreKeyId
  nextSignedPreKeyId : s'.nextSignedPreKeyId = s.nextSignedPreKeyId
  nextKyberPreKeyId : s'.nextKyberPreKeyId = s.nextKyberPreKeyId
  preKeys : ∀ id, s'.preKeys.lookup id = s.preKeys.lookup id
  signedPreKeys : ∀ id, s'.signedPreKeys.lookup id = s.signedPreKeys.lookup id
  kyberPreKeys : ∀ id, s'.kyberPreKeys.lookup id = s.kyberPreKeys.lookup id
  kyberUses : s'.kyberUses = s.kyberUses
  senderCertificate : s'.senderCertificate = s.senderCertificate
  senderKeys : ∀ key, s'.senderKeys.lookup key = s.senderKeys.lookup key
  senderKeyIndex : s'.senderKeyIndex = s.senderKeyIndex

/-- The same in everything. -/
structure SameDevice (s s' : DeviceStore L) : Prop where
  records : SameRecords s s'
  peers : s'.peers = s.peers
  sessions : ∀ address, s'.sessions.lookup address = s.sessions.lookup address
  identities : ∀ address, s'.identities.lookup address = s.identities.lookup address

/-- Of the peers of a store, which are all in `loaded`, `damaged` has lost those of `P`, and
nothing else. -/
structure Contained (P : Finset Bytes) (s loaded damaged : DeviceStore L) : Prop where
  loads : loaded.peers = s.peers
  held : ∀ peer ∈ P, (loaded.sessions.lookup (addressFor peer)).isSome ∧
    (loaded.identities.lookup (addressFor peer)).isSome
  peers : damaged.peers = loaded.peers.filter fun peer => peer ∉ P
  sessions : ∀ peer, damaged.sessions.lookup (addressFor peer) =
    if peer ∈ P then none else loaded.sessions.lookup (addressFor peer)
  identities : ∀ peer, damaged.identities.lookup (addressFor peer) =
    if peer ∈ P then none else loaded.identities.lookup (addressFor peer)
  records : SameRecords loaded damaged

theorem addAll_identities {entries : List (Bytes × L.SessionRecord)}
    (hdecodes : ∀ entry ∈ entries, ∃ key, L.decodeIdentityKey entry.1 = .ok key) (peer : Bytes) :
    ∀ r : Restored L, (r.addAll entries).identities.lookup (addressFor peer) =
      if peer ∈ entries.map Prod.fst then (L.decodeIdentityKey peer).toOption
      else r.identities.lookup (addressFor peer) := by
  induction entries with
  | nil => exact fun r => (if_neg List.not_mem_nil).symm
  | cons entry entries ih =>
    intro r
    obtain ⟨key, hkey⟩ := hdecodes entry List.mem_cons_self
    have hrest := ih (fun e he => hdecodes e (List.mem_cons_of_mem _ he))
      { r with identities := r.identities.insert (addressFor entry.1) key }
    have hadd : (r.addAll (entry :: entries)).identities = (Restored.addAll
        { r with identities := r.identities.insert (addressFor entry.1) key } entries).identities := by
      simp only [Restored.addAll, List.foldl_cons, hkey]
    rw [hadd, hrest, List.map_cons]
    by_cases htail : peer ∈ entries.map Prod.fst
    · rw [if_pos htail, if_pos (List.mem_cons_of_mem _ htail)]
    · rw [if_neg htail, AList.lookup_insert_of_eq_or_ne]
      by_cases hhead : peer = entry.1
      · subst hhead
        rw [if_pos rfl, if_pos List.mem_cons_self, hkey]
        rfl
      · rw [if_neg (fun h => hhead (addressFor_inj h)),
          if_neg (fun h => (List.mem_cons.mp h).elim hhead htail)]

theorem restored_identities (hlaw : L.Lawful) {s : DeviceStore L} (hc : Consistent s)
    (peer : Bytes) : s.restored.identities.lookup (addressFor peer) =
      if peer ∈ s.sessionEntries.map Prod.fst then (L.decodeIdentityKey peer).toOption else none := by
  rw [restored_eq hlaw hc]
  exact addAll_identities hc.decodes peer ⟨∅, ∅, []⟩

theorem restored_sessions (hlaw : L.Lawful) {s : DeviceStore L} (hc : Consistent s) {peer : Bytes}
    {session : L.SessionRecord} :
    s.restored.sessions.lookup (addressFor peer) = some session ↔
      (peer, session) ∈ s.sessionEntries :=
  (restoredSessions_ok hlaw hc).2.2 peer session

theorem restored_peers (hlaw : L.Lawful) {s : DeviceStore L} (hc : Consistent s) :
    s.restored.peers = s.peers := (sameStore_restored hlaw hc).peers

theorem mem_fst_without {s : DeviceStore L} {P : Finset Bytes} {peer : Bytes} :
    peer ∈ (s.without P).sessionEntries.map Prod.fst ↔
      peer ∉ P ∧ peer ∈ s.sessionEntries.map Prod.fst := by
  rw [sessionEntries_without, List.mem_map, List.mem_map]
  constructor
  · rintro ⟨entry, hentry, rfl⟩
    obtain ⟨hmem, hP⟩ := List.mem_filter.mp hentry
    exact ⟨of_decide_eq_true hP, entry, hmem, rfl⟩
  · rintro ⟨hP, entry, hmem, rfl⟩
    exact ⟨entry, List.mem_filter.mpr ⟨hmem, decide_eq_true hP⟩, rfl⟩

/-- What is read without some peers lacks these peers. -/
theorem contained_without (hlaw : L.Lawful) {s : DeviceStore L} (hc : Consistent s)
    {P : Finset Bytes} (hP : ∀ peer ∈ P, ∃ session, (peer, session) ∈ s.sessionEntries) :
    Contained P s s.restored (s.without P).restored where
  loads := restored_peers hlaw hc
  held := by
    intro peer hpeer
    obtain ⟨session, hsession⟩ := hP peer hpeer
    obtain ⟨key, hkey⟩ := hc.decodes _ hsession
    rw [(restored_sessions hlaw hc).mpr hsession, restored_identities hlaw hc,
      if_pos (List.mem_map_of_mem hsession), hkey]
    exact ⟨rfl, rfl⟩
  peers := by
    rw [restored_peers hlaw (consistent_without hc P), restored_peers hlaw hc]
    rfl
  sessions := by
    intro peer
    refine Option.ext fun session => ?_
    rw [restored_sessions hlaw (consistent_without hc P), sessionEntries_without, List.mem_filter]
    split
    · next hpeer => exact ⟨fun h => absurd hpeer (of_decide_eq_true h.2), nofun⟩
    · next hpeer =>
      rw [restored_sessions hlaw hc]
      exact ⟨fun h => h.1, fun h => ⟨h, decide_eq_true hpeer⟩⟩
  identities := by
    intro peer
    rw [restored_identities hlaw (consistent_without hc P), restored_identities hlaw hc]
    by_cases hpeer : peer ∈ P
    · rw [if_pos hpeer, if_neg fun h => (mem_fst_without.mp h).1 hpeer]
    · rw [if_neg hpeer]
      exact if_congr (mem_fst_without.trans (and_iff_right hpeer)) rfl rfl
  records := ⟨rfl, rfl, rfl, rfl, rfl, fun _ => rfl, fun _ => rfl, fun _ => rfl, rfl, rfl,
    fun _ => rfl, rfl⟩

/-! ## Loading again -/

/-- A section is read back as what it was written from. -/
theorem entries_saveAll_perm {R : Type} (m : Dict UInt32 R) :
    (saveAll (m.entries.map fun entry => (entry.1, entry.2))).entries.Perm m.entries := by
  refine List.lookup_ext (AList.nodupKeys _) m.nodupKeys fun id record => ?_
  exact iff_of_eq (congrArg (fun found => record ∈ found) (saveAll_lookup m id))

theorem sessionEntries_restored (hlaw : L.Lawful) {s : DeviceStore L} (hc : Consistent s) :
    s.restored.sessionEntries = s.sessionEntries := by
  rw [sessionEntries, restored_peers hlaw hc, sessionEntries]
  refine List.filterMap_congr fun peer hpeer => ?_
  rw [(sameStore_restored hlaw hc).sessions peer hpeer]
  cases s.sessions.lookup (addressFor peer) with
  | none => rfl
  | some session =>
    cases hempty : (L.serializeSession session).isEmpty with
    | true => simp only [Option.filter_some, hempty, Bool.not_true, Bool.false_eq_true, if_false, if_true]
    | false => simp only [Option.filter_some, hempty, Bool.not_false, if_true]

theorem senderKeyEntries_restored (s : DeviceStore L) :
    s.restored.senderKeyEntries = s.senderKeyEntries := by
  show (s.senderKeyEntries.map fun entry => (entry.1, entry.2.1)).filterMap _ = _
  rw [List.filterMap_map]
  refine (List.filterMap_congr fun entry hentry => ?_).trans List.filterMap_some
  obtain ⟨identity, dist, record⟩ := entry
  have hlookup : s.restored.senderKeys.lookup (addressFor identity, dist) = some record :=
    (storeAll_lookup s identity dist record).mpr hentry
  obtain ⟨-, -, hne⟩ := mem_senderKeyEntries.mp hentry
  simp only [Function.comp_apply, hlookup]
  rw [if_neg (fun hempty => hne (List.isEmpty_iff.mp hempty))]

theorem storeAll_mem {entries : List (Bytes × DistributionId × L.SenderKeyRecord)}
    {key : ProtocolAddress × DistributionId} {record : L.SenderKeyRecord}
    (h : (storeAll entries).lookup key = some record) : ∃ entry ∈ entries, record = entry.2.2 := by
  have hfold : ∀ (entries : List (Bytes × DistributionId × L.SenderKeyRecord))
      (m : Dict (ProtocolAddress × DistributionId) L.SenderKeyRecord),
      (entries.foldl (fun stored entry => stored.insert (addressFor entry.1, entry.2.1) entry.2.2)
        m).lookup key = some record →
      (∃ entry ∈ entries, record = entry.2.2) ∨ m.lookup key = some record := by
    intro entries
    induction entries with
    | nil => exact fun m h => .inr h
    | cons entry entries ih =>
      intro m h
      rcases ih _ h with ⟨other, hother, heq⟩ | hm
      · exact .inl ⟨other, List.mem_cons_of_mem _ hother, heq⟩
      · rw [AList.lookup_insert_of_eq_or_ne] at hm
        split at hm
        · exact .inl ⟨entry, List.mem_cons_self, (Option.some.inj hm).symm⟩
        · exact .inr hm
  exact (hfold entries ∅ h).resolve_right nofun

/-- What is read back is consistent. -/
theorem consistent_restored (hlaw : L.Lawful) {s : DeviceStore L} (hc : Consistent s) :
    Consistent s.restored where
  session := by
    intro identity session hsession _
    exact hc.decodes _ ((restored_sessions hlaw hc).mp hsession)
  peer := by
    rw [restored_peers hlaw hc]
    exact hc.peer
  senderKey := by
    intro key record hrecord
    obtain ⟨entry, hentry, rfl⟩ := storeAll_mem hrecord
    exact (mem_senderKeyEntries.mp hentry).2.2
  indexed := by
    intro identity dist _ hlookup
    obtain ⟨record, hrecord⟩ := Option.ne_none_iff_exists'.mp hlookup
    exact List.mem_map.mpr ⟨_, (storeAll_lookup s identity dist record).mp hrecord, rfl⟩
  index := by
    intro entry hentry
    obtain ⟨written, hwritten, rfl⟩ := List.mem_map.mp hentry
    exact hc.index _ (mem_senderKeyEntries.mp hwritten).1

/-- What is read back can be written. -/
theorem writes_restored (hlaw : L.Lawful) {s : DeviceStore L} (hc : Consistent s) (hw : Writes s) :
    Writes s.restored where
  identity := hw.identity
  peer := by
    rw [restored_peers hlaw hc]
    exact hw.peer
  preKey entry hentry := hw.preKey entry ((entries_saveAll_perm s.preKeys).subset hentry)
  signedPreKey entry hentry :=
    hw.signedPreKey entry ((entries_saveAll_perm s.signedPreKeys).subset hentry)
  kyberPreKey entry hentry :=
    hw.kyberPreKey entry ((entries_saveAll_perm s.kyberPreKeys).subset hentry)
  session := by
    rw [sessionEntries_restored hlaw hc]
    exact hw.session
  certificate := hw.certificate
  senderKey := by
    rw [senderKeyEntries_restored]
    exact hw.senderKey

theorem countsFit_restored (hlaw : L.Lawful) {s : DeviceStore L} (hc : Consistent s)
    (hcounts : CountsFit s) : CountsFit s.restored where
  peers := by
    rw [restored_peers hlaw hc]
    exact hcounts.peers
  preKeys := (entries_saveAll_perm s.preKeys).length_eq ▸ hcounts.preKeys
  signedPreKeys := (entries_saveAll_perm s.signedPreKeys).length_eq ▸ hcounts.signedPreKeys
  kyberPreKeys := (entries_saveAll_perm s.kyberPreKeys).length_eq ▸ hcounts.kyberPreKeys
  senderKeys := by
    rw [senderKeyEntries_restored]
    exact hcounts.senderKeys

/-- Reading it back again changes nothing. -/
theorem sameDevice_restored (hlaw : L.Lawful) {s : DeviceStore L} (hc : Consistent s) :
    SameDevice s.restored s.restored.restored := by
  have hc' := consistent_restored hlaw hc
  have hsame := sameStore_restored hlaw hc'
  refine ⟨⟨rfl, rfl, rfl, rfl, rfl, hsame.preKeys, hsame.signedPreKeys, hsame.kyberPreKeys, rfl,
    rfl, ?_, ?_⟩, restored_peers hlaw hc', ?_, ?_⟩
  · intro key
    show (storeAll s.restored.senderKeyEntries).lookup key = _
    rw [senderKeyEntries_restored]
    rfl
  · show s.restored.senderKeyEntries.map _ = _
    rw [senderKeyEntries_restored]
    rfl
  · intro address
    rw [restored_eq hlaw hc', sessionEntries_restored hlaw hc, restored_eq hlaw hc]
  · intro address
    rw [restored_eq hlaw hc', sessionEntries_restored hlaw hc, restored_eq hlaw hc]

/-! ## Runs -/

/-- A call, or a load of the snapshot with this in its session section. -/
inductive LifeEvent (L : Libsignal) where
  | call (call : StoreCall L)
  | load (P : Finset Bytes) (written : List (Bytes × Bytes))

/-- The peers of `P` have records in the snapshot, and these are damaged. -/
def Damages (s : DeviceStore L) (P : Finset Bytes) (written : List (Bytes × Bytes)) : Prop :=
  (∀ peer ∈ P, ∃ session, (peer, session) ∈ s.sessionEntries) ∧
    List.Forall₂ (Damaged P) s.sessionEntries written

/-- One event; a snapshot that is loaded has been written. -/
def LifeEvent.Step (s : DeviceStore L) : LifeEvent L → DeviceStore L → Prop
  | call c, s' => s' = c.apply s
  | load P written, s' => CountsFit s ∧ (∃ bytes, s.serialize = .ok bytes) ∧ Damages s P written ∧
    fromSerialized L (s.snapshotWith written) = .ok s'

/-- A store that calls and loads have made of a fresh one. -/
def Lived (s : DeviceStore L) : Prop :=
  ∃ pair registrationId, Reach (fun s (event : LifeEvent L) s' => event.Step s s')
    (fun _ _ => True) (fresh (L := L) pair registrationId) s

theorem Reachable.lived {s : DeviceStore L} (h : Reachable s) : Lived s := by
  obtain ⟨pair, registrationId, hreach⟩ := h
  refine ⟨pair, registrationId, ?_⟩
  exact Relation.ReflTransGen.mono (fun s s' ⟨call, hok, hstep⟩ => ⟨.call call, hok, hstep⟩) _ _ hreach

theorem length_of_damaged {s : DeviceStore L} (hw : Writes s) {P : Finset Bytes}
    {written : List (Bytes × Bytes)}
    (hdamage : List.Forall₂ (Damaged P) s.sessionEntries written) :
    ∀ entry ∈ written, entry.1.length < 2 ^ 16 ∧ entry.2.length < 2 ^ 32 := by
  have hall : ∀ entry ∈ s.sessionEntries, entry.1.length < 2 ^ 16 ∧
      (L.serializeSession entry.2).length < 2 ^ 32 := fun entry hentry =>
    ⟨hw.peer _ (mem_sessionEntries.mp hentry).1, hw.session entry hentry⟩
  generalize s.sessionEntries = entries at hdamage hall
  induction hdamage with
  | nil => exact nofun
  | cons hentry _ ih =>
    obtain ⟨⟨hpeer, hlen⟩, hrest⟩ := List.forall_mem_cons.mp hall
    refine List.forall_mem_cons.mpr ⟨⟨by rw [hentry.1]; exact hpeer, ?_⟩, ih hrest⟩
    obtain ⟨-, hbytes⟩ := hentry
    split at hbytes
    · exact hbytes.1
    · rw [hbytes]
      exact hlen

/-- A damaged snapshot loads, as the snapshot without the damaged peers. -/
theorem fromSerialized_damaged (hlaw : L.Lawful) {s : DeviceStore L} (hc : Consistent s)
    (hcounts : CountsFit s) (hw : Writes s) {P : Finset Bytes} {written : List (Bytes × Bytes)}
    (hdamages : Damages s P written) :
    fromSerialized L (s.snapshotWith written) = .ok (s.without P).restored := by
  obtain ⟨hP, hdamage⟩ := hdamages
  rw [← restoredWith_damaged hlaw hc hP hdamage]
  refine fromSerialized_snapshotWith hlaw hcounts hw ?_ (length_of_damaged hw hdamage)
  rw [← hdamage.length_eq]
  exact Nat.lt_of_le_of_lt (List.length_filterMap_le _ _) hcounts.peers

theorem Lived.consistent (hlaw : L.Lawful) {s : DeviceStore L} (h : Lived s) : Consistent s := by
  obtain ⟨pair, registrationId, hreach⟩ := h
  refine hreach.invariant Consistent ?_ (consistent_fresh pair registrationId)
  rintro s event s' hc - hstep
  cases event with
  | call call =>
    cases hstep
    exact apply_consistent hlaw hc call
  | load P written =>
    obtain ⟨hcounts, ⟨bytes, hwrite⟩, hdamages, hload⟩ := hstep
    have hw := (writes_of_serialize hwrite).1
    cases hload.symm.trans (fromSerialized_damaged hlaw hc hcounts hw hdamages)
    exact consistent_restored hlaw (consistent_without hc P)

theorem writes_without {s : DeviceStore L} (hw : Writes s) (P : Finset Bytes) :
    Writes (s.without P) :=
  { hw with
    peer := fun peer hpeer => hw.peer peer (List.mem_of_mem_filter hpeer)
    session := by
      rw [sessionEntries_without]
      exact fun entry hentry => hw.session entry (List.mem_of_mem_filter hentry) }

theorem countsFit_without {s : DeviceStore L} (hcounts : CountsFit s) (P : Finset Bytes) :
    CountsFit (s.without P) :=
  { hcounts with peers := Nat.lt_of_le_of_lt (List.length_filter_le _ _) hcounts.peers }

/-- Damaged session records cost the store their own peers and nothing else, and what is left is
written and loaded again as it is. -/
theorem damage_contained (hlaw : L.Lawful) {s : DeviceStore L} (hs : Lived s)
    (hcounts : CountsFit s) {bytes : Bytes} (hwrite : s.serialize = .ok bytes) {P : Finset Bytes}
    {written : List (Bytes × Bytes)} (hdamages : Damages s P written) :
    bytes = s.snapshotWith s.writtenSessions ∧
    ∃ loaded damaged, fromSerialized L bytes = .ok loaded ∧
      fromSerialized L (s.snapshotWith written) = .ok damaged ∧ Contained P s loaded damaged ∧
      ∃ bytes' again, damaged.serialize = .ok bytes' ∧ fromSerialized L bytes' = .ok again ∧
        SameDevice damaged again := by
  have hc := hs.consistent hlaw
  have hc' := consistent_without hc P
  obtain ⟨hw, rfl⟩ := writes_of_serialize hwrite
  have hw' := writes_without hw P
  have hcounts' := countsFit_without hcounts P
  refine ⟨(snapshotWith_writtenSessions s).symm, s.restored, (s.without P).restored,
    fromSerialized_of_writes hlaw hcounts hw,
    fromSerialized_damaged hlaw hc hcounts hw hdamages, contained_without hlaw hc hdamages.1,
    _, _, serialize_of_writes (writes_restored hlaw hc' hw'), ?_, sameDevice_restored hlaw hc'⟩
  exact fromSerialized_of_writes hlaw (countsFit_restored hlaw hc' hcounts')
    (writes_restored hlaw hc' hw')

/-! ## A damaged session, and a crowd -/

/-- A record with content is written after a 0. -/
def frameSession : Bytes → Bytes
  | [] => []
  | b :: rest => 0 :: b :: rest

/-- Only such a record parses. -/
def unframeSession : Bytes → Result Bytes
  | [] => .ok []
  | 0 :: b :: rest => .ok (b :: rest)
  | _ => .error (.other "session record does not parse")

/-- The sample, with framed sessions. -/
def framedLibsignal : Libsignal :=
  { sampleLibsignal with
    serializeSession := frameSession
    deserializeSession := unframeSession }

theorem framedLibsignal_lawful : framedLibsignal.Lawful where
  identityKeyPair _ := rfl
  preKey _ := rfl
  signedPreKey _ := rfl
  kyberPreKey _ := rfl
  session record := by
    show unframeSession (frameSession record) = .ok record
    cases (record : Bytes) with
    | nil => rfl
    | cons b rest => rfl
  certificate _ := rfl
  senderKey _ := rfl
  identityKey _ := rfl
  freshSession := rfl
  encryptsInSession := by
    intro plaintext remote loc record pinned now rng result h
    have hne : (record : Bytes) ≠ [] := List.ne_nil_of_length_pos (sampleEncrypt_ok h).1
    show frameSession record ≠ []
    cases hrecord : (record : Bytes) with
    | nil => exact absurd hrecord hne
    | cons b rest => exact List.cons_ne_nil _ _
  certificateBytes _ := List.cons_ne_nil _ _
  createdBytes := by
    rintro address dist record rng result ⟨⟩
    exact List.cons_ne_nil _ _
  processedBytes := by
    rintro address message record result ⟨⟩
    exact List.cons_ne_nil _ _
  encryptedBytes := by
    rintro record plaintext rng result ⟨⟩
    exact List.cons_ne_nil _ _
  decryptedBytes := by
    rintro record ciphertext result ⟨⟩
    exact List.cons_ne_nil _ _

/-- Another peer. -/
def otherPeer : Bytes := [8]

/-- The calls that pair with both. -/
def pairingCalls : List (StoreCall framedLibsignal) :=
  [.initiateSession samplePeer sampleBundle 0 (),
    .initiateSession otherPeer (sampleBundle.map fun b => if b = 9 then 8 else b) 0 (),
    .publishBundle 0 ()]

/-- A store with a session for each. -/
def pairedStore : DeviceStore framedLibsignal :=
  pairingCalls.foldl StoreCall.apply (fresh (L := framedLibsignal) [5] 1)

theorem lived_pairedStore : Lived pairedStore :=
  (reachable_foldl (L := framedLibsignal) [5] 1 pairingCalls).lived

theorem sessionEntries_pairedStore :
    pairedStore.sessionEntries = [(samplePeer, [0]), (otherPeer, [0])] := by rfl

theorem countsFit_pairedStore : CountsFit pairedStore where
  peers := by decide +kernel
  preKeys := by decide +kernel
  signedPreKeys := by decide +kernel
  kyberPreKeys := by decide +kernel
  senderKeys := by decide +kernel

theorem writes_pairedStore : Writes pairedStore where
  identity := by decide +kernel
  peer := by decide +kernel
  preKey := by decide +kernel
  signedPreKey := by decide +kernel
  kyberPreKey := by decide +kernel
  session := by decide +kernel
  certificate := by decide +kernel
  senderKey := by decide +kernel

/-- One byte of the first record has been lost. -/
def damagedSection : List (Bytes × Bytes) := [(samplePeer, [0]), (otherPeer, [0, 0])]

theorem damages_pairedStore : Damages pairedStore {samplePeer} damagedSection := by
  rw [Damages, sessionEntries_pairedStore]
  refine ⟨?_, .cons ⟨rfl, ?_⟩ (.cons ⟨rfl, ?_⟩ .nil)⟩
  · intro peer hpeer
    rw [Finset.mem_singleton.mp hpeer]
    exact ⟨_, List.mem_cons_self⟩
  · rw [if_pos (by decide)]
    exact ⟨by decide, _, rfl⟩
  · rw [if_neg (by decide)]
    rfl

theorem damage_contained_paired :
    pairedStore.snapshotBytes = pairedStore.snapshotWith pairedStore.writtenSessions ∧
    ∃ loaded damaged, fromSerialized framedLibsignal pairedStore.snapshotBytes = .ok loaded ∧
      fromSerialized framedLibsignal (pairedStore.snapshotWith damagedSection) = .ok damaged ∧
      Contained {samplePeer} pairedStore loaded damaged ∧
      ∃ bytes' again, damaged.serialize = .ok bytes' ∧
        fromSerialized framedLibsignal bytes' = .ok again ∧ SameDevice damaged again :=
  damage_contained framedLibsignal_lawful lived_pairedStore countsFit_pairedStore
    (serialize_of_writes writes_pairedStore) damages_pairedStore

/-- Of `2^32` peers none is loaded, damaged or not. -/
theorem crowd_not_contained :
    Lived (crowded (2 ^ 32)) ∧
    Damages (crowded (2 ^ 32)) ∅ (crowded (2 ^ 32)).writtenSessions ∧
    ∃ bytes, (crowded (2 ^ 32)).serialize = .ok bytes ∧
      ¬ ∃ loaded damaged, fromSerialized sampleLibsignal bytes = .ok loaded ∧
        fromSerialized sampleLibsignal
          ((crowded (2 ^ 32)).snapshotWith (crowded (2 ^ 32)).writtenSessions) = .ok damaged ∧
        Contained ∅ (crowded (2 ^ 32)) loaded damaged := by
  refine ⟨(reachable_crowded (Nat.le_refl _)).lived, ⟨nofun, damaged_empty _⟩, _,
    serialize_crowded _, ?_⟩
  rintro ⟨loaded, damaged, hload, -, hcontained⟩
  have hmem : beBytes 4 0 ∈ loaded.peers := by
    rw [hcontained.loads]
    exact mem_crowded (by omega)
  rw [crowded_lost hload] at hmem
  exact List.not_mem_nil hmem

end DeviceStore

end Pizzini.Crypto
