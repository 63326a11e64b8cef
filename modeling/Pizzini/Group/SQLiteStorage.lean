import Mathlib.Data.Finset.Sort
import Mathlib.Data.List.Lex
import Pizzini.Group.BootstrapCheck
import Pizzini.Group.DeliveryOrder
import Pizzini.Storage.CString

/-!
# Groups on disk (`SQLiteStorage.swift`, `Schema.swift`)

A group is spread over four tables: its own row, one row per member (with the
member's distribution id), one per parked op and one per remembered op digest
(Schema.swift:109–167). `loadGroups` reads all four; `upsertGroup` writes the
first two. Nothing in the app writes the other two, so a relaunch gives back a
group that remembers no op digest and has no parked op.

`reloaded` says what does come back; of a name, only what precedes its first NUL. `relaunch_forgets_digests` says that the
digests never do: every group the app holds remembers at least the op it stands
at, and every reloaded one remembers none.

Dates are milliseconds in the model already. Of the message table only what
`ChatGroup.log` keeps is modelled.
-/

namespace Pizzini.Group

open Wire Storage

/-! ## Tables (Schema.swift:109–167) -/

/-- A row of `groups`. -/
structure GroupRow where
  id : Bytes
  displayName : String
  createdAt : UInt64
  currentEpoch : Int64
  lastOpDigest : Bytes
  myCurrentDistributionId : Option Bytes
  sentSinceRotation : Nat
  lastRotatedAt : UInt64
  mySkdmRecipients : Bytes
  pendingInvitation : Bool

/-- A row of `group_members`. -/
structure MemberRow where
  groupId : Bytes
  peerId : Bytes
  displayName : String
  role : String
  joinedAtEpoch : Int64
  status : String
  addedBy : Option Bytes
  currentDistributionId : Option Bytes

/-- A row of `group_pending_ops`. -/
structure PendingOpRow where
  groupId : Bytes
  receivedAt : UInt64
  opBytes : Bytes

/-- A row of `group_op_digests`. -/
structure OpDigestRow where
  groupId : Bytes
  epoch : Int64
  digest : Bytes

/-- The tables that hold groups. -/
structure GroupTables where
  groups : List GroupRow
  groupMembers : List MemberRow
  groupPendingOps : List PendingOpRow
  groupOpDigests : List OpDigestRow
  groupMessages : List (Bytes × PersistedMessage)

/-- A fresh database. -/
def GroupTables.empty : GroupTables := ⟨[], [], [], [], []⟩

/-! ## Columns -/

/-- `GroupRole.rawValue`. -/
def GroupRole.rawValue : GroupRole → String
  | .admin => "admin"
  | .member => "member"

/-- `GroupRole(rawValue:) ?? .member`. -/
def GroupRole.ofRawValue (s : String) : GroupRole := if s = "admin" then .admin else .member

/-- `MemberStatus.rawValue`. -/
def MemberStatus.rawValue : MemberStatus → String
  | .active => "active"
  | .pendingSKDM => "pendingSKDM"
  | .removed => "removed"

/-- `MemberStatus(rawValue:) ?? .active`. -/
def MemberStatus.ofRawValue (s : String) : MemberStatus :=
  if s = "pendingSKDM" then .pendingSKDM else if s = "removed" then .removed else .active

@[simp] theorem GroupRole.ofRawValue_rawValue (r : GroupRole) : ofRawValue r.rawValue = r := by
  cases r <;> rfl

@[simp] theorem MemberStatus.ofRawValue_rawValue (s : MemberStatus) :
    ofRawValue s.rawValue = s := by
  cases s <;> rfl

/-- `Data.asUUID()`. -/
def asUUID (bs : Bytes) : Option UUID := if h : bs.length = 16 then some ⟨bs, h⟩ else none

@[simp] theorem asUUID_val (u : UUID) : asUUID u.1 = some u := by
  rw [asUUID, dif_pos u.2]

/-- The order `pack33ByteSet` sorts by: bytewise, the shorter string first. -/
def BytesLe (a b : Bytes) : Prop := a.map UInt8.toNat ≤ b.map UInt8.toNat

instance : DecidableRel BytesLe := fun a b =>
  inferInstanceAs (Decidable (a.map UInt8.toNat ≤ b.map UInt8.toNat))

instance : IsTrans Bytes BytesLe := ⟨fun _ _ _ h h' => le_trans (α := List Nat) h h'⟩

instance : Std.Total BytesLe := ⟨fun _ _ => le_total (α := List Nat) _ _⟩

instance : Std.Antisymm BytesLe :=
  ⟨fun _ _ h h' => List.map_injective_iff.mpr (fun _ _ => UInt8.toNat_inj.mp)
    (le_antisymm (α := List Nat) h h')⟩

/-- `pack33ByteSet`. -/
def pack33ByteSet (set : Finset Bytes) : Bytes := (set.sort BytesLe).flatten

/-- The loop of `unpack33ByteSet`; the guard has made the length a multiple of 33. -/
def unpackBlocks : Nat → Bytes → List Bytes
  | 0, _ => []
  | n + 1, blob => blob.take 33 :: unpackBlocks n (blob.drop 33)

/-- `unpack33ByteSet`. -/
def unpack33ByteSet (blob : Bytes) : Finset Bytes :=
  if blob.length % 33 ≠ 0 then ∅ else (unpackBlocks (blob.length / 33) blob).toFinset

theorem unpackBlocks_flatten (blocks : List Bytes) (h : ∀ b ∈ blocks, b.length = 33) :
    unpackBlocks blocks.length blocks.flatten = blocks := by
  induction blocks with
  | nil => rfl
  | cons b blocks ih =>
    have hb : b.length = 33 := h b List.mem_cons_self
    rw [List.length_cons, List.flatten_cons, unpackBlocks, List.take_left' hb, List.drop_left' hb,
      ih fun c hc => h c (List.mem_cons_of_mem _ hc)]

theorem length_flatten_blocks (blocks : List Bytes) (h : ∀ b ∈ blocks, b.length = 33) :
    blocks.flatten.length = blocks.length * 33 := by
  induction blocks with
  | nil => rfl
  | cons b blocks ih =>
    have hb : b.length = 33 := h b List.mem_cons_self
    rw [List.flatten_cons, List.length_append, List.length_cons, hb,
      ih fun c hc => h c (List.mem_cons_of_mem _ hc)]
    omega

/-- A set of 33-byte ids survives packing. -/
theorem unpack33ByteSet_pack33ByteSet {set : Finset Bytes} (h : ∀ b ∈ set, b.length = 33) :
    unpack33ByteSet (pack33ByteSet set) = set := by
  have hblocks : ∀ b ∈ set.sort BytesLe, b.length = 33 := fun b hb =>
    h b ((Finset.mem_sort BytesLe).mp hb)
  have hlen : (pack33ByteSet set).length = (set.sort BytesLe).length * 33 :=
    length_flatten_blocks _ hblocks
  rw [unpack33ByteSet, if_neg (by rw [hlen]; omega), hlen, Nat.mul_div_cancel _ (by decide),
    pack33ByteSet, unpackBlocks_flatten _ hblocks, Finset.sort_toFinset]

/-! ## Writing (SQLiteStorage.swift:867–905, 949–972) -/

/-- The row `upsertGroupRow` binds. -/
def groupRow (g : ChatGroup) : GroupRow where
  id := g.id
  displayName := cString g.displayName
  createdAt := g.createdAt
  currentEpoch := g.currentEpoch.toInt64
  lastOpDigest := g.lastOpDigest
  myCurrentDistributionId := g.myCurrentDistributionId.map (·.1)
  sentSinceRotation := g.sentSinceRotation.toNat
  lastRotatedAt := g.lastRotatedAt
  mySkdmRecipients := pack33ByteSet g.mySkdmRecipients
  pendingInvitation := g.pendingInvitation

/-- The row `replaceGroupMembers` binds for one member. -/
def memberRow (g : ChatGroup) (m : GroupMember) : MemberRow where
  groupId := g.id
  peerId := m.peerId
  displayName := cString m.displayName
  role := m.role.rawValue
  joinedAtEpoch := m.joinedAtEpoch.toInt64
  status := m.status.rawValue
  addedBy := m.addedBy
  currentDistributionId := (g.memberDistributionIds.lookup m.peerId).map (·.1)

/-- `INSERT INTO groups … ON CONFLICT(id) DO UPDATE`: an existing row keeps its
`created_at`. -/
def upsertGroupRow (g : ChatGroup) (db : GroupTables) : GroupTables :=
  { db with
    groups :=
      if db.groups.any fun r => r.id = g.id then
        db.groups.map fun r => if r.id = g.id then { groupRow g with createdAt := r.createdAt } else r
      else db.groups ++ [groupRow g] }

/-- `replaceGroupMembers`: delete, then insert one by one. A second row for the
same peer violates the primary key, and the statement throws. -/
def replaceGroupMembers (g : ChatGroup) (db : GroupTables) : Option GroupTables :=
  if (g.members.map GroupMember.peerId).Nodup then
    some { db with
      groupMembers := db.groupMembers.filter (fun r => r.groupId ≠ g.id) ++
        g.members.map (memberRow g) }
  else none

/-- `upsertGroup`: both writes in one transaction. -/
def upsertGroup (g : ChatGroup) (db : GroupTables) : Option GroupTables :=
  replaceGroupMembers g (upsertGroupRow g db)

/-- `Storage.upsertGroup`: an error is logged and nothing is written. -/
def storeGroup (g : ChatGroup) (db : GroupTables) : GroupTables := (upsertGroup g db).getD db

/-- `deleteGroup`, with the cascades. -/
def deleteGroup (id : Bytes) (db : GroupTables) : GroupTables where
  groups := db.groups.filter fun r => r.id ≠ id
  groupMembers := db.groupMembers.filter fun r => r.groupId ≠ id
  groupPendingOps := db.groupPendingOps.filter fun r => r.groupId ≠ id
  groupOpDigests := db.groupOpDigests.filter fun r => r.groupId ≠ id
  groupMessages := db.groupMessages.filter fun r => r.1 ≠ id

/-- `appendGroupMessage`. A message of a group without a row violates the foreign key; the
error is logged. -/
def appendGroupMessage (id : Bytes) (m : PersistedMessage) (db : GroupTables) : GroupTables :=
  if db.groups.any fun r => r.id = id then
    { db with groupMessages := db.groupMessages ++ [(id, { m with text := cString m.text })] }
  else db

/-! ## Reading (SQLiteStorage.swift:818–866, 921–1005) -/

/-- The member a row stands for. -/
def MemberRow.member (r : MemberRow) : GroupMember where
  peerId := r.peerId
  displayName := r.displayName
  role := .ofRawValue r.role
  joinedAtEpoch := r.joinedAtEpoch.toUInt64
  status := .ofRawValue r.status
  addedBy := r.addedBy

/-- `loadGroupMembers`: `ORDER BY joined_at_epoch ASC, peer_id ASC`. -/
def loadGroupMembers (db : GroupTables) (groupId : Bytes) : List MemberRow :=
  (db.groupMembers.filter fun r => r.groupId = groupId).insertionSort fun a b =>
    a.joinedAtEpoch < b.joinedAtEpoch ∨ a.joinedAtEpoch = b.joinedAtEpoch ∧ BytesLe a.peerId b.peerId

/-- `loadGroupPendingOps`: `ORDER BY received_at ASC`. -/
def loadGroupPendingOps (db : GroupTables) (groupId : Bytes) : List Bytes :=
  ((db.groupPendingOps.filter fun r => r.groupId = groupId).insertionSort
    fun a b => a.receivedAt ≤ b.receivedAt).map PendingOpRow.opBytes

/-- `loadGroupOpDigests`. -/
def loadGroupOpDigests (db : GroupTables) (groupId : Bytes) : Dict UInt64 Bytes :=
  (db.groupOpDigests.filter fun r => r.groupId = groupId).foldl
    (fun out r => out.insert r.epoch.toUInt64 r.digest) ∅

/-- One member's entry, when it has a distribution id. -/
def addDist (out : Dict Bytes UUID) (r : MemberRow) : Dict Bytes UUID :=
  match r.currentDistributionId.bind asUUID with
  | some dist => out.insert r.peerId dist
  | none => out

/-- `Dictionary(uniqueKeysWithValues:)` over the members with a distribution id. -/
def memberDistMap (rows : List MemberRow) : Dict Bytes UUID := rows.foldl addDist ∅

/-- The group one row of `groups` stands for. -/
def loadGroup (db : GroupTables) (r : GroupRow) : ChatGroup :=
  let members := loadGroupMembers db r.id
  { id := r.id
    displayName := r.displayName
    members := members.map MemberRow.member
    createdAt := r.createdAt
    currentEpoch := r.currentEpoch.toUInt64
    lastOpDigest := r.lastOpDigest
    pendingOps := loadGroupPendingOps db r.id
    log := (db.groupMessages.filter fun m => m.1 = r.id).map Prod.snd
    myCurrentDistributionId := r.myCurrentDistributionId.bind asUUID
    memberDistributionIds := memberDistMap members
    previousMemberDistributionIds := ∅
    sentSinceRotation := .ofNat r.sentSinceRotation
    lastRotatedAt := r.lastRotatedAt
    mySkdmRecipients := unpack33ByteSet r.mySkdmRecipients
    recentOpDigests := loadGroupOpDigests db r.id
    pendingInvitation := r.pendingInvitation }

/-- `loadGroups`: `ORDER BY created_at ASC`. -/
def loadGroups (db : GroupTables) : List ChatGroup :=
  (db.groups.insertionSort fun a b => a.createdAt ≤ b.createdAt).map (loadGroup db)

/-! ## What comes back -/

/-- What the database keeps of a member. -/
def GroupMember.stored (m : GroupMember) : GroupMember :=
  { m with displayName := cString m.displayName }

@[simp] theorem memberRow_member (g : ChatGroup) (m : GroupMember) :
    (memberRow g m).member = m.stored := by
  simp [MemberRow.member, memberRow, GroupMember.stored]

/-- After a successful `upsertGroup` the members table has exactly the group's rows. -/
theorem loadGroupMembers_upsertGroup {g : ChatGroup} {db db' : GroupTables}
    (h : upsertGroup g db = some db') :
    (loadGroupMembers db' g.id).Perm (g.members.map (memberRow g)) := by
  rw [upsertGroup, replaceGroupMembers] at h
  split at h
  · cases h
    refine (List.perm_insertionSort _ _).trans ?_
    rw [List.filter_append]
    have hold : ((upsertGroupRow g db).groupMembers.filter (fun r => r.groupId ≠ g.id)).filter
        (fun r => r.groupId = g.id) = [] := by
      rw [List.filter_filter, List.filter_eq_nil_iff]
      simp
    have hnew : (g.members.map (memberRow g)).filter (fun r => r.groupId = g.id) =
        g.members.map (memberRow g) := by
      rw [List.filter_eq_self]
      intro r hr
      obtain ⟨m, _, rfl⟩ := List.mem_map.mp hr
      simp [memberRow]
    rw [hold, hnew, List.nil_append]
  · cases h

theorem lookup_addDist_of_ne {out : Dict Bytes UUID} {r : MemberRow} {peer : Bytes}
    (h : peer ≠ r.peerId) : (addDist out r).lookup peer = out.lookup peer := by
  rw [addDist]
  split
  · exact AList.lookup_insert_ne h
  · rfl

theorem lookup_addDist_self {out : Dict Bytes UUID} {r : MemberRow}
    (h : out.lookup r.peerId = none) :
    (addDist out r).lookup r.peerId = r.currentDistributionId.bind asUUID := by
  rw [addDist]
  split
  · next dist hdist => rw [hdist, AList.lookup_insert]
  · next hnone => rw [hnone, h]

theorem lookup_foldl_addDist_of_notMem {peer : Bytes} (rows : List MemberRow) :
    ∀ {out : Dict Bytes UUID}, peer ∉ rows.map MemberRow.peerId →
      (rows.foldl addDist out).lookup peer = out.lookup peer := by
  induction rows with
  | nil => exact fun _ => rfl
  | cons r rows ih =>
    intro out h
    rw [List.map_cons, List.mem_cons, not_or] at h
    rw [List.foldl_cons, ih h.2, lookup_addDist_of_ne h.1]

/-- The distribution ids of the listed rows, each peer listed once. -/
theorem lookup_memberDistMap {rows : List MemberRow} (hnodup : (rows.map MemberRow.peerId).Nodup)
    {r : MemberRow} (hr : r ∈ rows) :
    (memberDistMap rows).lookup r.peerId = r.currentDistributionId.bind asUUID := by
  -- the row is entered once, into a dictionary that does not have its peer
  obtain ⟨before, after, rfl⟩ := List.append_of_mem hr
  rw [List.map_append, List.map_cons, List.nodup_middle, List.nodup_cons, List.mem_append,
    not_or] at hnodup
  rw [memberDistMap, List.foldl_append, List.foldl_cons,
    lookup_foldl_addDist_of_notMem after hnodup.1.2]
  refine lookup_addDist_self ?_
  rw [lookup_foldl_addDist_of_notMem before hnodup.1.1]
  rfl

/-- The group's own row after a successful `upsertGroup`. -/
theorem groupRow_mem_upsertGroup {g : ChatGroup} {db db' : GroupTables}
    (h : upsertGroup g db = some db') :
    ∃ createdAt, { groupRow g with createdAt } ∈ db'.groups := by
  rw [upsertGroup, replaceGroupMembers] at h
  split at h
  · cases h
    simp only [upsertGroupRow]
    split
    · next hany =>
      obtain ⟨r, hr, hid⟩ := List.any_eq_true.mp hany
      refine ⟨r.createdAt, List.mem_map.mpr ⟨r, hr, ?_⟩⟩
      rw [if_pos (by simpa using hid)]
    · exact ⟨g.createdAt, List.mem_append_right _ List.mem_cons_self⟩
  · cases h

/-- The rows of a stored group come back as they were, up to the names. -/
theorem loadedMembers_perm {g : ChatGroup} {db db' : GroupTables}
    (h : upsertGroup g db = some db') :
    ((loadGroupMembers db' g.id).map MemberRow.member).Perm (g.members.map GroupMember.stored) := by
  have hmap := (loadGroupMembers_upsertGroup h).map MemberRow.member
  rw [List.map_map] at hmap
  have hstored : MemberRow.member ∘ memberRow g = GroupMember.stored :=
    funext fun m => memberRow_member g m
  rwa [hstored] at hmap

/-- A distribution id comes back from its column. -/
theorem bind_asUUID (u : Option UUID) : (u.map (·.1)).bind asUUID = u := by
  cases u with
  | none => rfl
  | some u => exact asUUID_val u

/-- What `loadGroups` gives back of a stored group: everything but the parked ops
and the digests, which it takes from tables that were not written. -/
theorem reloaded {g : ChatGroup} {db db' : GroupTables} (h : upsertGroup g db = some db')
    (hrecipients : ∀ b ∈ g.mySkdmRecipients, b.length = 33) :
    ∃ g' ∈ loadGroups db', g'.id = g.id ∧ g'.members.Perm (g.members.map GroupMember.stored) ∧
      g'.displayName = cString g.displayName ∧ g'.currentEpoch = g.currentEpoch ∧
      g'.lastOpDigest = g.lastOpDigest ∧
      g'.myCurrentDistributionId = g.myCurrentDistributionId ∧
      (∀ m ∈ g.members, g'.memberDistributionIds.lookup m.peerId =
        g.memberDistributionIds.lookup m.peerId) ∧
      g'.mySkdmRecipients = g.mySkdmRecipients ∧ g'.pendingInvitation = g.pendingInvitation ∧
      g'.sentSinceRotation = g.sentSinceRotation ∧ g'.lastRotatedAt = g.lastRotatedAt ∧
      g'.pendingOps = loadGroupPendingOps db' g.id ∧
      g'.recentOpDigests = loadGroupOpDigests db' g.id := by
  obtain ⟨createdAt, hrow⟩ := groupRow_mem_upsertGroup h
  have hmembers := loadGroupMembers_upsertGroup h
  have hnodup : (g.members.map GroupMember.peerId).Nodup := by
    rw [upsertGroup, replaceGroupMembers] at h
    split at h
    · assumption
    · cases h
  refine ⟨loadGroup db' { groupRow g with createdAt }, ?_, rfl, ?_, rfl, ?_, rfl, ?_, ?_, ?_, rfl,
    ?_, rfl, rfl, rfl⟩
  · refine List.mem_map.mpr ⟨_, ?_, rfl⟩
    exact (List.perm_insertionSort _ _).mem_iff.mpr hrow
  · exact loadedMembers_perm h
  · exact UInt64.toUInt64_toInt64 _
  · exact bind_asUUID g.myCurrentDistributionId
  · intro m hm
    have hrows : ((loadGroupMembers db' g.id).map MemberRow.peerId).Nodup := by
      refine (hmembers.map MemberRow.peerId).nodup_iff.mpr ?_
      rw [List.map_map]
      exact hnodup
    have hmem : memberRow g m ∈ loadGroupMembers db' g.id :=
      hmembers.mem_iff.mpr (List.mem_map_of_mem hm)
    refine (lookup_memberDistMap hrows hmem).trans ?_
    exact bind_asUUID (g.memberDistributionIds.lookup m.peerId)
  · exact unpack33ByteSet_pack33ByteSet hrecipients
  · show UInt32.ofNat g.sentSinceRotation.toNat = _
    exact UInt32.ofNat_toNat

/-! ## The groups an app holds -/

/-- `g'` is `g` but for what `apply` does not own: display names and statuses of
rows, sender keys, the log, the invitation flag. `handleGroupKeyDistribution`,
`rotateMyGroupChain`, `acceptGroupInvitation`, `sendGroupMessage` and
`appendGroupSystem` make such changes. -/
structure LocalUpdate (g g' : ChatGroup) : Prop where
  id : g'.id = g.id
  currentEpoch : g'.currentEpoch = g.currentEpoch
  lastOpDigest : g'.lastOpDigest = g.lastOpDigest
  pendingOps : g'.pendingOps = g.pendingOps
  recentOpDigests : g'.recentOpDigests = g.recentOpDigests

/-- A group the app can hold: created or bootstrapped, then changed by ops and
locally. -/
inductive Held (env : GroupEnv) : ChatGroup → Prop where
  | create {op : GroupOp} {bytes : Bytes} {g : ChatGroup}
      (h : ChatGroup.create env op bytes = some g) : Held env g
  | bootstrap {b : GroupBootstrap} {localIdentityPub : Bytes} {g : ChatGroup}
      (h : b.intoChatGroup localIdentityPub = some g) : Held env g
  | apply {op : GroupOp} {sx sx' : ApplySideEffects} {outcome : ApplyOutcome} {g g' : ChatGroup}
      (hg : Held env g) (h : ChatGroup.apply env op g sx = some (outcome, g', sx')) : Held env g'
  | update {g g' : ChatGroup} (hg : Held env g) (h : LocalUpdate g g') : Held env g'

/-- The group remembers the op it stands at. -/
def RemembersHead (g : ChatGroup) : Prop := (g.digest g.currentEpoch).isSome

variable {env : GroupEnv} {g g' : ChatGroup}

theorem ChatGroup.Lands.remembersHead {op : GroupOp} {d : Bytes}
    (h : ChatGroup.Lands env op d g g') : RemembersHead g' := by
  rw [RemembersHead, h.frame.2.1, Lands.digest_self h]
  rfl

/-- Whatever `apply` does, the group remembers its head. -/
theorem RemembersHead.apply {op : GroupOp} {sx sx' : ApplySideEffects} {outcome : ApplyOutcome}
    (hg : RemembersHead g) (h : ChatGroup.apply env op g sx = some (outcome, g', sx')) :
    RemembersHead g' :=
  ChatGroup.apply_invariant RemembersHead h (fun _ _ hk => hk)
    (fun _ hlands _ => hlands.remembersHead) hg

theorem remembersHead_create {op : GroupOp} {bytes : Bytes}
    (h : ChatGroup.create env op bytes = some g) : RemembersHead g := by
  rw [ChatGroup.create] at h
  split at h
  · split at h
    · cases h
    split at h
    · cases h
    split at h
    · cases h
    split at h
    · cases h
    split at h
    · cases h
    split at h
    · cases h
    cases h
    show ((_ : Dict UInt64 Bytes).lookup 0).isSome
    rw [AList.lookup_insert]
    rfl
  · cases h

/-- Every group the app can hold remembers its head. -/
theorem Held.remembersHead (h : Held env g) : RemembersHead g := by
  induction h with
  | create h => exact remembersHead_create h
  | bootstrap h =>
    rw [RemembersHead, (intoChatGroup_fields h).2.2]
    rfl
  | apply _ h ih => exact ih.apply h
  | update _ h ih =>
    rw [RemembersHead, ChatGroup.digest, h.recentOpDigests, h.currentEpoch]
    exact ih

/-! ## The databases an app writes -/

/-- A database the app can have written. -/
inductive Written : GroupTables → Prop where
  | empty : Written .empty
  | storeGroup {db : GroupTables} (h : Written db) (g : ChatGroup) : Written (storeGroup g db)
  | deleteGroup {db : GroupTables} (h : Written db) (id : Bytes) : Written (deleteGroup id db)
  | appendGroupMessage {db : GroupTables} (h : Written db) (id : Bytes) (m : PersistedMessage) :
      Written (appendGroupMessage id m db)

/-- `upsertGroup` leaves the other tables alone, also when it throws. -/
theorem storeGroup_others (g : ChatGroup) (db : GroupTables) :
    (storeGroup g db).groupPendingOps = db.groupPendingOps ∧
      (storeGroup g db).groupOpDigests = db.groupOpDigests := by
  simp only [storeGroup, upsertGroup, replaceGroupMembers]
  split
  · exact ⟨rfl, rfl⟩
  · exact ⟨rfl, rfl⟩

/-- No write of the app puts a row into the two op tables. -/
theorem Written.op_tables_empty {db : GroupTables} (h : Written db) :
    db.groupPendingOps = [] ∧ db.groupOpDigests = [] := by
  induction h with
  | empty => exact ⟨rfl, rfl⟩
  | @storeGroup db _ g ih =>
    obtain ⟨hpending, hdigests⟩ := storeGroup_others g db
    exact ⟨hpending.trans ih.1, hdigests.trans ih.2⟩
  | @deleteGroup db _ id ih =>
    constructor
    · show db.groupPendingOps.filter _ = []
      rw [ih.1]
      rfl
    · show db.groupOpDigests.filter _ = []
      rw [ih.2]
      rfl
  | @appendGroupMessage db _ id m ih =>
    rw [Group.appendGroupMessage]
    split
    · exact ih
    · exact ih

/-- A reloaded group has no parked op and no digest. -/
theorem Written.loaded {db : GroupTables} (h : Written db) (hg : g ∈ loadGroups db) :
    g.pendingOps = [] ∧ g.recentOpDigests = ∅ := by
  obtain ⟨r, _, rfl⟩ := List.mem_map.mp hg
  obtain ⟨hpending, hdigests⟩ := h.op_tables_empty
  constructor
  · show loadGroupPendingOps db r.id = []
    rw [loadGroupPendingOps, hpending]
    rfl
  · show loadGroupOpDigests db r.id = ∅
    rw [loadGroupOpDigests, hdigests]
    rfl

/-- `g'` is what a relaunch should give back for `g`. -/
structure Survives (g g' : ChatGroup) : Prop where
  id : g'.id = g.id
  members : g'.members.Perm g.members
  displayName : g'.displayName = g.displayName
  currentEpoch : g'.currentEpoch = g.currentEpoch
  lastOpDigest : g'.lastOpDigest = g.lastOpDigest
  pendingOps : ∀ bytes, bytes ∈ g'.pendingOps ↔ bytes ∈ g.pendingOps
  recentOpDigests : ∀ e, g'.digest e = g.digest e
  memberDistributionIds : ∀ peer,
    g'.memberDistributionIds.lookup peer = g.memberDistributionIds.lookup peer
  myCurrentDistributionId : g'.myCurrentDistributionId = g.myCurrentDistributionId
  mySkdmRecipients : g'.mySkdmRecipients = g.mySkdmRecipients
  pendingInvitation : g'.pendingInvitation = g.pendingInvitation

/-- No group the app can hold survives a relaunch: whatever was stored before, the
group that comes back remembers no digest, and the app's own remembers its
head's. -/
theorem relaunch_forgets_digests (hg : Held env g) {db : GroupTables} (hdb : Written db) :
    ¬ ∃ g' ∈ loadGroups (storeGroup g db), Survives g g' := by
  rintro ⟨g', hmem, hsurvives⟩
  have hempty := ((hdb.storeGroup g).loaded hmem).2
  have hnone : g'.digest g.currentEpoch = none := by
    rw [ChatGroup.digest, hempty]
    rfl
  have hsome := hg.remembersHead
  rw [RemembersHead, ← hsurvives.recentOpDigests, hnone] at hsome
  cases hsome

/-! ## An equivocation a relaunch hides -/

/-- The sample group after peer 1 renamed it. -/
def storedGroup : ChatGroup := sampleApplied (sampleNext sampleGroup 1 (.rename "hike")) sampleGroup

/-- Another op of peer 1 at the same epoch and on the same parent. -/
def forkingRename : GroupOp := sampleNext sampleGroup 1 (.rename "swim")

theorem sampleGroup_held : Held sampleEnv sampleGroup := .create (Option.some_get _).symm

theorem sampleApplied_held {op : GroupOp} {g : ChatGroup} (hg : Held sampleEnv g) :
    Held sampleEnv (sampleApplied op g) := by
  rw [sampleApplied]
  split
  · next r h => exact .apply hg h
  · exact hg

/-- The sample group does not survive either. -/
theorem relaunch_forgets_digests_sample :
    ¬ ∃ g' ∈ loadGroups (storeGroup sampleGroup .empty), Survives sampleGroup g' :=
  relaunch_forgets_digests sampleGroup_held .empty

/-- The running app answers the second op of epoch 1 with an equivocation; after a
relaunch it takes the op for a duplicate. -/
theorem relaunch_hides_equivocation :
    Held sampleEnv storedGroup ∧
      ((ChatGroup.apply sampleEnv forkingRename storedGroup {}).map fun r => r.1) =
        some (.rejectedEquivocation 1) ∧
      (loadGroups (storeGroup storedGroup .empty)).map (fun g' =>
        (g'.id, g'.recentOpDigests.len,
          (ChatGroup.apply sampleEnv forkingRename g' {}).map fun r => r.1)) =
        [(storedGroup.id, 0, some .rejectedDuplicate)] ∧
      storedGroup.recentOpDigests.len = 2 := by
  refine ⟨sampleApplied_held sampleGroup_held, ?_⟩
  decide +kernel

end Pizzini.Group
