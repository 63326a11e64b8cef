import Mathlib.Data.List.Sort
import Mathlib.Data.Finset.Basic
import Pizzini.Lib.Dict
import Pizzini.Lib.Fields

/-!
# Group state (`pizzini/pizzini/Group.swift`)

`ChatGroup` is what one device holds about one group: the member rows, the
position in the op chain (`currentEpoch`, `lastOpDigest`), the ops that wait for
their predecessors (`pendingOps`) and the sender-key bookkeeping.

- Swift `Data` is a byte string, `UUID` is sixteen bytes, a `Date` is its
  milliseconds. `recentOpDigests` is keyed by the epoch itself; the source keys
  it by `String(epoch)` for its JSON encoder only.
- Of `log` only the row's text and kind are kept: the other columns are never
  read by the functions modelled here. `lastSeenAt` and `lastMessageAt` are left
  out for the same reason.
- What traps in Swift is `none` here: `currentEpoch + 1` at the last epoch
  (`nextEpoch`), and a member table that `memberSetRoot` refuses.
-/

namespace Pizzini.Group

open Wire

/-- A `UUID`. -/
abbrev UUID := FixedBytes 16

/-- What the app takes from its crypto core: BLAKE3 and the check of an
identity-key signature under a context tag. Both are arbitrary functions. -/
structure GroupEnv where
  /-- `Blake3.hash`. -/
  blake3 : Bytes → FixedBytes 32
  /-- `Session.verifyIdentitySignature` under the tag `groupOp`: identity,
  message, signature. A call that throws counts as `false`. -/
  verifyGroupOp : Bytes → Bytes → Bytes → Bool
  /-- The same under the tag `groupBootstrap`. -/
  verifyGroupBootstrap : Bytes → Bytes → Bytes → Bool

/-- The digest as the `Data` that the source stores. -/
def GroupEnv.hash (env : GroupEnv) (bs : Bytes) : Bytes := (env.blake3 bs).1

@[simp] theorem GroupEnv.length_hash (env : GroupEnv) (bs : Bytes) :
    (env.hash bs).length = 32 := (env.blake3 bs).2

/-- `GroupRole`. -/
inductive GroupRole where
  | admin
  | member
deriving DecidableEq, Repr

/-- `MemberStatus`. -/
inductive MemberStatus where
  | active
  | pendingSKDM
  | removed
deriving DecidableEq, Repr

/-- `GroupMember` (`Group.swift:536`). -/
structure GroupMember where
  peerId : Bytes
  displayName : String
  role : GroupRole
  joinedAtEpoch : UInt64
  status : MemberStatus
  addedBy : Option Bytes
deriving DecidableEq

/-- `ChatMessageKind` (`Models.swift:8`). -/
inductive ChatMessageKind where
  | preKey
  | whisper
  | system
  | attachment
deriving DecidableEq, Repr

/-- The columns of `PersistedMessage` that the group code reads. -/
structure PersistedMessage where
  text : String
  kind : ChatMessageKind
deriving DecidableEq

/-- `ChatGroup` (`Group.swift:30`). -/
structure ChatGroup where
  id : Bytes
  displayName : String
  members : List GroupMember
  createdAt : UInt64
  currentEpoch : UInt64
  lastOpDigest : Bytes
  pendingOps : List Bytes
  log : List PersistedMessage
  myCurrentDistributionId : Option UUID
  memberDistributionIds : Dict Bytes UUID
  previousMemberDistributionIds : Dict Bytes (List UUID)
  sentSinceRotation : UInt32
  lastRotatedAt : UInt64
  mySkdmRecipients : Finset Bytes
  recentOpDigests : Dict UInt64 Bytes
  pendingInvitation : Bool

/-! ## Sizes and caps -/

/-- `GroupOp.identityKeySize`. -/
def identityKeySize : Nat := 33

/-- `GroupOp.groupIdSize`. -/
def groupIdSize : Nat := 16

/-- `GroupOp.parentDigestSize`. -/
def parentDigestSize : Nat := 32

/-- `GroupOp.memberSetRootSize`. -/
def memberSetRootSize : Nat := 32

/-- `GroupOp.signatureSize`. -/
def signatureSize : Nat := 64

/-- `GroupOp.distributionIdSize`. -/
def distributionIdSize : Nat := 16

/-- `ChatGroup.maxMembers`. -/
def maxMembers : Nat := 50

/-- `ChatGroup.recentOpDigestsWindow`. -/
def recentOpDigestsWindow : Nat := 16384

/-- `ChatGroup.pendingOpsCap`. -/
def pendingOpsCap : Nat := 1024

/-- `ChatGroup.pendingOpsPerOperatorCap`. -/
def pendingOpsPerOperatorCap : Nat := 64

/-- `ChatGroup.distIdHistoryDepth`. -/
def distIdHistoryDepth : Nat := 4

/-! ## Epochs -/

/-- `epoch + 1`, which traps at the last epoch. -/
def nextEpoch (e : UInt64) : Option UInt64 :=
  if e.toNat + 1 < 2 ^ 64 then some (e + 1) else none

theorem nextEpoch_eq_some_iff {e e' : UInt64} :
    nextEpoch e = some e' ↔ e'.toNat = e.toNat + 1 := by
  rw [nextEpoch]
  constructor
  · intro h
    split at h
    · cases h
      rw [UInt64.toNat_add, UInt64.toNat_one, Nat.mod_eq_of_lt ‹_›]
    · cases h
  · intro h
    have hlt : e.toNat + 1 < 2 ^ 64 := h ▸ e'.toNat_lt
    rw [if_pos hlt, Option.some_inj]
    apply UInt64.toNat_inj.mp
    rw [UInt64.toNat_add, UInt64.toNat_one, Nat.mod_eq_of_lt hlt, h]

theorem nextEpoch_eq_none_iff {e : UInt64} : nextEpoch e = none ↔ e.toNat + 1 = 2 ^ 64 := by
  have hlt : e.toNat < 2 ^ 64 := e.toNat_lt
  rw [nextEpoch, ite_eq_right_iff]
  constructor
  · intro h
    by_contra hne
    exact absurd (h (by omega)) (by simp)
  · intro h hlt'
    omega

/-! ## Member-set root -/

/-- `GroupRole.wireByte`. -/
def GroupRole.wireByte : GroupRole → UInt8
  | .member => 0x00
  | .admin => 0x01

/-- `GroupRole(wireByte:)`. -/
def GroupRole.ofWireByte (b : UInt8) : Option GroupRole :=
  if b = 0x00 then some .member else if b = 0x01 then some .admin else none

@[simp] theorem GroupRole.ofWireByte_wireByte (r : GroupRole) : ofWireByte r.wireByte = some r := by
  cases r <;> rfl

/-- `MemberStatus.canonicalRootByte`. -/
def MemberStatus.canonicalRootByte : MemberStatus → UInt8
  | .removed => 0x00
  | .active => 0x01
  | .pendingSKDM => 0x01

/-- `byteLexLess` (`Group.swift:612`). -/
def byteLexLess : Bytes → Bytes → Bool
  | [], [] => false
  | [], _ :: _ => true
  | _ :: _, [] => false
  | a :: as, b :: bs => if a ≠ b then a < b else byteLexLess as bs

/-- The member's thirty-three bytes of `addedBy`: zeros when it is not recorded
or has the wrong length. -/
def GroupMember.addedByBlock (m : GroupMember) : Bytes :=
  match m.addedBy with
  | some added =>
    if added.length = identityKeySize then added else List.replicate identityKeySize 0
  | none => List.replicate identityKeySize 0

/-- One row of the hashed member table. -/
def GroupMember.rootRow (m : GroupMember) : Bytes :=
  m.peerId ++ [m.role.wireByte] ++ u64Bytes m.joinedAtEpoch ++ [m.status.canonicalRootByte] ++
    m.addedByBlock

/-- `Data("pizzini.group.member-set.v1".utf8)`. -/
def memberSetDomainTag : Bytes := utf8 "pizzini.group.member-set.v1"

/-- `ChatGroup.memberSetRoot(of:)` (`Group.swift:318`). `none` is a trap: the
`precondition` on the peer ids, or `UInt32(sorted.count)`. -/
def memberSetRootOf (env : GroupEnv) (members : List GroupMember) : Option Bytes :=
  if members.length < 2 ^ 32 ∧ ∀ m ∈ members, m.peerId.length = identityKeySize then
    -- `sorted` is stable: a row moves in front of another only if it is smaller
    let sorted := members.insertionSort fun a b => ¬ byteLexLess b.peerId a.peerId
    some (env.hash (memberSetDomainTag ++ beBytes 4 sorted.length ++
      (sorted.map GroupMember.rootRow).flatten))
  else none

@[simp] theorem length_memberSetRootOf {env : GroupEnv} {ms : List GroupMember} {root : Bytes}
    (h : memberSetRootOf env ms = some root) : root.length = memberSetRootSize := by
  rw [memberSetRootOf] at h
  split at h
  · cases h
    exact env.length_hash _
  · cases h

/-! ## Accessors -/

namespace ChatGroup

/-- `memberSetRoot` (`Group.swift:292`). -/
def memberSetRoot (env : GroupEnv) (g : ChatGroup) : Option Bytes :=
  memberSetRootOf env g.members

/-- `activeMembers` (`Group.swift:282`). -/
def activeMembers (g : ChatGroup) : List GroupMember :=
  g.members.filter fun m => m.status ≠ .removed

/-- `role(of:)` (`Group.swift:369`). -/
def role (g : ChatGroup) (identityPub : Bytes) : Option GroupRole :=
  (g.members.find? fun m => m.peerId = identityPub).map GroupMember.role

/-- `peerId` has a row that is not removed. -/
def hasMember (g : ChatGroup) (peerId : Bytes) : Bool :=
  g.members.any fun m => m.peerId = peerId && m.status ≠ .removed

/-- `digest(forEpoch:)` (`Group.swift:186`). -/
def digest (g : ChatGroup) (epoch : UInt64) : Option Bytes := g.recentOpDigests.lookup epoch

/-- `recordDigest(_:atEpoch:)` (`Group.swift:190`). -/
def recordDigest (g : ChatGroup) (digest : Bytes) (epoch : UInt64) : ChatGroup :=
  let recorded := g.recentOpDigests.insert epoch digest
  { g with
    recentOpDigests :=
      if recorded.len > recentOpDigestsWindow then
        let cutoff :=
          if recentOpDigestsWindow ≤ epoch.toNat then epoch.toNat - recentOpDigestsWindow + 1 else 0
        recorded.retain fun e _ => cutoff ≤ e.toNat
      else recorded }

/-- The digest just recorded is in the table, also when the table is trimmed. -/
theorem digest_recordDigest_self (g : ChatGroup) (d : Bytes) (e : UInt64) :
    (g.recordDigest d e).digest e = some d := by
  simp only [recordDigest, digest]
  split
  · rw [AList.lookup_retain, AList.lookup_insert, Option.filter_eq_some_iff]
    refine ⟨rfl, decide_eq_true ?_⟩
    rw [recentOpDigestsWindow]
    split <;> omega
  · rw [AList.lookup_insert]

/-- Recording a digest never changes another epoch's digest; it can only forget it. -/
theorem digest_recordDigest_of_ne {g : ChatGroup} {d : Bytes} {e e' : UInt64} (hne : e' ≠ e)
    {known : Bytes} (h : (g.recordDigest d e).digest e' = some known) :
    g.digest e' = some known := by
  simp only [recordDigest, digest] at h
  split at h
  · rw [AList.lookup_retain, AList.lookup_insert_ne hne, Option.filter_eq_some_iff] at h
    exact h.1
  · rwa [AList.lookup_insert_ne hne] at h

/-- A digest is kept while its epoch is in the window. -/
theorem digest_recordDigest_keeps {g : ChatGroup} {d : Bytes} {e e' : UInt64} (hne : e' ≠ e)
    (hwindow : e.toNat < e'.toNat + recentOpDigestsWindow) {known : Bytes}
    (h : g.digest e' = some known) : (g.recordDigest d e).digest e' = some known := by
  simp only [recordDigest, digest] at h ⊢
  split
  · rw [AList.lookup_retain, AList.lookup_insert_ne hne, Option.filter_eq_some_iff]
    refine ⟨h, decide_eq_true ?_⟩
    split <;> omega
  · rwa [AList.lookup_insert_ne hne]

/-- `recordSupersededDistId(for:oldDist:)` (`Group.swift:501`). -/
def recordSupersededDistId (g : ChatGroup) (sender : Bytes) (oldDist : UUID) : ChatGroup :=
  let history := (g.previousMemberDistributionIds.lookup sender).getD []
  if history.contains oldDist then g
  else
    let history := history ++ [oldDist]
    { g with
      previousMemberDistributionIds :=
        g.previousMemberDistributionIds.insert sender
          (history.drop (history.length - distIdHistoryDepth)) }

/-- `setMemberDistId(_:for:)` (`Group.swift:516`). -/
def setMemberDistId (g : ChatGroup) (newDist : UUID) (sender : Bytes) : ChatGroup :=
  let g' :=
    match g.memberDistributionIds.lookup sender with
    | some prior => if prior ≠ newDist then g.recordSupersededDistId sender prior else g
    | none => g
  { g' with memberDistributionIds := g'.memberDistributionIds.insert sender newDist }

/-- Only the superseded ids change when one is recorded. -/
theorem recordSupersededDistId_eq (g : ChatGroup) (sender : Bytes) (oldDist : UUID) :
    ∃ prev, g.recordSupersededDistId sender oldDist =
      { g with previousMemberDistributionIds := prev } := by
  rw [recordSupersededDistId]
  split
  · exact ⟨g.previousMemberDistributionIds, rfl⟩
  · exact ⟨_, rfl⟩

/-- A new distribution id touches the two distribution-id tables only. -/
theorem setMemberDistId_eq (g : ChatGroup) (newDist : UUID) (sender : Bytes) :
    ∃ prev, g.setMemberDistId newDist sender =
      { g with
        memberDistributionIds := g.memberDistributionIds.insert sender newDist
        previousMemberDistributionIds := prev } := by
  rw [setMemberDistId]
  split
  · next prior _ =>
    split
    · obtain ⟨prev, hprev⟩ := recordSupersededDistId_eq g sender prior
      exact ⟨prev, by simp only [hprev]⟩
    · exact ⟨g.previousMemberDistributionIds, rfl⟩
  · exact ⟨g.previousMemberDistributionIds, rfl⟩

end ChatGroup

end Pizzini.Group
