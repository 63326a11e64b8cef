import Pizzini.Group.GroupOp

/-!
# Membership snapshots (`pizzini/pizzini/GroupBootstrap.swift`)

A `GroupBootstrap` is the signed snapshot that an admin ships to a newcomer: the
whole member table and the position in the op chain. This module has its wire
format, its reader, and `intoChatGroup`, the constructor that turns a snapshot
into a group.

A snapshot is read back from its wire bytes (`GroupBootstrap.decode_encoded`). It
has at most `maxMembers` rows, removed ones included, or it does not encode.
-/

namespace Pizzini.Group

open Wire

/-- What the snapshot encoder throws: its own error, or that of the text writer. -/
inductive GroupBootstrapError where
  | malformed (reason : String)
  | text (error : GroupOpError)
deriving DecidableEq

/-- `guard c else { throw GroupBootstrapError.malformed(reason) }`. -/
def requireB (c : Prop) [Decidable c] (reason : String) : Except GroupBootstrapError Unit :=
  if c then .ok () else .error (.malformed reason)

@[simp] theorem requireB_eq_ok {c : Prop} [Decidable c] {reason : String} {u : Unit} :
    requireB c reason = .ok u ↔ c := by
  rw [requireB]
  split <;> simp [*]

/-- `try writeUTF8U16LenBlob` inside the snapshot encoder. -/
def writeText (s : String) : Except GroupBootstrapError Bytes :=
  (writeUTF8U16LenBlob s).mapError .text

theorem writeText_eq_ok {s : String} {bs : Bytes} :
    writeText s = .ok bs ↔ writeUTF8U16LenBlob s = .ok bs := by
  rw [writeText]
  cases writeUTF8U16LenBlob s with
  | error e => constructor <;> intro h <;> cases h
  | ok bs' =>
    constructor
    · intro h
      exact congrArg _ (Except.ok.inj h)
    · intro h
      exact congrArg _ (Except.ok.inj h)

/-- `MemberStatus.wireByte` (`GroupBootstrap.swift:315`). -/
def MemberStatus.wireByte : MemberStatus → UInt8
  | .active => 0x00
  | .pendingSKDM => 0x01
  | .removed => 0x02

/-- `MemberStatus(wireByte:)`. -/
def MemberStatus.ofWireByte (b : UInt8) : Option MemberStatus :=
  if b = 0x00 then some .active
  else if b = 0x01 then some .pendingSKDM
  else if b = 0x02 then some .removed
  else none

@[simp] theorem MemberStatus.ofWireByte_wireByte (s : MemberStatus) :
    ofWireByte s.wireByte = some s := by
  cases s <;> rfl

/-! ## Member rows on the wire -/

/-- The optional `addedBy` field of a row. -/
def encodedAddedBy : Option Bytes → Except GroupBootstrapError Bytes
  | some addedBy => do
    requireB (addedBy.length = identityKeySize) "addedBy must be 33 bytes"
    return 1 :: addedBy
  | none => .ok [0]

/-- Read the optional `addedBy` field. -/
def takeAddedBy (bs : Bytes) : Option (Option Bytes × Bytes) := do
  let (hasAddedBy, bs) ← takeByte bs
  if hasAddedBy = 0 then return (none, bs)
  else if hasAddedBy = 1 then
    let (addedBy, bs) ← takeBytes identityKeySize bs
    return (some addedBy, bs)
  else none

/-- One member row of the snapshot. -/
def GroupMember.encoded (m : GroupMember) : Except GroupBootstrapError Bytes := do
  requireB (m.peerId.length = identityKeySize) "member peerId must be 33 bytes"
  let addedBy ← encodedAddedBy m.addedBy
  let name ← writeText m.displayName
  return m.peerId ++ m.role.wireByte :: m.status.wireByte :: (u64Bytes m.joinedAtEpoch ++
    (addedBy ++ name))

/-- Read one member row. -/
def GroupMember.take (bs : Bytes) : Option (GroupMember × Bytes) := do
  let (peerId, bs) ← takeBytes identityKeySize bs
  let (roleByte, bs) ← takeByte bs
  let role ← GroupRole.ofWireByte roleByte
  let (statusByte, bs) ← takeByte bs
  let status ← MemberStatus.ofWireByte statusByte
  let (joinedAtEpoch, bs) ← takeU64 bs
  let (addedBy, bs) ← takeAddedBy bs
  let (display, bs) ← takeText bs
  return (⟨peerId, display, role, joinedAtEpoch, status, addedBy⟩, bs)

theorem takeAddedBy_encoded {addedBy : Option Bytes} {bs : Bytes}
    (h : encodedAddedBy addedBy = .ok bs) (rest : Bytes) :
    takeAddedBy (bs ++ rest) = some (addedBy, rest) := by
  cases addedBy with
  | none =>
    cases h
    rfl
  | some added =>
    obtain ⟨_, hlen, heq⟩ := bind_eq_ok.mp h
    rw [requireB_eq_ok] at hlen
    cases heq
    rw [takeAddedBy, List.cons_append]
    exact bind_eq_some rfl (bind_eq_some (takeBytes_append hlen rest) rfl)

theorem takeRow_encoded {m : GroupMember} {bs : Bytes} (h : m.encoded = .ok bs) (rest : Bytes) :
    GroupMember.take (bs ++ rest) = some (m, rest) := by
  obtain ⟨_, hlen, h⟩ := bind_eq_ok.mp h
  obtain ⟨addedBy, hadded, h⟩ := bind_eq_ok.mp h
  obtain ⟨name, hname, heq⟩ := bind_eq_ok.mp h
  rw [requireB_eq_ok] at hlen
  rw [writeText_eq_ok] at hname
  cases heq
  simp only [List.append_assoc, List.cons_append]
  refine bind_eq_some (takeBytes_append hlen _) ?_
  refine bind_eq_some (takeByte_cons _ _) ?_
  refine bind_eq_some (GroupRole.ofWireByte_wireByte _) ?_
  refine bind_eq_some (takeByte_cons _ _) ?_
  refine bind_eq_some (MemberStatus.ofWireByte_wireByte _) ?_
  refine bind_eq_some (takeU64_append _ _) ?_
  refine bind_eq_some (takeAddedBy_encoded hadded _) ?_
  exact bind_eq_some (takeText_written hname rest) rfl

/-- A decoded row has a whole identity key. -/
theorem takeRow_size {bs rest : Bytes} {m : GroupMember} (h : GroupMember.take bs = some (m, rest)) :
    m.peerId.length = identityKeySize := by
  obtain ⟨_, hpeer, h⟩ := Option.bind_eq_some_iff.mp h
  obtain ⟨_, _, h⟩ := Option.bind_eq_some_iff.mp h
  obtain ⟨_, _, h⟩ := Option.bind_eq_some_iff.mp h
  obtain ⟨_, _, h⟩ := Option.bind_eq_some_iff.mp h
  obtain ⟨_, _, h⟩ := Option.bind_eq_some_iff.mp h
  obtain ⟨_, _, h⟩ := Option.bind_eq_some_iff.mp h
  obtain ⟨_, _, h⟩ := Option.bind_eq_some_iff.mp h
  obtain ⟨_, _, h⟩ := Option.bind_eq_some_iff.mp h
  cases h
  exact takeBytes_length hpeer

/-! ## Snapshots -/

/-- `GroupBootstrap` (`GroupBootstrap.swift:68`). -/
structure GroupBootstrap where
  groupId : Bytes
  displayName : String
  members : List GroupMember
  currentEpoch : UInt64
  lastOpDigest : Bytes
  operatorIdentity : Bytes
  timestampMillis : UInt64
  memberSetRoot : Bytes
  signature : Bytes
deriving DecidableEq

namespace GroupBootstrap

/-- `GroupBootstrap.bootstrapVersion`. -/
def bootstrapVersion : UInt8 := 2

/-- `encodedHeader()` (`GroupBootstrap.swift:103`): the bytes under the signature. -/
def encodedHeader (b : GroupBootstrap) : Except GroupBootstrapError Bytes := do
  requireB (b.groupId.length = groupIdSize) "groupId must be 16 bytes"
  requireB (b.lastOpDigest.length = parentDigestSize) "lastOpDigest must be 32 bytes"
  requireB (b.operatorIdentity.length = identityKeySize) "operatorIdentity must be 33 bytes"
  requireB (b.members.length ≤ maxMembers) "member count exceeds maxMembers (50)"
  requireB (b.memberSetRoot.length = memberSetRootSize) "memberSetRoot must be 32 bytes"
  let name ← writeText b.displayName
  let rows ← b.members.mapM GroupMember.encoded
  return bootstrapVersion :: (b.groupId ++ (u64Bytes b.currentEpoch ++ (b.lastOpDigest ++
    (b.operatorIdentity ++ (u64Bytes b.timestampMillis ++ (b.memberSetRoot ++ (name ++
      UInt8.ofNat b.members.length :: rows.flatten)))))))

/-- `encoded()` (`GroupBootstrap.swift:90`): the signed wire bytes. -/
def encoded (b : GroupBootstrap) : Except GroupBootstrapError Bytes := do
  let out ← b.encodedHeader
  requireB (b.signature.length = signatureSize) "signature must be 64 bytes"
  return out ++ b.signature

/-- `(try? verifySignature()) == true` (`GroupBootstrap.swift:184`). -/
def verifySignature (env : GroupEnv) (b : GroupBootstrap) : Bool :=
  match b.encodedHeader with
  | .ok header => env.verifyGroupBootstrap b.operatorIdentity header b.signature
  | .error _ => false

/-- `GroupBootstrap.decode(_:)` (`GroupBootstrap.swift:195`). -/
def decode (bytes : Bytes) : Option GroupBootstrap := do
  let (version, bs) ← takeByte bytes
  guard (version = bootstrapVersion)
  let (groupId, bs) ← takeBytes groupIdSize bs
  let (currentEpoch, bs) ← takeU64 bs
  let (lastOpDigest, bs) ← takeBytes parentDigestSize bs
  let (operatorIdentity, bs) ← takeBytes identityKeySize bs
  let (timestampMillis, bs) ← takeU64 bs
  let (memberSetRoot, bs) ← takeBytes memberSetRootSize bs
  let (displayName, bs) ← takeText bs
  let (memberCount, bs) ← takeByte bs
  guard (memberCount.toNat ≤ maxMembers)
  let (members, bs) ← takeMany GroupMember.take memberCount.toNat bs
  let (signature, bs) ← takeBytes signatureSize bs
  guard (bs = [])
  return ⟨groupId, displayName, members, currentEpoch, lastOpDigest, operatorIdentity,
    timestampMillis, memberSetRoot, signature⟩

/-- A snapshot is read back from its wire bytes. -/
theorem decode_encoded {b : GroupBootstrap} {bytes : Bytes} (h : b.encoded = .ok bytes) :
    decode bytes = some b := by
  obtain ⟨header, hheader, h⟩ := bind_eq_ok.mp h
  obtain ⟨_, hsig, heq⟩ := bind_eq_ok.mp h
  obtain ⟨_, hgid, h⟩ := bind_eq_ok.mp hheader
  obtain ⟨_, hlast, h⟩ := bind_eq_ok.mp h
  obtain ⟨_, hoperator, h⟩ := bind_eq_ok.mp h
  obtain ⟨_, hcount, h⟩ := bind_eq_ok.mp h
  obtain ⟨_, hroot, h⟩ := bind_eq_ok.mp h
  obtain ⟨name, hname, h⟩ := bind_eq_ok.mp h
  obtain ⟨rows, hrows, hheq⟩ := bind_eq_ok.mp h
  rw [requireB_eq_ok] at hsig hgid hlast hoperator hcount hroot
  rw [writeText_eq_ok] at hname
  cases heq
  cases hheq
  have hcount' : (UInt8.ofNat b.members.length).toNat = b.members.length := by
    rw [maxMembers] at hcount
    rw [UInt8.toNat_ofNat']
    omega
  have hmany := takeMany_append
    ((GroupOpKind.mapM_eq_ok hrows).imp fun m bs hm => takeRow_encoded hm) b.signature
  have hread := takeBytes_append hsig []
  rw [List.append_nil] at hread
  simp only [List.cons_append, List.append_assoc]
  refine bind_eq_some (takeByte_cons _ _) ?_
  refine bind_eq_some rfl ?_
  refine bind_eq_some (takeBytes_append hgid _) ?_
  refine bind_eq_some (takeU64_append _ _) ?_
  refine bind_eq_some (takeBytes_append hlast _) ?_
  refine bind_eq_some (takeBytes_append hoperator _) ?_
  refine bind_eq_some (takeU64_append _ _) ?_
  refine bind_eq_some (takeBytes_append hroot _) ?_
  refine bind_eq_some (takeText_written hname _) ?_
  refine bind_eq_some (takeByte_cons _ _) ?_
  refine bind_eq_some (if_pos (by rw [hcount']; exact hcount)) ?_
  refine bind_eq_some (by rw [hcount']; exact hmany) ?_
  refine bind_eq_some hread ?_
  exact bind_eq_some rfl rfl

/-- A decoded snapshot has at most `maxMembers` rows, each with a whole identity key. -/
theorem decode_members {b : GroupBootstrap} {bytes : Bytes} (h : decode bytes = some b) :
    b.members.length ≤ maxMembers ∧ ∀ m ∈ b.members, m.peerId.length = identityKeySize := by
  obtain ⟨_, _, h⟩ := Option.bind_eq_some_iff.mp h
  obtain ⟨_, _, h⟩ := Option.bind_eq_some_iff.mp h
  obtain ⟨_, _, h⟩ := Option.bind_eq_some_iff.mp h
  obtain ⟨_, _, h⟩ := Option.bind_eq_some_iff.mp h
  obtain ⟨_, _, h⟩ := Option.bind_eq_some_iff.mp h
  obtain ⟨_, _, h⟩ := Option.bind_eq_some_iff.mp h
  obtain ⟨_, _, h⟩ := Option.bind_eq_some_iff.mp h
  obtain ⟨_, _, h⟩ := Option.bind_eq_some_iff.mp h
  obtain ⟨_, _, h⟩ := Option.bind_eq_some_iff.mp h
  obtain ⟨_, _, h⟩ := Option.bind_eq_some_iff.mp h
  obtain ⟨_, hcount, h⟩ := Option.bind_eq_some_iff.mp h
  obtain ⟨_, hmany, h⟩ := Option.bind_eq_some_iff.mp h
  obtain ⟨_, _, h⟩ := Option.bind_eq_some_iff.mp h
  obtain ⟨_, _, h⟩ := Option.bind_eq_some_iff.mp h
  cases h
  refine ⟨?_, takeMany_forall takeRow_size hmany⟩
  show List.length _ ≤ _
  rw [takeMany_length hmany]
  by_contra hgt
  rw [guard, if_neg hgt] at hcount
  cases hcount

/-- `verifyMemberSetRoot()` (`GroupBootstrap.swift:258`); `none` is the trap of
`memberSetRoot`. -/
def verifyMemberSetRoot (env : GroupEnv) (b : GroupBootstrap) : Option Bool :=
  (memberSetRootOf env b.members).map fun root => root = b.memberSetRoot

/-- `intoChatGroup(localIdentityPub:)` (`GroupBootstrap.swift:267`). -/
def intoChatGroup (b : GroupBootstrap) (localIdentityPub : Bytes) : Option ChatGroup :=
  if ¬ b.members.any fun m => m.peerId = localIdentityPub then none
  else
    some
      { id := b.groupId
        displayName := b.displayName
        members := b.members
        createdAt := b.timestampMillis
        currentEpoch := b.currentEpoch
        lastOpDigest := b.lastOpDigest
        pendingOps := []
        log := []
        myCurrentDistributionId := none
        memberDistributionIds := ∅
        previousMemberDistributionIds := ∅
        sentSinceRotation := 0
        lastRotatedAt := b.timestampMillis
        mySkdmRecipients := ∅
        recentOpDigests := (∅ : Dict UInt64 Bytes).insert b.currentEpoch b.lastOpDigest
        pendingInvitation := true }

end GroupBootstrap

end Pizzini.Group
