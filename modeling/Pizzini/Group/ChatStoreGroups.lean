import Pizzini.Group.GroupApply
import Pizzini.Group.GroupBootstrap

/-!
# The group part of the chat store (`pizzini/pizzini/ChatStoreGroups.swift`)

One device: the groups it holds, what its user can do with them, and what it does
with the group frames that arrive. A call returns the new store and the frames it
hands to the transport; `none` is a trap. Three things come from outside and are
inputs:

- `Session`, the crypto core's session of this device;
- `Ambient`, the clock readings and the fresh ids that one call draws;
- the transport. A frame to a peer that is not a contact is not sent, as in the
  source. Delivery tokens and sealing belong to the transport: a frame that gets
  no token is a frame that is lost.

`state.groups[gIdx]` with `gIdx = groupIndex(forId:)` is the first group with that
id; `findGroup` reads it and `setGroup` writes it, and no call changes a group's
id. Writes to the database and log lines are left out.
-/

namespace Pizzini.Group

open Wire

/-! ## The store -/

/-- `Session.SignatureContext`, the two tags used here. -/
inductive SignatureContext where
  | groupOp
  | groupBootstrap
deriving DecidableEq

/-- What the group code calls on a session; `none` is a call that throws. -/
structure Session where
  /-- `identitySign(_:contextTag:)`. -/
  identitySign : SignatureContext → Bytes → Option Bytes
  /-- `senderKeyDistributionCreate(distributionId:)`. -/
  senderKeyDistributionCreate : UUID → Option Bytes
  /-- `senderKeyDistributionProcess(senderIdentity:skdm:)`. -/
  senderKeyDistributionProcess : Bytes → Bytes → Option UUID

/-- The columns of `Contact` that the group code reads. -/
structure Contact where
  identityPub : Bytes
  displayName : String
deriving DecidableEq

/-- The part of `ChatStore` that the group code uses. -/
structure ChatStore where
  session : Option Session
  /-- `myCard?.peerId`. -/
  myCard : Option Bytes
  /-- `!readyRelays.isEmpty`. -/
  readyRelays : Bool
  contacts : List Contact
  groups : List ChatGroup

/-- `RelayClient.InnerEnvelopeKind`, the three kinds used here. -/
inductive InnerEnvelopeKind where
  | groupKeyDistribution
  | groupOp
  | groupBootstrap
deriving DecidableEq

/-- A sealed frame on its way to `recipient`. -/
structure Frame where
  recipient : Bytes
  kind : InnerEnvelopeKind
  body : Bytes
deriving DecidableEq

/-- The clock readings and the fresh ids of one call: `now` of its own op,
`bootstrapNow` of a snapshot, `rotateNow` and `rotateId` of a rotation it causes,
`chainId` of a sender-key chain it mints otherwise. -/
structure Ambient where
  now : UInt64
  bootstrapNow : UInt64
  rotateNow : UInt64
  rotateId : UUID
  chainId : UUID

/-- Replace the first group that has the id of `g`. -/
def setFirst (g : ChatGroup) : List ChatGroup → List ChatGroup
  | [] => []
  | h :: rest => if h.id = g.id then g :: rest else h :: setFirst g rest

theorem mem_setFirst {g x : ChatGroup} {groups : List ChatGroup} (h : x ∈ setFirst g groups) :
    x = g ∨ x ∈ groups := by
  induction groups with
  | nil => cases h
  | cons y rest ih =>
    rw [setFirst] at h
    split at h
    · exact (List.mem_cons.mp h).imp_right (List.mem_cons_of_mem _)
    · rcases List.mem_cons.mp h with rfl | h
      · exact .inr List.mem_cons_self
      · exact (ih h).imp_right (List.mem_cons_of_mem _)

namespace ChatStore

/-- `state.groups[groupIndex(forId: groupId)]` (`ChatStoreGroups.swift:1908`). -/
def findGroup (s : ChatStore) (groupId : Bytes) : Option ChatGroup :=
  s.groups.find? fun g => g.id = groupId

/-- `state.groups[gIdx] = g`. -/
def setGroup (s : ChatStore) (g : ChatGroup) : ChatStore := { s with groups := setFirst g s.groups }

/-- `state.contacts.contains(where: { $0.identityPub == peer })`. -/
def isContact (s : ChatStore) (peer : Bytes) : Bool := s.contacts.any fun c => c.identityPub = peer

/-! ## Frames -/

/-- `broadcastGroupOp(_:toPeer:session:)` (`ChatStoreGroups.swift:2182`). -/
def broadcastGroupOp (s : ChatStore) (signedBytes recipient : Bytes) : List Frame :=
  if s.isContact recipient then [⟨recipient, .groupOp, signedBytes⟩] else []

/-- `GroupEnvelope.encodeBootstrap(groupId:bootstrapBytes:)` and
`encodeKeyDistribution(groupId:skdm:)`. -/
def withGroupId (groupId body : Bytes) : Bytes := groupId ++ body

/-- `GroupEnvelope.decodeBootstrap(_:)` and `decodeKeyDistribution(_:)`. -/
def splitGroupId (payload : Bytes) : Option (Bytes × Bytes) := takeBytes groupIdSize payload

/-- `broadcastGroupBootstrap(bootstrap:toPeer:session:)` (`ChatStoreGroups.swift:2276`). -/
def broadcastGroupBootstrap (s : ChatStore) (bootstrap : GroupBootstrap) (recipient : Bytes) :
    List Frame :=
  match bootstrap.encoded with
  | .error _ => []
  | .ok bytes =>
    if s.isContact recipient then
      [⟨recipient, .groupBootstrap, withGroupId bootstrap.groupId bytes⟩]
    else []

/-- `broadcastSenderKeyDistribution` (`ChatStoreGroups.swift:2221`): the group
records who got the key. -/
def broadcastSenderKeyDistribution (s : ChatStore) (skdm recipient : Bytes) (g : ChatGroup) :
    ChatGroup × List Frame :=
  if s.isContact recipient then
    ({ g with mySkdmRecipients := insert recipient g.mySkdmRecipients },
      [⟨recipient, .groupKeyDistribution, withGroupId g.id skdm⟩])
  else (g, [])

/-- The loops that ship our key to a list of peers, each preceded by the frames
`first` to that peer. -/
def shipKey (s : ChatStore) (skdm : Bytes) (first : Bytes → List Frame) :
    List Bytes → ChatGroup → ChatGroup × List Frame
  | [], g => (g, [])
  | peer :: peers, g =>
    let sent := s.broadcastSenderKeyDistribution skdm peer g
    let rest := s.shipKey skdm first peers sent.1
    (rest.1, first peer ++ sent.2 ++ rest.2)

/-- `activeMembers` without the local user, in order. -/
def others (g : ChatGroup) (me : Bytes) : List Bytes :=
  (g.activeMembers.map GroupMember.peerId).filter fun peerId => peerId ≠ me

/-- The loop that sends an op to every other active member. -/
def broadcastToOthers (s : ChatStore) (g : ChatGroup) (me signedBytes : Bytes) : List Frame :=
  (others g me).flatMap (s.broadcastGroupOp signedBytes)

end ChatStore

/-! ## Signing -/

/-- `signOp` (`ChatStoreGroups.swift:2104`). -/
def signOp (session : Session) (groupId : Bytes) (epoch : UInt64) (parent operatorIdentity
    priorMemberSetRoot : Bytes) (kind : GroupOpKind) (now : UInt64) : Option GroupOp :=
  let unsigned : GroupOp :=
    { groupId := groupId
      epoch := epoch
      parentDigest := parent
      operatorIdentity := operatorIdentity
      timestampMillis := now
      priorMemberSetRoot := priorMemberSetRoot
      kind := kind
      signature := List.replicate signatureSize 0 }
  match unsigned.encodedHeader with
  | .error _ => none
  | .ok header =>
    (session.identitySign .groupOp header).map fun sig => { unsigned with signature := sig }

/-- The call of `signOp` for the next op of a group: `epoch: currentEpoch + 1`,
`parent: lastOpDigest`, `priorMemberSetRoot: memberSetRoot`. The outer `none` is a
trap of one of these. -/
def signNext (env : GroupEnv) (session : Session) (me : Bytes) (kind : GroupOpKind) (now : UInt64)
    (g : ChatGroup) : Option (Option GroupOp) :=
  (nextEpoch g.currentEpoch).bind fun epoch =>
    (g.memberSetRoot env).map fun root =>
      signOp session g.id epoch g.lastOpDigest me root kind now

/-- `signBootstrap` (`ChatStoreGroups.swift:2148`). The outer `none` is the trap of
`memberSetRoot`. -/
def signBootstrap (env : GroupEnv) (session : Session) (g : ChatGroup) (operatorIdentity : Bytes)
    (now : UInt64) : Option (Option GroupBootstrap) :=
  (g.memberSetRoot env).map fun root =>
    let unsigned : GroupBootstrap :=
      { groupId := g.id
        displayName := g.displayName
        members := g.members
        currentEpoch := g.currentEpoch
        lastOpDigest := g.lastOpDigest
        operatorIdentity := operatorIdentity
        timestampMillis := now
        memberSetRoot := root
        signature := List.replicate signatureSize 0 }
    match unsigned.encodedHeader with
    | .error _ => none
    | .ok header =>
      (session.identitySign .groupBootstrap header).map fun sig =>
        { unsigned with signature := sig }

/-! ## System rows -/

/-- `appendGroupSystem(groupAt:_:)` (`ChatStoreGroups.swift:2312`). -/
def ChatGroup.appendSystem (g : ChatGroup) (text : String) : ChatGroup :=
  { g with log := g.log ++ [⟨text, .system⟩] }

/-- The row for `rejectedEquivocation`. -/
def equivocationText : String :=
  "Group integrity warning: someone signed two different versions of the same group action."

/-- The row for `rejectedMemberSetMismatch`. -/
def memberSetMismatchText : String :=
  "Group integrity warning: a group action's member list didn't match what this device has. " ++
    "The action was rejected."

/-- The row for `rejectedPreJoinHistory`. -/
def preJoinText : String :=
  "Couldn't verify group history from before you joined this group. The action was ignored."

/-- The row for a member that the local user has not paired with. -/
def unverifiedText (name : String) : String :=
  name ++ (" was added to this group. You have not personally verified their identity yet — " ++
    "only the admin who added them has.")

/-- A hex digit. -/
def hexDigit (n : Nat) : Char := "0123456789abcdef".toList.getD n '0'

/-- `short(_:)` (`ChatStore.swift:5085`). -/
def short (data : Bytes) : String :=
  String.ofList ((data.take 4).flatMap fun b => [hexDigit (b.toNat / 16), hexDigit (b.toNat % 16)])
    ++ "…"

namespace ChatStore

/-- `memberDisplayName(_:in:)` (`ChatStoreGroups.swift:1929`). -/
def memberDisplayName (s : ChatStore) (peerId : Bytes) (g : ChatGroup) : String :=
  if s.myCard = some peerId then "you"
  else
    match s.contacts.find? fun c => c.identityPub = peerId with
    | some contact => contact.displayName
    | none =>
      match g.members.find? fun m => m.peerId = peerId with
      | some m => if m.displayName = "" then short peerId else m.displayName
      | none => short peerId

/-- The loop of `applyPostMutationSideEffects` over the new members. -/
def surfaceUnverified (s : ChatStore) : List Bytes → ChatGroup → ChatGroup
  | [], g => g
  | peer :: peers, g =>
    let body := unverifiedText (s.memberDisplayName peer g)
    if s.isContact peer then s.surfaceUnverified peers g
    -- the same row is not repeated
    else if g.log.getLast? = some ⟨body, .system⟩ then s.surfaceUnverified peers g
    else s.surfaceUnverified peers (g.appendSystem body)

/-! ## After a mutation -/

/-- `ensureMySKDMReachesActiveMembers` (`ChatStoreGroups.swift:2063`). -/
def ensureMySKDMReachesActiveMembers (s : ChatStore) (session : Session) (g : ChatGroup) :
    ChatGroup × List Frame :=
  match s.myCard, g.myCurrentDistributionId with
  | some me, some myDist =>
    let needs := (others g me).filter fun peerId => peerId ∉ g.mySkdmRecipients
    if needs = [] then (g, [])
    else
      match session.senderKeyDistributionCreate myDist with
      | none => (g, [])
      | some skdm => s.shipKey skdm (fun _ => []) needs g
  | _, _ => (g, [])

/-- `rotateMyGroupChain(groupId:)` (`ChatStoreGroups.swift:1259`). -/
def rotateMyGroupChain (env : GroupEnv) (amb : Ambient) (groupId : Bytes) (s : ChatStore) :
    Option (ChatStore × List Frame) :=
  match s.session, s.myCard, s.findGroup groupId with
  | some session, some me, some g =>
    if ¬ g.hasMember me then some (s, [])
    else
      match session.senderKeyDistributionCreate amb.rotateId with
      | none => some (s, [])
      | some newSKDM =>
        match signNext env session me (.rotateSenderKey amb.rotateId) amb.rotateNow g with
        | none => none
        | some none => some (s, [])
        | some (some signedOp) =>
          match g.apply env signedOp { localIdentityPub := some me } with
          | none => none
          | some (.applied _, g', _) =>
            let g₁ : ChatGroup :=
              { g' with
                myCurrentDistributionId := some amb.rotateId
                memberDistributionIds := g'.memberDistributionIds.insert me amb.rotateId
                sentSinceRotation := 0
                lastRotatedAt := amb.rotateNow
                mySkdmRecipients := ∅ }
            match signedOp.encoded with
            | .error _ => some (s.setGroup g₁, [])
            | .ok signedBytes =>
              let shipped := s.shipKey newSKDM (s.broadcastGroupOp signedBytes) (others g₁ me) g₁
              some (s.setGroup shipped.1, shipped.2)
          | some (_, g', _) => some (s.setGroup g', [])
  | _, _, _ => some (s, [])

/-- `applyPostMutationSideEffects` (`ChatStoreGroups.swift:1988`); `g` is the
group at `gIdx`. -/
def applyPostMutationSideEffects (env : GroupEnv) (amb : Ambient) (session : Session)
    (g : ChatGroup) (sx : ApplySideEffects) (s : ChatStore) : Option (ChatStore × List Frame) :=
  let active := s.myCard.any g.hasMember
  let cleared : ChatGroup :=
    { g with
      -- removed and added again in one call: a new chain
      myCurrentDistributionId := if active then some amb.chainId else none
      mySkdmRecipients := ∅
      sentSinceRotation := 0
      lastRotatedAt := if active then amb.now else g.lastRotatedAt }
  let g₁ := if sx.requestSelfChainClear then cleared else g
  if sx.requestSelfChainClear ∧ ¬ active then some (s.setGroup g₁, [])
  else if g₁.pendingInvitation then some (s.setGroup g₁, [])
  else if sx.requestSelfRotation then rotateMyGroupChain env amb g₁.id (s.setGroup g₁)
  else
    let shipped := s.ensureMySKDMReachesActiveMembers session g₁
    some (s.setGroup (s.surfaceUnverified sx.newActiveMembers shipped.1), shipped.2)

/-! ## What the user does -/

/-- The end of an issued op: `g'` and `sx` are what `apply` left. The op goes to
every other active member, then the hooks run. -/
def publish (env : GroupEnv) (amb : Ambient) (session : Session) (me : Bytes) (signedOp : GroupOp)
    (g' : ChatGroup) (sx : ApplySideEffects) (s : ChatStore) :
    Option (Bool × ChatStore × List Frame) :=
  match signedOp.encoded with
  | .error _ => some (false, s.setGroup g', [])
  | .ok signedBytes =>
    (applyPostMutationSideEffects env amb session g' sx (s.setGroup g')).map fun r =>
      (true, r.1, s.broadcastToOthers g' me signedBytes ++ r.2)

/-- `inviteToGroup(groupId:contact:)` (`ChatStoreGroups.swift:206`). -/
def inviteToGroup (env : GroupEnv) (amb : Ambient) (groupId : Bytes) (contact : Contact)
    (s : ChatStore) : Option (Bool × ChatStore × List Frame) :=
  match s.session, s.myCard, s.findGroup groupId with
  | some session, some me, some g =>
    if g.role me ≠ some .admin then some (false, s, [])
    else if ¬ s.isContact contact.identityPub then some (false, s, [])
    else if ¬ g.activeMembers.length + 1 ≤ maxMembers then some (false, s, [])
    else if g.hasMember contact.identityPub then some (false, s, [])
    else
      match signNext env session me (.addMember contact.identityPub .member contact.displayName)
        amb.now g with
      | none => none
      | some none => some (false, s, [])
      | some (some signedOp) =>
        match g.apply env signedOp { localIdentityPub := some me } with
        | none => none
        | some (.applied _, g', sx) =>
          match signedOp.encoded with
          | .error _ => some (false, s.setGroup g', [])
          | .ok signedBytes =>
            match signBootstrap env session g' me amb.bootstrapNow with
            | none => none
            | some snapshot =>
              let bootstrapFrames := snapshot.toList.flatMap fun b =>
                s.broadcastGroupBootstrap b contact.identityPub
              (applyPostMutationSideEffects env amb session g' sx (s.setGroup g')).map fun r =>
                (true, r.1, bootstrapFrames ++ s.broadcastToOthers g' me signedBytes ++ r.2)
        | some (_, g', _) => some (false, s.setGroup g', [])
  | _, _, _ => some (false, s, [])

/-- `removeFromGroup(groupId:peerIdentity:)` (`ChatStoreGroups.swift:286`). Only a
malformed op stops it; after any other rejection the op is still sent. -/
def removeFromGroup (env : GroupEnv) (amb : Ambient) (groupId peerIdentity : Bytes)
    (s : ChatStore) : Option (Bool × ChatStore × List Frame) :=
  match s.session, s.myCard, s.findGroup groupId with
  | some session, some me, some g =>
    if g.role me ≠ some .admin then some (false, s, [])
    else if ¬ g.hasMember peerIdentity then some (false, s, [])
    else
      match signNext env session me (.removeMember peerIdentity) amb.now g with
      | none => none
      | some none => some (false, s, [])
      | some (some signedOp) =>
        match g.apply env signedOp { localIdentityPub := some me } with
        | none => none
        | some (.rejectedMalformed reason, g', _) =>
          some (false, s.setGroup
            (g'.appendSystem ("Couldn't remove this member: " ++ reason ++ ".")), [])
        | some (_, g', sx) => publish env amb session me signedOp g' sx s
  | _, _, _ => some (false, s, [])

/-- A member of `CharacterSet.whitespacesAndNewlines`. -/
def isWhitespaceOrNewline (c : Char) : Bool :=
  (0x9 ≤ c.toNat && c.toNat ≤ 0xD) || c.toNat = 0x20 || c.toNat = 0x85 || c.toNat = 0xA0 ||
    c.toNat = 0x1680 || (0x2000 ≤ c.toNat && c.toNat ≤ 0x200A) || c.toNat = 0x2028 ||
    c.toNat = 0x2029 || c.toNat = 0x202F || c.toNat = 0x205F || c.toNat = 0x3000

/-- `trimmingCharacters(in: .whitespacesAndNewlines)`. -/
def trimmed (s : String) : String :=
  String.ofList (((s.toList.dropWhile isWhitespaceOrNewline).reverse.dropWhile
    isWhitespaceOrNewline).reverse)

/-- `renameGroup(groupId:newName:)` (`ChatStoreGroups.swift:334`). -/
def renameGroup (env : GroupEnv) (amb : Ambient) (groupId : Bytes) (newName : String)
    (s : ChatStore) : Option (Bool × ChatStore × List Frame) :=
  match s.session, s.myCard, s.findGroup groupId with
  | some session, some me, some g =>
    if trimmed newName = "" then some (false, s, [])
    else if g.role me ≠ some .admin then some (false, s, [])
    else if g.displayName = trimmed newName then some (false, s, [])
    else
      match signNext env session me (.rename (trimmed newName)) amb.now g with
      | none => none
      | some none => some (false, s, [])
      | some (some signedOp) =>
        match g.apply env signedOp { localIdentityPub := some me } with
        | none => none
        | some (.applied _, g', sx) => publish env amb session me signedOp g' sx s
        | some (_, g', _) => some (false, s.setGroup g', [])
  | _, _, _ => some (false, s, [])

/-- `signAndBroadcastRoleOp(groupId:peerIdentity:kind:)` (`ChatStoreGroups.swift:388`). -/
def signAndBroadcastRoleOp (env : GroupEnv) (amb : Ambient) (groupId peerIdentity : Bytes)
    (kind : GroupOpKind) (s : ChatStore) : Option (Bool × ChatStore × List Frame) :=
  match s.session, s.myCard, s.findGroup groupId with
  | some session, some me, some g =>
    if g.role me ≠ some .admin then some (false, s, [])
    else if ¬ g.hasMember peerIdentity then some (false, s, [])
    else
      match signNext env session me kind amb.now g with
      | none => none
      | some none => some (false, s, [])
      | some (some signedOp) =>
        match g.apply env signedOp { localIdentityPub := some me } with
        | none => none
        | some (.applied _, g', sx) => publish env amb session me signedOp g' sx s
        | some (.rejectedMalformed reason, g', _) =>
          some (false, s.setGroup
            (g'.appendSystem ("Couldn't change this member's role: " ++ reason ++ ".")), [])
        | some (_, g', _) => some (false, s.setGroup g', [])
  | _, _, _ => some (false, s, [])

/-- `promoteToAdmin(groupId:peerIdentity:)` (`ChatStoreGroups.swift:369`). -/
def promoteToAdmin (env : GroupEnv) (amb : Ambient) (groupId peerIdentity : Bytes)
    (s : ChatStore) : Option (Bool × ChatStore × List Frame) :=
  signAndBroadcastRoleOp env amb groupId peerIdentity (.promoteAdmin peerIdentity) s

/-- `demoteFromAdmin(groupId:peerIdentity:)` (`ChatStoreGroups.swift:380`). -/
def demoteFromAdmin (env : GroupEnv) (amb : Ambient) (groupId peerIdentity : Bytes)
    (s : ChatStore) : Option (Bool × ChatStore × List Frame) :=
  signAndBroadcastRoleOp env amb groupId peerIdentity (.demoteAdmin peerIdentity) s

/-- `enrolMyChainOnFirstJoin(groupAt:session:)` (`ChatStoreGroups.swift:1941`). -/
def enrolMyChainOnFirstJoin (amb : Ambient) (session : Session) (g : ChatGroup) (s : ChatStore) :
    ChatGroup × List Frame :=
  match s.myCard, g.myCurrentDistributionId with
  | some me, none =>
    match session.senderKeyDistributionCreate amb.chainId with
    | none => (g, [])
    | some skdm =>
      let g₁ : ChatGroup :=
        { g with
          myCurrentDistributionId := some amb.chainId
          memberDistributionIds := g.memberDistributionIds.insert me amb.chainId
          members := updateFirst (fun m => m.peerId = me) (fun m => { m with status := .active })
            g.members
          mySkdmRecipients := ∅ }
      s.shipKey skdm (fun _ => []) (others g₁ me) g₁
  | _, _ => (g, [])

/-- `acceptGroupInvitation(groupId:)` (`ChatStoreGroups.swift:441`). -/
def acceptGroupInvitation (amb : Ambient) (groupId : Bytes) (s : ChatStore) :
    Bool × ChatStore × List Frame :=
  match s.session, s.myCard, s.findGroup groupId with
  | some session, some me, some g =>
    if ¬ g.pendingInvitation then (false, s, [])
    else if ¬ g.hasMember me then (false, s, [])
    else
      let enrolled := s.enrolMyChainOnFirstJoin amb session { g with pendingInvitation := false }
      (true, s.setGroup enrolled.1, enrolled.2)
  | _, _, _ => (false, s, [])

/-! ## What arrives -/

/-- The `Create` branch of `handleGroupOp`. -/
def handleCreate (env : GroupEnv) (op : GroupOp) (me sender : Bytes) (s : ChatStore) : ChatStore :=
  if sender ≠ op.operatorIdentity then s
  else if ¬ s.isContact op.operatorIdentity then s
  else if (s.findGroup op.groupId).isSome then s
  else if ¬ op.verifySignature env then s
  else
    match op.kind with
    | .create _ initialMembers =>
      if ¬ initialMembers.any fun m => m.peerId = me then s
      else
        match op.encoded with
        | .error _ => s
        | .ok signedBytes =>
          match ChatGroup.create env op signedBytes with
          | none => s
          | some group => { s with groups := s.groups ++ [group] }
    | _ => s

/-- The row that an outcome of `apply` puts into the group's log. -/
def outcomeText : ApplyOutcome → Option String
  | .rejectedEquivocation _ => some equivocationText
  | .rejectedMemberSetMismatch _ _ => some memberSetMismatchText
  | .rejectedPreJoinHistory _ => some preJoinText
  | _ => none

/-- `handleGroupOp(payload:fromPeer:)` (`ChatStoreGroups.swift:1383`). -/
def handleGroupOp (env : GroupEnv) (amb : Ambient) (payload sender : Bytes) (s : ChatStore) :
    Option (ChatStore × List Frame) :=
  match s.session, s.myCard with
  | some session, some me =>
    if ¬ s.readyRelays then some (s, [])
    else
      match GroupOp.decode payload with
      | none => some (s, [])
      | some op =>
        match op.kind with
        | .create _ _ => some (s.handleCreate env op me sender, [])
        | _ =>
          match s.findGroup op.groupId with
          | none => some (s, [])
          | some g =>
            match g.apply env op { localIdentityPub := some me } with
            | none => none
            | some (.applied _, g', sx) =>
              applyPostMutationSideEffects env amb session g' sx (s.setGroup g')
            | some (outcome, g', _) =>
              some (s.setGroup ((outcomeText outcome).elim g' g'.appendSystem), [])
  | _, _ => some (s, [])

/-- `handleGroupBootstrap(payload:fromPeer:)` (`ChatStoreGroups.swift:1569`). -/
def handleGroupBootstrap (env : GroupEnv) (payload sender : Bytes) (s : ChatStore) :
    Option ChatStore :=
  match s.myCard, splitGroupId payload with
  | some me, some (envelopeGroupId, bootstrapBytes) =>
    match GroupBootstrap.decode bootstrapBytes with
    | none => some s
    | some bootstrap =>
      if envelopeGroupId ≠ bootstrap.groupId then some s
      else if sender ≠ bootstrap.operatorIdentity then some s
      else if ¬ s.isContact bootstrap.operatorIdentity then some s
      else if ¬ bootstrap.verifySignature env then some s
      else
        match bootstrap.verifyMemberSetRoot env with
        | none => none
        | some false => some s
        | some true =>
          if ¬ bootstrap.members.any fun m =>
            m.peerId = bootstrap.operatorIdentity && m.role = .admin && m.status ≠ .removed
          then some s
          else if ¬ bootstrap.members.any fun m => m.peerId = me then some s
          else if (s.findGroup bootstrap.groupId).isSome then some s
          else
            match bootstrap.intoChatGroup me with
            | none => some s
            | some group => some { s with groups := s.groups ++ [group] }
  | _, _ => some s

/-- `distributionIdCollidesAcrossGroups` (`ChatStoreGroups.swift:1676`). -/
def distributionIdCollidesAcrossGroups (groups : List ChatGroup) (targetGroupId sender : Bytes)
    (dist : UUID) : Bool :=
  groups.any fun g =>
    g.id ≠ targetGroupId &&
      (g.memberDistributionIds.lookup sender = some dist ||
        ((g.previousMemberDistributionIds.lookup sender).getD []).contains dist)

/-- `handleGroupKeyDistribution(payload:fromPeer:)` (`ChatStoreGroups.swift:1702`). -/
def handleGroupKeyDistribution (env : GroupEnv) (amb : Ambient) (payload sender : Bytes)
    (s : ChatStore) : Option (ChatStore × List Frame) :=
  match s.session, splitGroupId payload with
  | some session, some (groupId, skdm) =>
    if ¬ s.readyRelays then some (s, [])
    else
      match s.findGroup groupId with
      | none => some (s, [])
      | some g =>
        if ¬ g.hasMember sender then some (s, [])
        else
          match session.senderKeyDistributionProcess sender skdm with
          | none => some (s, [])
          | some dist =>
            if distributionIdCollidesAcrossGroups s.groups groupId sender dist then some (s, [])
            else
              let g₁ := g.setMemberDistId dist sender
              let g₂ : ChatGroup :=
                { g₁ with
                  members := updateFirst (fun m => m.peerId = sender && m.status = .pendingSKDM)
                    (fun m => { m with status := .active }) g₁.members }
              applyPostMutationSideEffects env amb session g₂ { localIdentityPub := s.myCard }
                (s.setGroup g₂)
  | _, _ => some (s, [])

/-- The receive dispatch for the three kinds of frames. -/
def receive (env : GroupEnv) (amb : Ambient) (sender : Bytes) (frame : Frame) (s : ChatStore) :
    Option (ChatStore × List Frame) :=
  match frame.kind with
  | .groupOp => s.handleGroupOp env amb frame.body sender
  | .groupBootstrap => (s.handleGroupBootstrap env frame.body sender).map fun s' => (s', [])
  | .groupKeyDistribution => s.handleGroupKeyDistribution env amb frame.body sender

end ChatStore

end Pizzini.Group
