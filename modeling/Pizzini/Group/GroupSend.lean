import Pizzini.Group.ChatStoreGroups

/-!
# Creating, leaving and sending (`pizzini/pizzini/ChatStoreGroups.swift`)

The rest of what the user does with a group: create it, decline or leave it, ship the keys
again, send a message or a file. Of a send this module has what comes before the encryption:
the checks, the rotation that may be due, and the chain that the message is encrypted under.
-/

namespace Pizzini.Group

open Wire

/-! ## When a rotation is due (Group.swift:220–227) -/

/-- `ChatGroup.rotationTimeThreshold`: seven days, in milliseconds. -/
def rotationTimeThreshold : Int := 7 * 24 * 60 * 60 * 1000

/-- `ChatGroup.rotationMessageThreshold`. -/
def rotationMessageThreshold : UInt32 := 256

/-- `shouldRotateBeforeSend(groupAt:)` (`ChatStoreGroups.swift:1365`). -/
def ChatGroup.shouldRotateBeforeSend (g : ChatGroup) (now : UInt64) : Bool :=
  rotationMessageThreshold ≤ g.sentSinceRotation ||
    rotationTimeThreshold ≤ (now.toNat : Int) - g.lastRotatedAt.toNat

/-! ## System rows of a send -/

def notMemberText : String := "You are no longer a member of this group."

def notReadyText : String :=
  "Group encryption isn't ready yet — waiting for keys to arrive from other members."

def blockedNameText (safeName : String) : String :=
  "Can't send " ++ safeName ++
    ": files of this type can run when tapped on iOS. Pizzini blocks them at send."

namespace ChatStore

/-! ## Creating, declining, leaving -/

/-- `createGroup(name:initialContacts:)` (`ChatStoreGroups.swift:77`); `groupId` is the
sixteen random bytes. -/
def createGroup (env : GroupEnv) (amb : Ambient) (groupId : FixedBytes 16) (name : String)
    (initialContacts : List Contact) (s : ChatStore) : Option (Bool × ChatStore × List Frame) :=
  match s.session, s.myCard with
  | some session, some me =>
    if ¬ s.readyRelays then some (false, s, [])
    else if trimmed name = "" then some (false, s, [])
    else if ¬ initialContacts.length + 1 ≤ maxMembers then some (false, s, [])
    else if ¬ initialContacts.all fun c => s.isContact c.identityPub then some (false, s, [])
    else if ¬ (initialContacts.map Contact.identityPub).Nodup then some (false, s, [])
    else
      let members : List GroupOpInitialMember := ⟨me, .admin, ""⟩ ::
        initialContacts.map fun c => ⟨c.identityPub, .member, c.displayName⟩
      match memberSetRootOf env [] with
      | none => none
      | some root =>
        match signOp session groupId.1 0 GroupOp.zeroParentDigest me root
          (.create (trimmed name) members) amb.now with
        | none => some (false, s, [])
        | some signedOp =>
          match signedOp.encoded with
          | .error _ => some (false, s, [])
          | .ok signedBytes =>
            match ChatGroup.create env signedOp signedBytes with
            | none => some (false, s, [])
            | some group =>
              match session.senderKeyDistributionCreate amb.chainId with
              | none => some (false, s, [])
              | some mySKDM =>
                let group : ChatGroup :=
                  { group with
                    pendingInvitation := false
                    myCurrentDistributionId := some amb.chainId
                    memberDistributionIds := group.memberDistributionIds.insert me amb.chainId
                    members := updateFirst (fun m => m.peerId = me)
                      (fun m => { m with status := .active }) group.members }
                let shipped := s.shipKey mySKDM (s.broadcastGroupOp signedBytes)
                  (initialContacts.map Contact.identityPub) group
                some (true, { s with groups := s.groups ++ [shipped.1] }, shipped.2)
  | _, _ => some (false, s, [])

/-- `state.groups.remove(at: gIdx)`. -/
def removeGroup (s : ChatStore) (groupId : Bytes) : ChatStore :=
  { s with groups := s.groups.eraseP fun g => g.id = groupId }

/-- `declineGroupInvitation(groupId:)` (`ChatStoreGroups.swift:471`). -/
def declineGroupInvitation (groupId : Bytes) (s : ChatStore) : Bool × ChatStore :=
  match s.findGroup groupId with
  | some g => if g.pendingInvitation then (true, s.removeGroup groupId) else (false, s)
  | none => (false, s)

/-- `leaveGroup(groupId:)` (`ChatStoreGroups.swift:555`): a rotation, then the group goes. -/
def leaveGroup (env : GroupEnv) (amb : Ambient) (groupId : Bytes) (s : ChatStore) :
    Option (Bool × ChatStore × List Frame) :=
  match s.findGroup groupId with
  | none => some (false, s, [])
  | some g =>
    if g.myCurrentDistributionId.isSome then
      (rotateMyGroupChain env amb groupId s).map fun r => (true, r.1.removeGroup groupId, r.2)
    else some (true, s.removeGroup groupId, [])

/-! ## Keys again -/

/-- `resendMyKeys(groupId:)` (`ChatStoreGroups.swift:1324`). -/
def resendMyKeys (groupId : Bytes) (s : ChatStore) : Bool × ChatStore × List Frame :=
  match s.session, s.myCard, s.findGroup groupId with
  | some session, some me, some g =>
    match g.myCurrentDistributionId with
    | none => (false, s, [])
    | some myDist =>
      if g.pendingInvitation then (false, s, [])
      else
        match session.senderKeyDistributionCreate myDist with
        | none => (false, s, [])
        | some skdm =>
          let shipped := s.shipKey skdm (fun _ => []) (others g me) { g with mySkdmRecipients := ∅ }
          (true, s.setGroup shipped.1, shipped.2)
  | _, _, _ => (false, s, [])

/-! ## Sending -/

/-- The rotation in front of a send. -/
def rotateBeforeSend (env : GroupEnv) (amb : Ambient) (g : ChatGroup) (s : ChatStore) :
    Option (ChatStore × List Frame) :=
  if g.shouldRotateBeforeSend amb.now then rotateMyGroupChain env amb g.id s else some (s, [])

/-- The chain that a group message is encrypted under, or the row that says why there is
none. -/
def currentChain (groupId : Bytes) (s : ChatStore) : ChatStore × Option UUID :=
  match s.findGroup groupId with
  | none => (s, none)
  | some g =>
    match g.myCurrentDistributionId with
    | some myDist => (s, some myDist)
    | none => (s.setGroup (g.appendSystem notReadyText), none)

/-- `sendGroupMessage(groupId:text:)` up to `groupEncrypt` (`ChatStoreGroups.swift:579`): the
distribution id it encrypts under, if it comes to that. -/
def beginGroupMessage (env : GroupEnv) (amb : Ambient) (groupId : Bytes) (text : String)
    (s : ChatStore) : Option (ChatStore × List Frame × Option UUID) :=
  if trimmed text = "" then some (s, [], none)
  else
    match s.session, s.myCard, s.findGroup groupId with
    | some _, some me, some g =>
      if ¬ g.hasMember me then some (s.setGroup (g.appendSystem notMemberText), [], none)
      else if g.pendingInvitation then some (s, [], none)
      else
        (rotateBeforeSend env amb g s).map fun r =>
          let chain := r.1.currentChain groupId
          (chain.1, r.2, chain.2)
    | _, _, _ => some (s, [], none)

/-- `sendGroupAttachment` up to the pass off the main actor (`ChatStoreGroups.swift:782`).
`blocked` is `isBlockedAtSend` of the sanitized name. The answer says whether the file is
read. -/
def beginGroupAttachment (env : GroupEnv) (amb : Ambient) (groupId : Bytes) (safeName : String)
    (blocked : Bool) (s : ChatStore) : Option (Bool × ChatStore × List Frame) :=
  match s.session, s.myCard, s.findGroup groupId with
  | some _, some me, some g =>
    if ¬ g.hasMember me then some (false, s.setGroup (g.appendSystem notMemberText), [])
    else if g.pendingInvitation then some (false, s, [])
    else if blocked then some (false, s.setGroup (g.appendSystem (blockedNameText safeName)), [])
    else (rotateBeforeSend env amb g s).map fun r => (true, r)
  | _, _, _ => some (false, s, [])

/-- `shipPreparedGroupAttachment` up to its loop (`ChatStoreGroups.swift:919`): the checks
again, and the distribution id that every chunk is encrypted under. -/
def beginGroupChunks (groupId : Bytes) (s : ChatStore) : ChatStore × Option UUID :=
  match s.session, s.myCard, s.findGroup groupId with
  | some _, some me, some g =>
    if ¬ g.hasMember me then (s.setGroup (g.appendSystem notMemberText), none)
    else if g.pendingInvitation then (s, none)
    else s.currentChain groupId
  | _, _, _ => (s, none)

end ChatStore

end Pizzini.Group
