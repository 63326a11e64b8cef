import Pizzini.Group.GroupOp

/-!
# The apply state machine (`pizzini/pizzini/GroupApply.swift`)

`ChatGroup.apply` takes one signed op: it applies the op if it is the next in
the chain, parks it if its predecessors are missing, and refuses it otherwise.
After an op is applied the parked ops are replayed.

The functions pass the group and the accumulated side effects explicitly; `none`
is a trap (`nextEpoch`, `memberSetRoot`). `apply` and `applyAlreadyParked` each
check an op on their own, as in the source; `apply_next` and
`applyAlreadyParked_next` say that both come down to one function, `applyNext`,
for an op at the next epoch.
-/

namespace Pizzini.Group

open Wire

/-- `ApplyOutcome` (`GroupApply.swift:22`). -/
inductive ApplyOutcome where
  | applied (epoch : UInt64)
  | queued (epoch : UInt64)
  | rejectedDuplicate
  | rejectedEquivocation (epoch : UInt64)
  | rejectedSignature
  | rejectedAuthorization
  | rejectedMalformed (reason : String)
  | rejectedMemberSetMismatch (localRoot claimed : Bytes)
  | rejectedPreJoinHistory (epoch : UInt64)
deriving DecidableEq

/-- `ApplySideEffects` (`GroupApply.swift:92`). `newActiveMembers` lists the
peers in the order of insertion; the source's `Set` has no order. -/
structure ApplySideEffects where
  newActiveMembers : List Bytes := []
  requestSelfRotation : Bool := false
  requestSelfChainClear : Bool := false
  equivocationEpoch : Option UInt64 := none
  rolesChanged : Bool := false
  localIdentityPub : Option Bytes := none
deriving DecidableEq

/-- `MutationOutcome` (`GroupApply.swift:595`). -/
inductive MutationOutcome where
  | ok
  | rejected (reason : String)
deriving DecidableEq

/-- Change the first row that passes `p` (`firstIndex(where:)` and an update). -/
def updateFirst (p : GroupMember → Bool) (f : GroupMember → GroupMember) :
    List GroupMember → List GroupMember
  | [] => []
  | m :: ms => if p m then f m :: ms else m :: updateFirst p f ms

/-- A fresh or returning peer other than the local user. -/
def ApplySideEffects.joined (sx : ApplySideEffects) (peerId : Bytes) : ApplySideEffects :=
  if some peerId ≠ sx.localIdentityPub then
    { sx with newActiveMembers := sx.newActiveMembers.insert peerId }
  else sx

namespace ChatGroup

/-! ## Mutations -/

/-- `activeMembers.filter { $0.role == .admin }`. -/
def activeAdmins (g : ChatGroup) : List GroupMember :=
  g.activeMembers.filter fun m => m.role = .admin

/-- The last-admin test of `mutateRemoveMember` and `mutateDemoteAdmin`:
`activeAdmins.count == 1, activeAdmins[0].peerId == peerId`. -/
def isLastAdmin (g : ChatGroup) (peerId : Bytes) : Bool :=
  match g.activeAdmins with
  | [admin] => admin.peerId = peerId
  | _ => false

/-- `mutateAddMember` (`GroupApply.swift:475`). -/
def mutateAddMember (g : ChatGroup) (peerId : Bytes) (role : GroupRole) (displayName : String)
    (addedBy : Bytes) (epoch : UInt64) (sx : ApplySideEffects) :
    MutationOutcome × ChatGroup × ApplySideEffects :=
  if peerId.length ≠ identityKeySize then (.rejected "invalid peerId length", g, sx)
  else
    let row : GroupMember := ⟨peerId, displayName, role, epoch, .pendingSKDM, some addedBy⟩
    match g.members.find? fun m => m.peerId = peerId with
    | some old =>
      if old.status ≠ .removed then (.rejected "member already active in group", g, sx)
      else if maxMembers ≤ g.activeMembers.length then (.rejected "group at member cap", g, sx)
      else
        (.ok,
          { g with
            members := updateFirst (fun m => m.peerId = peerId) (fun _ => row) g.members
            memberDistributionIds := g.memberDistributionIds.erase peerId
            previousMemberDistributionIds := g.previousMemberDistributionIds.erase peerId },
          sx.joined peerId)
    | none =>
      if maxMembers ≤ g.activeMembers.length then (.rejected "group at member cap", g, sx)
      else (.ok, { g with members := g.members ++ [row] }, sx.joined peerId)

/-- `mutateRemoveMember` (`GroupApply.swift:534`). -/
def mutateRemoveMember (g : ChatGroup) (peerId : Bytes) (sx : ApplySideEffects) :
    MutationOutcome × ChatGroup × ApplySideEffects :=
  if ¬ g.hasMember peerId then (.rejected "member not in group", g, sx)
  else if g.isLastAdmin peerId then (.rejected "cannot remove the last admin", g, sx)
  else
    let g' :=
      { g with
        members := updateFirst (fun m => m.peerId = peerId && m.status ≠ .removed)
          (fun m => { m with status := .removed }) g.members
        memberDistributionIds := g.memberDistributionIds.erase peerId
        previousMemberDistributionIds := g.previousMemberDistributionIds.erase peerId
        mySkdmRecipients := g.mySkdmRecipients.erase peerId }
    match sx.localIdentityPub with
    | some me =>
      if peerId = me then (.ok, g', { sx with requestSelfChainClear := true })
      else if g'.hasMember me then (.ok, g', { sx with requestSelfRotation := true })
      else (.ok, g', sx)
    | none => (.ok, g', sx)

/-- `mutatePromoteAdmin` (`GroupApply.swift:571`). -/
def mutatePromoteAdmin (g : ChatGroup) (peerId : Bytes) : MutationOutcome × ChatGroup :=
  if ¬ g.hasMember peerId then (.rejected "target not in group", g)
  else
    (.ok,
      { g with
        members := updateFirst (fun m => m.peerId = peerId && m.status ≠ .removed)
          (fun m => { m with role := .admin }) g.members })

/-- `mutateDemoteAdmin` (`GroupApply.swift:581`). -/
def mutateDemoteAdmin (g : ChatGroup) (peerId : Bytes) : MutationOutcome × ChatGroup :=
  if ¬ g.hasMember peerId then (.rejected "target not in group", g)
  else if g.isLastAdmin peerId then (.rejected "cannot demote the last admin", g)
  else
    (.ok,
      { g with
        members := updateFirst (fun m => m.peerId = peerId && m.status ≠ .removed)
          (fun m => { m with role := .member }) g.members })

/-- `executeMutation` (`GroupApply.swift:429`). -/
def executeMutation (g : ChatGroup) (op : GroupOp) (sx : ApplySideEffects) :
    MutationOutcome × ChatGroup × ApplySideEffects :=
  match op.kind with
  | .create .. => (.rejected "Create must use ChatGroup.create(fromCreate:...)", g, sx)
  | .addMember peerId role displayName =>
    g.mutateAddMember peerId role displayName op.operatorIdentity op.epoch sx
  | .removeMember peerId => g.mutateRemoveMember peerId sx
  | .rename newName => (.ok, { g with displayName := newName }, sx)
  | .promoteAdmin peerId =>
    let r := g.mutatePromoteAdmin peerId
    (r.1, r.2, { sx with rolesChanged := true })
  | .demoteAdmin peerId =>
    let r := g.mutateDemoteAdmin peerId
    (r.1, r.2, { sx with rolesChanged := true })
  | .rotateSenderKey newDistributionId =>
    (.ok, g.setMemberDistId newDistributionId op.operatorIdentity, sx)

/-! ## Checks -/

/-- A non-removed admin row of `peerId`. -/
def hasAdmin (g : ChatGroup) (peerId : Bytes) : Bool :=
  g.members.any fun m => m.peerId = peerId && m.role = .admin && m.status ≠ .removed

/-- `isAuthorised` (`GroupApply.swift:403`). -/
def isAuthorised (g : ChatGroup) (operatorIdentity : Bytes) : GroupOpKind → Bool
  | .rotateSenderKey _ => g.hasMember operatorIdentity
  | .create .. => false
  | _ => g.hasAdmin operatorIdentity

/-- `memberSetRootMismatch(for:)` (`GroupApply.swift:423`); the outer `none` is
the trap of `memberSetRoot`. -/
def memberSetRootMismatch (env : GroupEnv) (g : ChatGroup) (op : GroupOp) :
    Option (Option ApplyOutcome) :=
  (g.memberSetRoot env).map fun localRoot =>
    if op.priorMemberSetRoot ≠ localRoot then
      some (.rejectedMemberSetMismatch localRoot op.priorMemberSetRoot)
    else none

/-! ## The queue of parked ops -/

/-- How many parked ops decode to an op of `operatorIdentity`. -/
def parkedBy (pendingOps : List Bytes) (operatorIdentity : Bytes) : Nat :=
  pendingOps.countP fun bytes =>
    match GroupOp.decode bytes with
    | some op => op.operatorIdentity = operatorIdentity
    | none => false

/-- `queuePending` (`GroupApply.swift:338`). -/
def queuePending (g : ChatGroup) (signedBytes : Bytes) : ChatGroup :=
  if pendingOpsCap ≤ g.pendingOps.length then g
  else if signedBytes ∈ g.pendingOps then g
  else
    match GroupOp.decode signedBytes with
    | some incoming =>
      if pendingOpsPerOperatorCap ≤ parkedBy g.pendingOps incoming.operatorIdentity then g
      else { g with pendingOps := g.pendingOps ++ [signedBytes] }
    | none => { g with pendingOps := g.pendingOps ++ [signedBytes] }

/-- The group at a new position of the chain. -/
def advance (g : ChatGroup) (epoch : UInt64) (opDigest : Bytes) : ChatGroup :=
  ({ g with currentEpoch := epoch, lastOpDigest := opDigest } : ChatGroup).recordDigest
    opDigest epoch

/-- `applyAlreadyParked` (`GroupApply.swift:366`). -/
def applyAlreadyParked (env : GroupEnv) (op : GroupOp) (signedBytes : Bytes) (g : ChatGroup)
    (sx : ApplySideEffects) : Option (ApplyOutcome × ChatGroup × ApplySideEffects) :=
  match nextEpoch g.currentEpoch with
  | none => none
  | some expected =>
    if op.epoch ≠ expected then
      some (.rejectedMalformed "applyAlreadyParked invariant: epoch != currentEpoch + 1", g, sx)
    else
      let opDigest := env.hash signedBytes
      if ¬ op.verifySignature env then some (.rejectedSignature, g, sx)
      else if op.parentDigest ≠ g.lastOpDigest then
        some (.rejectedEquivocation op.epoch, g, { sx with equivocationEpoch := some op.epoch })
      else if ¬ g.isAuthorised op.operatorIdentity op.kind then
        some (.rejectedAuthorization, g, sx)
      else
        match g.memberSetRootMismatch env op with
        | none => none
        | some (some mismatch) => some (mismatch, g, sx)
        | some none =>
          match g.executeMutation op sx with
          | (.ok, g', sx') => some (.applied op.epoch, g'.advance op.epoch opDigest, sx')
          | (.rejected reason, g', sx') => some (.rejectedMalformed reason, g', sx')

/-- The drain loop of `replayPending` over the sorted entries: the bytes that
stay parked, and the group. -/
def replayLoop (env : GroupEnv) :
    List (GroupOp × Bytes) → ChatGroup → ApplySideEffects →
      Option (List Bytes × ChatGroup × ApplySideEffects)
  | [], g, sx => some ([], g, sx)
  | (op, bytes) :: rest, g, sx =>
    -- already superseded
    if op.epoch ≤ g.currentEpoch then replayLoop env rest g sx
    else
      match nextEpoch g.currentEpoch with
      | none => none
      | some expected =>
        -- applied or known to be bad: the entry goes either way
        if op.epoch = expected then
          match applyAlreadyParked env op bytes g sx with
          | none => none
          | some (_, g', sx') => replayLoop env rest g' sx'
        -- the gap is still open
        else (replayLoop env rest g sx).map fun r => (bytes :: r.1, r.2)

/-- The parked ops that decode, with their bytes. -/
def decodePending (pendingOps : List Bytes) : List (GroupOp × Bytes) :=
  pendingOps.filterMap fun bytes => (GroupOp.decode bytes).map fun op => (op, bytes)

/-- `decoded.sort { $0.epoch < $1.epoch }`, a stable sort. -/
def sortByEpoch (decoded : List (GroupOp × Bytes)) : List (GroupOp × Bytes) :=
  decoded.insertionSort fun a b => a.1.epoch ≤ b.1.epoch

/-- `replayPending(sideEffects:)` (`GroupApply.swift:278`). -/
def replayPending (env : GroupEnv) (g : ChatGroup) (sx : ApplySideEffects) :
    Option (ChatGroup × ApplySideEffects) :=
  if g.pendingOps = [] then some (g, sx)
  else
    (replayLoop env (sortByEpoch (decodePending g.pendingOps)) g sx).map
      fun (kept, g', sx') => ({ g' with pendingOps := kept }, sx')

/-! ## `apply` -/

/-- `members.first(where: { $0.peerId == localId })?.joinedAtEpoch` of the local
user, when there is one. -/
def localJoinedAt (g : ChatGroup) (sx : ApplySideEffects) : Option UInt64 :=
  sx.localIdentityPub.bind fun localId =>
    (g.members.find? fun m => m.peerId = localId).map GroupMember.joinedAtEpoch

/-- The branch for an op at an epoch that is already taken. -/
def applyPast (g : ChatGroup) (op : GroupOp) (opDigest : Bytes) (sx : ApplySideEffects) :
    ApplyOutcome × ChatGroup × ApplySideEffects :=
  if (g.localJoinedAt sx).any fun joinedAt => op.epoch < joinedAt then
    (.rejectedPreJoinHistory op.epoch, g, sx)
  else if (g.digest op.epoch).any fun known => known ≠ opDigest then
    (.rejectedEquivocation op.epoch, g, { sx with equivocationEpoch := some op.epoch })
  else (.rejectedDuplicate, g, sx)

/-- `apply(_:sideEffects:)` (`GroupApply.swift:151`). -/
def apply (env : GroupEnv) (op : GroupOp) (g : ChatGroup) (sx : ApplySideEffects) :
    Option (ApplyOutcome × ChatGroup × ApplySideEffects) :=
  if op.groupId ≠ g.id then some (.rejectedMalformed "groupId mismatch", g, sx)
  else
    match op.encoded with
    | .error _ => some (.rejectedMalformed "could not encode op", g, sx)
    | .ok signedBytes =>
      let opDigest := env.hash signedBytes
      if ¬ op.verifySignature env then some (.rejectedSignature, g, sx)
      else
        match nextEpoch g.currentEpoch with
        | none => none
        | some expectedEpoch =>
          if op.epoch < expectedEpoch then some (g.applyPast op opDigest sx)
          else if expectedEpoch < op.epoch then
            some (.queued op.epoch, g.queuePending signedBytes, sx)
          else if op.parentDigest ≠ g.lastOpDigest then
            some (.rejectedEquivocation op.epoch, g,
              { sx with equivocationEpoch := some op.epoch })
          else if ¬ g.isAuthorised op.operatorIdentity op.kind then
            some (.rejectedAuthorization, g, sx)
          else
            match g.memberSetRootMismatch env op with
            | none => none
            | some (some mismatch) => some (mismatch, g, sx)
            | some none =>
              match g.executeMutation op sx with
              | (.ok, g', sx') =>
                (replayPending env (g'.advance op.epoch opDigest) sx').map
                  fun (g'', sx'') => (.applied op.epoch, g'', sx'')
              | (.rejected reason, g', sx') => some (.rejectedMalformed reason, g', sx')

/-- `ChatGroup.create(fromCreate:signedBytes:localIdentityPub:)`
(`GroupApply.swift:618`). -/
def create (env : GroupEnv) (op : GroupOp) (signedBytes : Bytes) : Option ChatGroup :=
  match op.kind with
  | .create name initialMembers =>
    if op.epoch ≠ 0 then none
    else if op.parentDigest ≠ GroupOp.zeroParentDigest then none
    else if op.groupId.length ≠ groupIdSize then none
    else if maxMembers < initialMembers.length then none
    else if ¬ initialMembers.any fun m => m.peerId = op.operatorIdentity then none
    else if ¬ (initialMembers.map GroupOpInitialMember.peerId).Nodup then none
    else
      let opDigest := env.hash signedBytes
      some
        { id := op.groupId
          displayName := name
          members := initialMembers.map fun spec =>
            { peerId := spec.peerId
              displayName := spec.displayName
              role := if spec.peerId = op.operatorIdentity then .admin else spec.role
              joinedAtEpoch := 0
              status := .pendingSKDM
              addedBy := some op.operatorIdentity }
          createdAt := op.timestampMillis
          currentEpoch := 0
          lastOpDigest := opDigest
          pendingOps := []
          log := []
          myCurrentDistributionId := none
          memberDistributionIds := ∅
          previousMemberDistributionIds := ∅
          sentSinceRotation := 0
          lastRotatedAt := op.timestampMillis
          mySkdmRecipients := ∅
          recentOpDigests := (∅ : Dict UInt64 Bytes).insert 0 opDigest
          pendingInvitation := true }
  | _ => none

end ChatGroup

end Pizzini.Group
