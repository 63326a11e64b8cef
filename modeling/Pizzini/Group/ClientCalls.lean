import Pizzini.Group.GroupSend
import Pizzini.Group.Issue
import Pizzini.Group.SQLiteStorage
import Pizzini.Lib.Runs

/-!
# Runs of one client

Everything that changes the groups of one device, as the events of a run: a call of
`ChatStoreGroups` by the user or by the receive loop, a relaunch, and the rest of the app
around them. A run also remembers what the properties of sender keys speak about and the
store does not keep: the frames handed to the transport, the ids drawn by `UUID()`, the ops
that arrived.

A relaunch loads the groups that the last writes left. Each call writes the group it has
changed before it returns, so the rows are those of the groups held; a group whose write
failed is not there any more.
-/

namespace Pizzini.Group

open Wire

/-! ## Calls -/

/-- A call of `ChatStoreGroups` that touches the members or the sender key of a group. -/
inductive Call where
  | receive (sender : Bytes) (frame : Frame)
  | createGroup (groupId : FixedBytes 16) (name : String) (initialContacts : List Contact)
  | inviteToGroup (groupId : Bytes) (contact : Contact)
  | removeFromGroup (groupId peerIdentity : Bytes)
  | renameGroup (groupId : Bytes) (newName : String)
  | promoteToAdmin (groupId peerIdentity : Bytes)
  | demoteFromAdmin (groupId peerIdentity : Bytes)
  | acceptGroupInvitation (groupId : Bytes)
  | declineGroupInvitation (groupId : Bytes)
  | leaveGroup (groupId : Bytes)
  | resendMyKeys (groupId : Bytes)
  | rotateMyGroupChain (groupId : Bytes)
  | sendGroupMessage (groupId : Bytes) (text : String)
  | sendGroupAttachment (groupId : Bytes) (safeName : String) (blocked : Bool)
  | shipPreparedGroupAttachment (groupId : Bytes)

namespace Call

/-- The store after a call and the frames it hands to the transport. -/
def perform (env : GroupEnv) (amb : Ambient) (s : ChatStore) :
    Call → Option (ChatStore × List Frame)
  | .receive sender frame => s.receive env amb sender frame
  | .createGroup groupId name initialContacts =>
    (s.createGroup env amb groupId name initialContacts).map Prod.snd
  | .inviteToGroup groupId contact => (s.inviteToGroup env amb groupId contact).map Prod.snd
  | .removeFromGroup groupId peerIdentity =>
    (s.removeFromGroup env amb groupId peerIdentity).map Prod.snd
  | .renameGroup groupId newName => (s.renameGroup env amb groupId newName).map Prod.snd
  | .promoteToAdmin groupId peerIdentity =>
    (s.promoteToAdmin env amb groupId peerIdentity).map Prod.snd
  | .demoteFromAdmin groupId peerIdentity =>
    (s.demoteFromAdmin env amb groupId peerIdentity).map Prod.snd
  | .acceptGroupInvitation groupId => some (s.acceptGroupInvitation amb groupId).2
  | .declineGroupInvitation groupId => some ((s.declineGroupInvitation groupId).2, [])
  | .leaveGroup groupId => (s.leaveGroup env amb groupId).map Prod.snd
  | .resendMyKeys groupId => some (s.resendMyKeys groupId).2
  | .rotateMyGroupChain groupId => s.rotateMyGroupChain env amb groupId
  | .sendGroupMessage groupId text =>
    (s.beginGroupMessage env amb groupId text).map fun r => (r.1, r.2.1)
  | .sendGroupAttachment groupId safeName blocked =>
    (s.beginGroupAttachment env amb groupId safeName blocked).map Prod.snd
  | .shipPreparedGroupAttachment groupId => some ((s.beginGroupChunks groupId).1, [])

/-- The op that arrives with a call. -/
def op : Call → Option GroupOp
  | .receive _ ⟨_, .groupOp, body⟩ => GroupOp.decode body
  | _ => none

end Call

/-! ## What happens between calls -/

/-- The rest of the send and receive paths writes rows and counts messages. -/
def Bookkept (g h : ChatGroup) : Prop :=
  ∃ log sentSinceRotation, h = { g with log := log, sentSinceRotation := sentSinceRotation }

/-- `h` is what `loadGroups` makes of the row that `upsertGroup` wrote for `g`. -/
def FromDisk (g h : ChatGroup) : Prop :=
  ∃ db db' createdAt, Written db ∧ upsertGroup g db = some db' ∧
    h = loadGroup db' { groupRow g with createdAt := createdAt }

/-- The groups of a relaunch: some of those held, each from its row. -/
def Relaunched (groups groups' : List ChatGroup) : Prop :=
  ∃ kept, kept.Subperm groups ∧ List.Forall₂ FromDisk kept groups'

/-! ## The client -/

/-- A device, and what its past says. -/
structure Client where
  store : ChatStore
  /-- Every frame handed to the transport so far. -/
  sent : List Frame
  /-- Every id that `UUID()` has returned. -/
  minted : List UUID
  /-- Every op that has arrived. -/
  received : List GroupOp

/-- A client that has no group yet. -/
def Client.fresh (s : ChatStore) : Client where
  store := { s with groups := [] }
  sent := []
  minted := []
  received := []

/-- What happens to a client. -/
inductive Event where
  | call (amb : Ambient) (call : Call)
  | bookkeeping (groups : List ChatGroup)
  | relaunch (groups : List ChatGroup)
  /-- The session moves on, relays come and go, contacts are added and deleted. -/
  | surroundings (session : Option Session) (readyRelays : Bool) (contacts : List Contact)

/-- The client after a call that answered `s'` and `frames`. -/
def Client.after (c : Client) (amb : Ambient) (call : Call) (s' : ChatStore) (frames : List Frame) :
    Client where
  store := s'
  sent := c.sent ++ frames
  minted := [amb.rotateId, amb.chainId] ++ c.minted
  received := call.op.toList ++ c.received

/-- The client with other groups. -/
def Client.withGroups (c : Client) (groups : List ChatGroup) : Client :=
  { c with store := { c.store with groups := groups } }

/-- One event. A call that traps is not a step: the process is gone, and a relaunch follows. -/
def Client.Step (env : GroupEnv) (c : Client) : Event → Client → Prop
  | .call amb call, c' =>
    ∃ s' frames, call.perform env amb c.store = some (s', frames) ∧ c' = c.after amb call s' frames
  | .bookkeeping groups, c' =>
    List.Forall₂ Bookkept c.store.groups groups ∧ c' = c.withGroups groups
  | .relaunch groups, c' => Relaunched c.store.groups groups ∧ c' = c.withGroups groups
  | .surroundings session readyRelays contacts, c' =>
    c' = { c with
      store := { c.store with
        session := session
        readyRelays := readyRelays
        contacts := contacts } }

/-! ## Sender keys on the wire -/

/-- The distribution id of the sender key in a frame, if it carries one. `keyId` is the id
that a key distribution message names. -/
def Frame.keyOf (keyId : Bytes → Option UUID) (f : Frame) : Option UUID :=
  match f.kind with
  | .groupKeyDistribution => (ChatStore.splitGroupId f.body).bind fun parts => keyId parts.2
  | _ => none

/-- `peer` was handed a sender key for `dist`. -/
def Handed (keyId : Bytes → Option UUID) (sent : List Frame) (peer : Bytes) (dist : UUID) : Prop :=
  ∃ f ∈ sent, f.recipient = peer ∧ f.keyOf keyId = some dist

/-- What the code relies on in the session of the local user `me`: a rotation can be signed
and the signature verifies, and `senderKeyDistributionCreate` answers with a message for the
id it was asked for. -/
structure Capable (env : GroupEnv) (keyId : Bytes → Option UUID) (me : Bytes) (session : Session) :
    Prop where
  signs : ∀ (op : GroupOp) (dist : UUID) (header : Bytes), op.operatorIdentity = me →
    op.kind = .rotateSenderKey dist → op.encodedHeader = .ok header →
    ∃ sig, session.identitySign .groupOp header = some sig ∧ sig.length = signatureSize ∧
      env.verifyGroupOp me header sig = true
  mints : ∀ dist, ∃ skdm, session.senderKeyDistributionCreate dist = some skdm ∧
    keyId skdm = some dist

end Pizzini.Group
