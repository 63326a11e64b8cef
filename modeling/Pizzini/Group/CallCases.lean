import Pizzini.Group.KeyShipping

/-!
# What one call does

`Does` lists the ways in which a call of `ChatStoreGroups` can change the groups of a device,
with the guards that the call has checked on the way. `perform_does` is the one proof that
takes the calls apart; what a call keeps is proved by cases on `Does`.
-/

namespace Pizzini.Group

open Wire ChatGroup ChatStore

variable {env : GroupEnv} {amb : Ambient} {s s' : ChatStore} {g g' : ChatGroup} {me : Bytes}
  {session : Session} {frames : List Frame} {op : GroupOp} {sx sx' : ApplySideEffects}
  {arrived : List GroupOp} {groupId : Bytes}

/-! ## The ways -/

/-- A group that an invitation brings: not answered, no chain, nothing parked. -/
structure Invited (g : ChatGroup) : Prop where
  id : g.id.length = groupIdSize
  lastOpDigest : g.lastOpDigest.length = parentDigestSize
  rows : ∀ m ∈ g.members, m.peerId.length = identityKeySize
  dist : g.myCurrentDistributionId = none
  pendingOps : g.pendingOps = []
  recipients : g.mySkdmRecipients = ∅
  pendingInvitation : g.pendingInvitation = true

/-- The group of `createGroup` before its key is shipped. -/
def ChatGroup.founded (g : ChatGroup) (amb : Ambient) (me : Bytes) : ChatGroup :=
  { g with
    pendingInvitation := false
    myCurrentDistributionId := some amb.chainId
    memberDistributionIds := g.memberDistributionIds.insert me amb.chainId
    members := updateFirst (fun m => m.peerId = me) (fun m => { m with status := .active })
      g.members }

/-- The group after the sender key `dist` of `sender` has been taken in. -/
def ChatGroup.keyed (g : ChatGroup) (dist : UUID) (sender : Bytes) : ChatGroup :=
  (g.setMemberDistId dist sender).flipActive sender

/-- What a call on the store `s` can come to. `arrived` is the op that came with it. -/
inductive Does (env : GroupEnv) (amb : Ambient) (me : Bytes) (arrived : List GroupOp)
    (s : ChatStore) : ChatStore → List Frame → Prop where
  | nothing : Does env amb me arrived s s []
  | row {groupId : Bytes} {g : ChatGroup} (text : String) (hfind : s.findGroup groupId = some g) :
    Does env amb me arrived s (s.setGroup (g.appendSystem text)) []
  /-- The op was not applied. -/
  | refused {groupId : Bytes} {g g' : ChatGroup} {op : GroupOp} {outcome : ApplyOutcome}
    {sx : ApplySideEffects} (log : List PersistedMessage) (hfind : s.findGroup groupId = some g)
    (happly : g.apply env op { localIdentityPub := some me } = some (outcome, g', sx))
    (hrefused : ∀ e, outcome ≠ .applied e)
    (hsource : op ∈ arrived ∨ nextEpoch g.currentEpoch = some op.epoch) :
    Does env amb me arrived s (s.setGroup { g' with log := log }) []
  /-- The hooks ran after `apply`; only a removal runs them after an op of its own that was
  not applied. -/
  | hooked {groupId : Bytes} {g g' : ChatGroup} {op : GroupOp} {outcome : ApplyOutcome}
    {sx : ApplySideEffects} {session : Session} {s' : ChatStore} {before frames : List Frame}
    (hsession : s.session = some session) (hfind : s.findGroup groupId = some g)
    (happly : g.apply env op { localIdentityPub := some me } = some (outcome, g', sx))
    (hsource : op ∈ arrived ∧ (∃ e, outcome = .applied e) ∨
      nextEpoch g.currentEpoch = some op.epoch)
    (hbefore : ∀ f ∈ before, f.kind ≠ .groupKeyDistribution)
    (hhooks : applyPostMutationSideEffects env amb session g' sx (s.setGroup g') =
      some (s', frames)) : Does env amb me arrived s s' (before ++ frames)
  /-- A member's sender key came in. -/
  | keyArrived {groupId sender : Bytes} {g : ChatGroup} {dist : UUID} {session : Session}
    {s' : ChatStore} {frames : List Frame} (hsession : s.session = some session)
    (hfind : s.findGroup groupId = some g)
    (hhooks : applyPostMutationSideEffects env amb session (g.keyed dist sender)
      { localIdentityPub := some me } (s.setGroup (g.keyed dist sender)) = some (s', frames)) :
    Does env amb me arrived s s' frames
  | rotated {groupId : Bytes} {s' s'' : ChatStore} {frames : List Frame}
    (hinvited : ∀ g, s.findGroup groupId = some g → g.pendingInvitation = false)
    (hrotate : rotateMyGroupChain env amb groupId s = some (s', frames))
    (hrow : s'' = s' ∨ ∃ g text, s'.findGroup groupId = some g ∧
      s'' = s'.setGroup (g.appendSystem text)) : Does env amb me arrived s s'' frames
  | left {groupId : Bytes} {s' : ChatStore} {frames : List Frame}
    (hrotate : rotateMyGroupChain env amb groupId s = some (s', frames)) :
    Does env amb me arrived s (s'.removeGroup groupId) frames
  | removed (groupId : Bytes) : Does env amb me arrived s (s.removeGroup groupId) []
  | resent {groupId : Bytes} {g : ChatGroup} {dist : UUID} {session : Session} {skdm : Bytes}
    (hsession : s.session = some session) (hfind : s.findGroup groupId = some g)
    (hdist : g.myCurrentDistributionId = some dist) (hinvited : g.pendingInvitation = false)
    (hskdm : session.senderKeyDistributionCreate dist = some skdm) :
    Does env amb me arrived s
      (s.setGroup (s.shipKey skdm (fun _ => []) (others g me)
        { g with mySkdmRecipients := ∅ }).1)
      (s.shipKey skdm (fun _ => []) (others g me) { g with mySkdmRecipients := ∅ }).2
  | accepted {groupId : Bytes} {g : ChatGroup} {session : Session}
    (hsession : s.session = some session) (hfind : s.findGroup groupId = some g)
    (hinvited : g.pendingInvitation = true) (hmember : g.hasMember me = true) :
    Does env amb me arrived s
      (s.setGroup (s.enrolMyChainOnFirstJoin amb session { g with pendingInvitation := false }).1)
      (s.enrolMyChainOnFirstJoin amb session { g with pendingInvitation := false }).2
  /-- Our own new group: everybody named in it is a contact or the local user. -/
  | created {g : ChatGroup} {session : Session} {skdm : Bytes} {first : Bytes → List Frame}
    {peers : List Bytes} (hsession : s.session = some session) (hinvited : Invited g)
    (hrows : ∀ peer, (∃ m ∈ g.members, m.peerId = peer) ↔ peer = me ∨ peer ∈ peers)
    (hstatus : ∀ m ∈ g.members, m.status ≠ .removed)
    (hfirst : ∀ peer, ∀ f ∈ first peer, f.kind ≠ .groupKeyDistribution)
    (hskdm : session.senderKeyDistributionCreate amb.chainId = some skdm) :
    Does env amb me arrived s
      { s with groups := s.groups ++ [(s.shipKey skdm first peers (g.founded amb me)).1] }
      (s.shipKey skdm first peers (g.founded amb me)).2
  /-- An invitation came in. -/
  | joined {g : ChatGroup} (hinvited : Invited g) :
    Does env amb me arrived s { s with groups := s.groups ++ [g] } []

/-- `rotateMyGroupChain` has no guard for an invitation that waits for its answer; the settings
screen, which offers the rotation, is shown for accepted groups only. -/
def Call.Answered (s : ChatStore) : Call → Prop
  | .rotateMyGroupChain groupId => ∀ g, s.findGroup groupId = some g → g.pendingInvitation = false
  | _ => True

/-! ## Groups that come in -/

theorem create_invited {wire signedBytes : Bytes} (hdecode : GroupOp.decode wire = some op)
    (h : ChatGroup.create env op signedBytes = some g) : Invited g := by
  have hrows := (wellFormed_create hdecode h).members.sized
  rw [ChatGroup.create] at h
  split at h
  · split at h
    · cases h
    split at h
    · cases h
    split at h
    · cases h
    next hid =>
    split at h
    · cases h
    split at h
    · cases h
    split at h
    · cases h
    cases h
    exact ⟨Classical.not_not.mp hid, env.length_hash _, hrows, rfl, rfl, rfl, rfl⟩
  · cases h

/-- A decoded snapshot names a group id and a digest of the right lengths. -/
theorem snapshot_sizes {bytes : Bytes} {b : GroupBootstrap}
    (h : GroupBootstrap.decode bytes = some b) :
    b.groupId.length = groupIdSize ∧ b.lastOpDigest.length = parentDigestSize := by
  obtain ⟨_, _, h⟩ := Option.bind_eq_some_iff.mp h
  obtain ⟨_, _, h⟩ := Option.bind_eq_some_iff.mp h
  obtain ⟨_, hid, h⟩ := Option.bind_eq_some_iff.mp h
  obtain ⟨_, _, h⟩ := Option.bind_eq_some_iff.mp h
  obtain ⟨_, hdigest, h⟩ := Option.bind_eq_some_iff.mp h
  obtain ⟨_, _, h⟩ := Option.bind_eq_some_iff.mp h
  obtain ⟨_, _, h⟩ := Option.bind_eq_some_iff.mp h
  obtain ⟨_, _, h⟩ := Option.bind_eq_some_iff.mp h
  obtain ⟨_, _, h⟩ := Option.bind_eq_some_iff.mp h
  obtain ⟨_, _, h⟩ := Option.bind_eq_some_iff.mp h
  obtain ⟨_, _, h⟩ := Option.bind_eq_some_iff.mp h
  obtain ⟨_, _, h⟩ := Option.bind_eq_some_iff.mp h
  obtain ⟨_, _, h⟩ := Option.bind_eq_some_iff.mp h
  obtain ⟨_, _, h⟩ := Option.bind_eq_some_iff.mp h
  cases h
  exact ⟨takeBytes_length hid, takeBytes_length hdigest⟩

theorem snapshot_invited {bytes : Bytes} {b : GroupBootstrap}
    (hdecode : GroupBootstrap.decode bytes = some b) (h : b.intoChatGroup me = some g) :
    Invited g := by
  obtain ⟨hid, hdigest⟩ := snapshot_sizes hdecode
  have hrows := (GroupBootstrap.decode_members hdecode).2
  rw [GroupBootstrap.intoChatGroup] at h
  split at h
  · cases h
  · cases h
    exact ⟨hid, hdigest, hrows, rfl, rfl, rfl, rfl⟩

/-! ## Frames that come in -/

theorem handleCreate_does {payload sender : Bytes} (hdecode : GroupOp.decode payload = some op) :
    Does env amb me arrived s (s.handleCreate env op me sender) [] := by
  rw [handleCreate]
  split
  · exact .nothing
  split
  · exact .nothing
  split
  · exact .nothing
  split
  · exact .nothing
  split
  · split
    · exact .nothing
    split
    · exact .nothing
    split
    · exact .nothing
    · next hcreate => exact .joined (create_invited hdecode hcreate)
  · exact .nothing

theorem handleGroupOp_does {payload sender : Bytes} (hcard : s.myCard = some me)
    (harrived : ∀ op, GroupOp.decode payload = some op → op ∈ arrived)
    (h : s.handleGroupOp env amb payload sender = some (s', frames)) :
    Does env amb me arrived s s' frames := by
  rw [handleGroupOp, hcard] at h
  split at h
  · next session me' hsession hme' =>
    cases hme'
    split at h
    · cases h
      exact .nothing
    split at h
    · cases h
      exact .nothing
    next op hdecode =>
    split at h
    · cases h
      exact handleCreate_does hdecode
    split at h
    · cases h
      exact .nothing
    next g hfind =>
    split at h
    · cases h
    · next g' sx happly =>
      exact .hooked hsession hfind happly (.inl ⟨harrived op hdecode, _, rfl⟩)
        (fun f (hf : f ∈ ([] : List Frame)) => absurd hf List.not_mem_nil) h
    · next outcome g' sx hrefused happly =>
      cases h
      have hlog : ∃ log, (outcomeText outcome).elim g' g'.appendSystem = { g' with log := log } := by
        cases outcomeText outcome with
        | none => exact ⟨g'.log, rfl⟩
        | some text => exact ⟨_, rfl⟩
      obtain ⟨log, hlog⟩ := hlog
      rw [hlog]
      exact .refused log hfind happly (fun e he => hrefused e he)
        (.inl (harrived op hdecode))
  · cases h
    exact .nothing

theorem handleGroupBootstrap_does {payload sender : Bytes} (hcard : s.myCard = some me)
    (h : s.handleGroupBootstrap env payload sender = some s') :
    Does env amb me arrived s s' [] := by
  rw [handleGroupBootstrap] at h
  split at h
  · next me' envelopeGroupId bytes hme' hsplit =>
    obtain rfl := Option.some.inj (hcard.symm.trans hme')
    split at h
    · cases h
      exact .nothing
    next b hdecode =>
    split at h
    · cases h
      exact .nothing
    split at h
    · cases h
      exact .nothing
    split at h
    · cases h
      exact .nothing
    split at h
    · cases h
      exact .nothing
    split at h
    · cases h
    · cases h
      exact .nothing
    split at h
    · cases h
      exact .nothing
    split at h
    · cases h
      exact .nothing
    split at h
    · cases h
      exact .nothing
    split at h
    · cases h
      exact .nothing
    · next hinto =>
      cases h
      exact .joined (snapshot_invited hdecode hinto)
  · cases h
    exact .nothing

theorem handleGroupKeyDistribution_does {payload sender : Bytes} (hcard : s.myCard = some me)
    (h : s.handleGroupKeyDistribution env amb payload sender = some (s', frames)) :
    Does env amb me arrived s s' frames := by
  rw [handleGroupKeyDistribution] at h
  split at h
  · next session groupId skdm hsession hsplit =>
    split at h
    · cases h
      exact .nothing
    split at h
    · cases h
      exact .nothing
    next g hfind =>
    split at h
    · cases h
      exact .nothing
    split at h
    · cases h
      exact .nothing
    split at h
    · cases h
      exact .nothing
    · rw [hcard] at h
      exact .keyArrived hsession hfind h
  · cases h
    exact .nothing

/-! ## What the user does -/

theorem noKey_broadcastToOthers (s : ChatStore) (g : ChatGroup) (me bytes : Bytes) :
    ∀ f ∈ s.broadcastToOthers g me bytes, f.kind ≠ .groupKeyDistribution := by
  intro f hf
  obtain ⟨peer, -, hpeer⟩ := List.mem_flatMap.mp hf
  rw [broadcastGroupOp] at hpeer
  split at hpeer
  · rw [List.mem_singleton.mp hpeer]
    rintro ⟨⟩
  · cases hpeer

theorem noKey_bootstraps (s : ChatStore) (snapshot : Option GroupBootstrap) (peer : Bytes) :
    ∀ f ∈ snapshot.toList.flatMap (fun b => s.broadcastGroupBootstrap b peer),
      f.kind ≠ .groupKeyDistribution := by
  intro f hf
  obtain ⟨b, -, hb⟩ := List.mem_flatMap.mp hf
  rw [broadcastGroupBootstrap] at hb
  split at hb
  · cases hb
  split at hb
  · rw [List.mem_singleton.mp hb]
    rintro ⟨⟩
  · cases hb

/-- An op that does not encode is not applied. -/
theorem not_applied_of_error {outcome : ApplyOutcome} {e : GroupOpError}
    (h : g.apply env op sx = some (outcome, g', sx')) (hencoded : op.encoded = .error e) :
    ∀ epoch, outcome ≠ .applied epoch := by
  rw [ChatGroup.apply, hencoded] at h
  split at h
  · cases h
    rintro epoch ⟨⟩
  · cases h
    rintro epoch ⟨⟩

/-- The end of an issued op. -/
theorem publish_does {answer : Bool} {outcome : ApplyOutcome} (hsession : s.session = some session)
    (hfind : s.findGroup groupId = some g)
    (happly : g.apply env op { localIdentityPub := some me } = some (outcome, g', sx))
    (hnext : nextEpoch g.currentEpoch = some op.epoch)
    (h : publish env amb session me op g' sx s = some (answer, s', frames)) :
    Does env amb me arrived s s' frames := by
  rw [publish] at h
  split at h
  · next hencoded =>
    cases h
    exact .refused g'.log hfind happly (not_applied_of_error happly hencoded) (.inr hnext)
  · obtain ⟨r, hhooks, heq⟩ := Option.map_eq_some_iff.mp h
    cases heq
    exact .hooked hsession hfind happly (.inr hnext) (noKey_broadcastToOthers s g' me _) hhooks

theorem inviteToGroup_does {answer : Bool} {contact : Contact} (hcard : s.myCard = some me)
    (h : s.inviteToGroup env amb groupId contact = some (answer, s', frames)) :
    Does env amb me arrived s s' frames := by
  rw [inviteToGroup, hcard] at h
  split at h
  · next session me' g hsession hme' hfind =>
    cases hme'
    iterate 4
      split at h
      · cases h
        exact .nothing
    split at h
    · cases h
    · cases h
      exact .nothing
    next op hsign =>
    have hnext := signNext_next hsign
    split at h
    · cases h
    · next g' sx happly =>
      split at h
      · next hencoded => exact absurd rfl (not_applied_of_error happly hencoded _)
      split at h
      · cases h
      · obtain ⟨r, hhooks, heq⟩ := Option.map_eq_some_iff.mp h
        cases heq
        refine .hooked hsession hfind happly (.inr hnext) (fun f hf => ?_) hhooks
        rcases List.mem_append.mp hf with hf | hf
        · exact noKey_bootstraps s _ _ f hf
        · exact noKey_broadcastToOthers s g' me _ f hf
    · next outcome g' sx hrefused happly =>
      cases h
      exact .refused g'.log hfind happly (fun e he => hrefused e he) (.inr hnext)
  · cases h
    exact .nothing

theorem removeFromGroup_does {answer : Bool} {peer : Bytes} (hcard : s.myCard = some me)
    (h : s.removeFromGroup env amb groupId peer = some (answer, s', frames)) :
    Does env amb me arrived s s' frames := by
  rw [removeFromGroup, hcard] at h
  split at h
  · next session me' g hsession hme' hfind =>
    cases hme'
    iterate 2
      split at h
      · cases h
        exact .nothing
    split at h
    · cases h
    · cases h
      exact .nothing
    next op hsign =>
    have hnext := signNext_next hsign
    split at h
    · cases h
    · next happly =>
      cases h
      exact .refused _ hfind happly nofun (.inr hnext)
    · next happly => exact publish_does hsession hfind happly hnext h
  · cases h
    exact .nothing

theorem renameGroup_does {answer : Bool} {newName : String} (hcard : s.myCard = some me)
    (h : s.renameGroup env amb groupId newName = some (answer, s', frames)) :
    Does env amb me arrived s s' frames := by
  rw [renameGroup, hcard] at h
  split at h
  · next session me' g hsession hme' hfind =>
    cases hme'
    iterate 3
      split at h
      · cases h
        exact .nothing
    split at h
    · cases h
    · cases h
      exact .nothing
    next op hsign =>
    have hnext := signNext_next hsign
    split at h
    · cases h
    · next happly => exact publish_does hsession hfind happly hnext h
    · next outcome g' sx hrefused happly =>
      cases h
      exact .refused g'.log hfind happly (fun e he => hrefused e he) (.inr hnext)
  · cases h
    exact .nothing

theorem signAndBroadcastRoleOp_does {answer : Bool} {peer : Bytes} {kind : GroupOpKind}
    (hcard : s.myCard = some me)
    (h : s.signAndBroadcastRoleOp env amb groupId peer kind = some (answer, s', frames)) :
    Does env amb me arrived s s' frames := by
  rw [signAndBroadcastRoleOp, hcard] at h
  split at h
  · next session me' g hsession hme' hfind =>
    cases hme'
    iterate 2
      split at h
      · cases h
        exact .nothing
    split at h
    · cases h
    · cases h
      exact .nothing
    next op hsign =>
    have hnext := signNext_next hsign
    split at h
    · cases h
    · next happly => exact publish_does hsession hfind happly hnext h
    · next happly =>
      cases h
      exact .refused _ hfind happly nofun (.inr hnext)
    · next outcome g' sx hrefused _ happly =>
      cases h
      exact .refused g'.log hfind happly (fun e he => hrefused e he) (.inr hnext)
  · cases h
    exact .nothing

theorem acceptGroupInvitation_does {r : Bool × ChatStore × List Frame} (hcard : s.myCard = some me)
    (h : s.acceptGroupInvitation amb groupId = r) : Does env amb me arrived s r.2.1 r.2.2 := by
  subst h
  rw [acceptGroupInvitation, hcard]
  split
  · next session me' g hsession hme' hfind =>
    cases hme'
    split
    · exact .nothing
    next hinvited =>
    split
    · exact .nothing
    next hmember =>
    exact .accepted hsession hfind (Classical.not_not.mp hinvited) (Classical.not_not.mp hmember)
  · exact .nothing

theorem resendMyKeys_does {r : Bool × ChatStore × List Frame} (hcard : s.myCard = some me)
    (h : s.resendMyKeys groupId = r) : Does env amb me arrived s r.2.1 r.2.2 := by
  subst h
  rw [resendMyKeys, hcard]
  split
  · next session me' g hsession hme' hfind =>
    cases hme'
    split
    · exact .nothing
    next dist hdist =>
    split
    · exact .nothing
    next hinvited =>
    split
    · exact .nothing
    next skdm hskdm =>
    exact .resent hsession hfind hdist (Bool.eq_false_iff.mpr hinvited) hskdm
  · exact .nothing

theorem createGroup_does {answer : Bool} {newId : FixedBytes 16} {name : String}
    {initialContacts : List Contact} (hcard : s.myCard = some me)
    (h : s.createGroup env amb newId name initialContacts = some (answer, s', frames)) :
    Does env amb me arrived s s' frames := by
  rw [createGroup] at h
  split at h
  · next session me' hsession hme' =>
    obtain rfl := Option.some.inj (hcard.symm.trans hme')
    iterate 5
      split at h
      · cases h
        exact .nothing
    dsimp only at h
    split at h
    · cases h
    split at h
    · cases h
      exact .nothing
    next op hsign =>
    split at h
    · cases h
      exact .nothing
    next bytes hencoded =>
    split at h
    · cases h
      exact .nothing
    next g hcreate =>
    split at h
    · cases h
      exact .nothing
    next skdm hskdm =>
    cases h
    have hkind : op.kind = .create (trimmed name) (⟨me, .admin, ""⟩ ::
        initialContacts.map fun c => ⟨c.identityPub, .member, c.displayName⟩) := by
      rw [signOp] at hsign
      dsimp only at hsign
      split at hsign
      · cases hsign
      · obtain ⟨sig, -, rfl⟩ := Option.map_eq_some_iff.mp hsign
        rfl
    have hinvited := create_invited (GroupOp.decode_encoded hencoded) hcreate
    have hmembers : (∀ m ∈ g.members, m.status = .pendingSKDM) ∧
        g.members.map GroupMember.peerId = me :: initialContacts.map Contact.identityPub := by
      rw [ChatGroup.create, hkind] at hcreate
      dsimp only at hcreate
      iterate 6
        split at hcreate
        · cases hcreate
      cases hcreate
      constructor
      · intro m hm
        obtain ⟨spec, -, rfl⟩ := List.mem_map.mp hm
        rfl
      · simp [List.map_map, Function.comp_def]
    refine .created hsession hinvited (fun peer => ?_) (fun m hm => ?_) (fun peer f hf => ?_) hskdm
    · have hmem : (∃ m ∈ g.members, m.peerId = peer) ↔
          peer ∈ g.members.map GroupMember.peerId := by simp [List.mem_map]
      rw [hmem, hmembers.2, List.mem_cons]
    · rw [hmembers.1 m hm]
      rintro ⟨⟩
    · rw [broadcastGroupOp] at hf
      split at hf
      · rw [List.mem_singleton.mp hf]
        rintro ⟨⟩
      · cases hf
  · cases h
    exact .nothing

/-! ## Sending -/

theorem currentChain_row (s : ChatStore) (groupId : Bytes) :
    (s.currentChain groupId).1 = s ∨ ∃ g text, s.findGroup groupId = some g ∧
      (s.currentChain groupId).1 = s.setGroup (g.appendSystem text) := by
  rw [currentChain]
  cases hfind : s.findGroup groupId with
  | none => exact .inl rfl
  | some g =>
    dsimp only
    split
    · exact .inl rfl
    · exact .inr ⟨g, notReadyText, rfl, rfl⟩

/-- A rotation in front of a send, or none. -/
theorem rotateBeforeSend_does {s'' : ChatStore} (hfind : s.findGroup groupId = some g)
    (hinvited : g.pendingInvitation = false)
    (h : s.rotateBeforeSend env amb g = some (s', frames))
    (hrow : s'' = s' ∨ ∃ k text, s'.findGroup groupId = some k ∧
      s'' = s'.setGroup (k.appendSystem text)) : Does env amb me arrived s s'' frames := by
  rw [rotateBeforeSend, findGroup_id hfind] at h
  split at h
  · refine .rotated (fun k hk => ?_) h hrow
    rw [hfind] at hk
    cases hk
    exact hinvited
  · cases h
    rcases hrow with rfl | ⟨k, text, hfind, rfl⟩
    · exact .nothing
    · exact .row text hfind

theorem beginGroupMessage_does {text : String} {dist : Option UUID} (hcard : s.myCard = some me)
    (h : s.beginGroupMessage env amb groupId text = some (s', frames, dist)) :
    Does env amb me arrived s s' frames := by
  rw [beginGroupMessage, hcard] at h
  split at h
  · cases h
    exact .nothing
  split at h
  · next session me' g hsession hme' hfind =>
    cases hme'
    split at h
    · cases h
      exact .row _ hfind
    split at h
    · cases h
      exact .nothing
    next hinvited =>
    obtain ⟨r, hrotate, heq⟩ := Option.map_eq_some_iff.mp h
    cases heq
    exact rotateBeforeSend_does hfind (Bool.eq_false_iff.mpr hinvited) hrotate
      (currentChain_row r.1 groupId)
  · cases h
    exact .nothing

theorem beginGroupAttachment_does {answer blocked : Bool} {safeName : String}
    (hcard : s.myCard = some me)
    (h : s.beginGroupAttachment env amb groupId safeName blocked = some (answer, s', frames)) :
    Does env amb me arrived s s' frames := by
  rw [beginGroupAttachment, hcard] at h
  split at h
  · next session me' g hsession hme' hfind =>
    cases hme'
    split at h
    · cases h
      exact .row _ hfind
    split at h
    · cases h
      exact .nothing
    next hinvited =>
    split at h
    · cases h
      exact .row _ hfind
    · obtain ⟨r, hrotate, heq⟩ := Option.map_eq_some_iff.mp h
      cases heq
      exact rotateBeforeSend_does hfind (Bool.eq_false_iff.mpr hinvited) hrotate (.inl rfl)
  · cases h
    exact .nothing

theorem beginGroupChunks_does (hcard : s.myCard = some me) :
    Does env amb me arrived s (s.beginGroupChunks groupId).1 [] := by
  rw [beginGroupChunks, hcard]
  split
  · next session me' g hsession hme' hfind =>
    cases hme'
    split
    · exact .row _ hfind
    split
    · exact .nothing
    · rcases currentChain_row s groupId with hsame | ⟨k, text, hk, hrow⟩
      · rw [hsame]
        exact .nothing
      · rw [hrow]
        exact .row text hk
  · exact .nothing

/-! ## Any call -/

theorem perform_does {call : Call} (hcard : s.myCard = some me) (hanswered : call.Answered s)
    (h : call.perform env amb s = some (s', frames)) :
    Does env amb me call.op.toList s s' frames := by
  cases call with
  | receive sender frame =>
    obtain ⟨recipient, kind, body⟩ := frame
    cases kind with
    | groupOp =>
      refine handleGroupOp_does hcard (fun op hop => ?_) h
      show op ∈ (GroupOp.decode body).toList
      rw [hop]
      exact List.mem_singleton.mpr rfl
    | groupBootstrap =>
      obtain ⟨t, ht, heq⟩ := Option.map_eq_some_iff.mp h
      cases heq
      exact handleGroupBootstrap_does hcard ht
    | groupKeyDistribution => exact handleGroupKeyDistribution_does hcard h
  | createGroup groupId name initialContacts =>
    obtain ⟨⟨answer, t, fs⟩, hr, heq⟩ := Option.map_eq_some_iff.mp h
    cases heq
    exact createGroup_does hcard hr
  | inviteToGroup groupId contact =>
    obtain ⟨⟨answer, t, fs⟩, hr, heq⟩ := Option.map_eq_some_iff.mp h
    cases heq
    exact inviteToGroup_does hcard hr
  | removeFromGroup groupId peer =>
    obtain ⟨⟨answer, t, fs⟩, hr, heq⟩ := Option.map_eq_some_iff.mp h
    cases heq
    exact removeFromGroup_does hcard hr
  | renameGroup groupId newName =>
    obtain ⟨⟨answer, t, fs⟩, hr, heq⟩ := Option.map_eq_some_iff.mp h
    cases heq
    exact renameGroup_does hcard hr
  | promoteToAdmin groupId peer =>
    obtain ⟨⟨answer, t, fs⟩, hr, heq⟩ := Option.map_eq_some_iff.mp h
    cases heq
    exact signAndBroadcastRoleOp_does hcard hr
  | demoteFromAdmin groupId peer =>
    obtain ⟨⟨answer, t, fs⟩, hr, heq⟩ := Option.map_eq_some_iff.mp h
    cases heq
    exact signAndBroadcastRoleOp_does hcard hr
  | acceptGroupInvitation groupId =>
    obtain heq := Option.some.inj h
    have hdoes : Does env amb me [] s (s.acceptGroupInvitation amb groupId).2.1
      (s.acceptGroupInvitation amb groupId).2.2 := acceptGroupInvitation_does hcard rfl
    rwa [heq] at hdoes
  | declineGroupInvitation groupId =>
    cases h
    rw [declineGroupInvitation]
    split
    · split
      · exact .removed groupId
      · exact .nothing
    · exact .nothing
  | leaveGroup groupId =>
    obtain ⟨⟨answer, t, fs⟩, hr, heq⟩ := Option.map_eq_some_iff.mp h
    cases heq
    rw [leaveGroup] at hr
    split at hr
    · cases hr
      exact .nothing
    split at hr
    · obtain ⟨t, ht, heq⟩ := Option.map_eq_some_iff.mp hr
      cases heq
      exact .left ht
    · cases hr
      exact .removed groupId
  | resendMyKeys groupId =>
    obtain heq := Option.some.inj h
    have hdoes : Does env amb me [] s (s.resendMyKeys groupId).2.1 (s.resendMyKeys groupId).2.2 :=
      resendMyKeys_does hcard rfl
    rwa [heq] at hdoes
  | rotateMyGroupChain groupId => exact .rotated hanswered h (.inl rfl)
  | sendGroupMessage groupId text =>
    obtain ⟨⟨answer, t, fs⟩, hr, heq⟩ := Option.map_eq_some_iff.mp h
    cases heq
    exact beginGroupMessage_does hcard hr
  | sendGroupAttachment groupId safeName blocked =>
    obtain ⟨⟨answer, t, fs⟩, hr, heq⟩ := Option.map_eq_some_iff.mp h
    cases heq
    exact beginGroupAttachment_does hcard hr
  | shipPreparedGroupAttachment groupId =>
    cases h
    exact beginGroupChunks_does hcard

/-- A call writes groups only. -/
theorem Does.writes (hcard : s.myCard = some me) (h : Does env amb me arrived s s' frames) :
    Writes s s' := by
  cases h with
  | nothing => exact ⟨s.groups, rfl⟩
  | row | refused | removed | resent | accepted | created | joined => exact ⟨_, rfl⟩
  | @hooked _ _ g' _ _ _ _ _ _ _ _ _ _ _ _ hhooks =>
    have hcard' : (s.setGroup g').myCard = some me := hcard
    obtain ⟨groups, rfl⟩ := hooks_writes hcard' hhooks
    exact ⟨groups, rfl⟩
  | @keyArrived _ sender g dist _ _ _ _ _ hhooks =>
    have hcard' : (s.setGroup (g.keyed dist sender)).myCard = some me := hcard
    obtain ⟨groups, rfl⟩ := hooks_writes hcard' hhooks
    exact ⟨groups, rfl⟩
  | rotated _ hrotate hrow =>
    obtain ⟨groups, rfl⟩ := rotateMyGroupChain_writes hrotate
    rcases hrow with rfl | ⟨k, text, -, rfl⟩
    · exact ⟨groups, rfl⟩
    · exact ⟨_, rfl⟩
  | left hrotate =>
    obtain ⟨groups, rfl⟩ := rotateMyGroupChain_writes hrotate
    exact ⟨_, rfl⟩

end Pizzini.Group
