import Pizzini.Group.Codecs
import Pizzini.Group.RemovedPeers

/-!
# What the operations of the user broadcast (`pizzini/pizzini/ChatStoreGroups.swift`)

Six operations sign an op for a group, apply it to the own copy of the group, and
send it to the other members. Five of them stop unless `apply` has answered
`applied`. `removeFromGroup` stops at `rejectedMalformed` only, and it asks
`role(of:)` whether the user is an admin, which reads the row of a user who has
been removed as well: an admin who was removed passes the check, `apply` refuses
the op, and the op is sent all the same (`broadcast_only_after_applied_iff`).
-/

namespace Pizzini.Group

open Wire ChatGroup ChatStore

/-! ## The operations -/

/-- An operation of the user that signs an op of a group. -/
inductive LocalOp where
  | inviteToGroup (groupId : Bytes) (contact : Contact)
  | removeFromGroup (groupId peerIdentity : Bytes)
  | renameGroup (groupId : Bytes) (newName : String)
  | promoteToAdmin (groupId peerIdentity : Bytes)
  | demoteFromAdmin (groupId peerIdentity : Bytes)
  | rotateMyGroupChain (groupId : Bytes)

namespace LocalOp

def groupId : LocalOp → Bytes
  | .inviteToGroup groupId _ => groupId
  | .removeFromGroup groupId _ => groupId
  | .renameGroup groupId _ => groupId
  | .promoteToAdmin groupId _ => groupId
  | .demoteFromAdmin groupId _ => groupId
  | .rotateMyGroupChain groupId => groupId

/-- The `kind` of the op that is signed. -/
def kind (amb : Ambient) : LocalOp → GroupOpKind
  | .inviteToGroup _ contact => .addMember contact.identityPub .member contact.displayName
  | .removeFromGroup _ peerIdentity => .removeMember peerIdentity
  | .renameGroup _ newName => .rename (trimmed newName)
  | .promoteToAdmin _ peerIdentity => .promoteAdmin peerIdentity
  | .demoteFromAdmin _ peerIdentity => .demoteAdmin peerIdentity
  | .rotateMyGroupChain _ => .rotateSenderKey amb.rotateId

/-- The clock reading in the op. -/
def now (amb : Ambient) : LocalOp → UInt64
  | .rotateMyGroupChain _ => amb.rotateNow
  | _ => amb.now

/-- The answer, the store and the frames. A rotation answers nothing, which is
read as `false`. -/
def perform (env : GroupEnv) (amb : Ambient) (s : ChatStore) :
    LocalOp → Option (Bool × ChatStore × List Frame)
  | .inviteToGroup groupId contact => s.inviteToGroup env amb groupId contact
  | .removeFromGroup groupId peerIdentity => s.removeFromGroup env amb groupId peerIdentity
  | .renameGroup groupId newName => s.renameGroup env amb groupId newName
  | .promoteToAdmin groupId peerIdentity => s.promoteToAdmin env amb groupId peerIdentity
  | .demoteFromAdmin groupId peerIdentity => s.demoteFromAdmin env amb groupId peerIdentity
  | .rotateMyGroupChain groupId => (s.rotateMyGroupChain env amb groupId).map fun r => (false, r)

end LocalOp

/-- On the store `s` the operation signs `op`, and `apply` answers `r` for it. -/
def Attempts (env : GroupEnv) (amb : Ambient) (s : ChatStore) (o : LocalOp) (op : GroupOp)
    (r : ApplyOutcome × ChatGroup × ApplySideEffects) : Prop :=
  ∃ session me g, s.session = some session ∧ s.myCard = some me ∧
    s.findGroup o.groupId = some g ∧
    signNext env session me (o.kind amb) (o.now amb) g = some (some op) ∧
    g.apply env op { localIdentityPub := some me } = some r

/-- The operation signs `op`, and `apply` lets it in. -/
def Applied (env : GroupEnv) (amb : Ambient) (s : ChatStore) (o : LocalOp) (op : GroupOp)
    (g' : ChatGroup) (sx : ApplySideEffects) : Prop :=
  ∃ e, Attempts env amb s o op (.applied e, g', sx)

/-- A frame that carries an op carries one that the local `apply` has let in: the
operation's own, or that of the rotation that the hooks do after it. -/
def CarriesApplied (env : GroupEnv) (amb : Ambient) (s : ChatStore) (o : LocalOp) (f : Frame) :
    Prop :=
  ∃ op g' sx, Applied env amb s o op g' sx ∧
    (op.encoded = .ok f.body ∨ ∃ me rotation h sx', s.myCard = some me ∧
      Applied env amb (s.setGroup (g'.hooked amb me sx)) (.rotateMyGroupChain o.groupId) rotation
        h sx' ∧ rotation.encoded = .ok f.body)

/-- An operation broadcasts an op only after `apply` has let it in, and answers
`true` only then. -/
structure SendsApplied (env : GroupEnv) (amb : Ambient) (s : ChatStore) (o : LocalOp) : Prop where
  success : ∀ s' frames, o.perform env amb s = some (true, s', frames) →
    ∃ op g' sx, Applied env amb s o op g' sx
  sent : ∀ answer s' frames, o.perform env amb s = some (answer, s', frames) →
    ∀ f ∈ frames, f.kind = .groupOp → CarriesApplied env amb s o f

/-! ## Frames -/

variable {env : GroupEnv} {amb : Ambient} {s s' : ChatStore} {g g' : ChatGroup} {me : Bytes}
  {session : Session} {frames : List Frame} {op : GroupOp} {sx sx' : ApplySideEffects}
  {groupId : Bytes}

theorem mem_broadcastGroupOp {bytes peer : Bytes} {f : Frame}
    (hf : f ∈ s.broadcastGroupOp bytes peer) : f.body = bytes := by
  rw [broadcastGroupOp] at hf
  split at hf
  · rw [List.mem_singleton.mp hf]
  · cases hf

theorem mem_broadcastToOthers {bytes : Bytes} {f : Frame}
    (hf : f ∈ s.broadcastToOthers g me bytes) : f.body = bytes := by
  obtain ⟨peer, -, hpeer⟩ := List.mem_flatMap.mp hf
  exact mem_broadcastGroupOp hpeer

/-- A rotation sends its op after `apply` has let it in. -/
theorem rotate_sent (h : s.rotateMyGroupChain env amb groupId = some (s', frames)) {f : Frame}
    (hf : f ∈ frames) (hkind : f.kind = .groupOp) :
    ∃ op g' sx, Applied env amb s (.rotateMyGroupChain groupId) op g' sx ∧
      op.encoded = .ok f.body := by
  rw [rotateMyGroupChain] at h
  split at h
  · next session me g hsession hcard hfind =>
    split at h
    · cases h
      cases hf
    split at h
    · cases h
      cases hf
    next skdm _ =>
    split at h
    · cases h
    · cases h
      cases hf
    next op hsign =>
    split at h
    · cases h
    · next e g' sx happly =>
      refine ⟨op, g', sx, ⟨e, session, me, g, hsession, hcard, hfind, hsign, happly⟩, ?_⟩
      dsimp only at h
      split at h
      · cases h
        cases hf
      next bytes hencoded =>
      cases h
      rcases (shipKey_ships s skdm (s.broadcastGroupOp bytes) _ _).frames f hf with
        ⟨peer, hpeer⟩ | ⟨peer, -, rfl⟩
      · rw [mem_broadcastGroupOp hpeer]
        exact hencoded
      · cases hkind
    · cases h
      cases hf
  · cases h
    cases hf

/-- The hooks send an op only if they rotate. -/
theorem hooks_sent (hcard : s.myCard = some me)
    (h : applyPostMutationSideEffects env amb session g' sx (s.setGroup g') = some (s', frames))
    {f : Frame} (hf : f ∈ frames) (hkind : f.kind = .groupOp) :
    ∃ rotation h sx', Applied env amb (s.setGroup (g'.hooked amb me sx))
      (.rotateMyGroupChain g'.id) rotation h sx' ∧ rotation.encoded = .ok f.body := by
  have hid : (g'.hooked amb me sx).id = g'.id := by
    rw [hooked]
    split <;> rfl
  obtain ⟨-, -, rfl⟩ | ⟨-, -, ⟨-, hrotate⟩ | ⟨-, r, hship, -, rfl⟩⟩ :=
    hooks_cases (show (s.setGroup g').myCard = some me from hcard) h
  · cases hf
  · rw [setGroup_setGroup hid] at hrotate
    exact rotate_sent hrotate hf hkind
  · rw [← hship] at hf
    rw [(ensureMySKDM_keeps (s.setGroup g') session _).2 f hf] at hkind
    cases hkind

/-! ## After `apply` -/

/-- What is sent once `apply` has let the op in. -/
theorem Applied.carries {o : LocalOp} (happlied : Applied env amb s o op g' sx)
    (hcard : s.myCard = some me) {bytes : Bytes} (hencoded : op.encoded = .ok bytes)
    (hhooks : applyPostMutationSideEffects env amb session g' sx (s.setGroup g') =
      some (s', frames))
    {f : Frame} (hf : f ∈ s.broadcastToOthers g' me bytes ∨ f ∈ frames)
    (hkind : f.kind = .groupOp) : CarriesApplied env amb s o f := by
  refine ⟨op, g', sx, happlied, ?_⟩
  rcases hf with hown | hhook
  · rw [mem_broadcastToOthers hown]
    exact .inl hencoded
  · obtain ⟨rotation, h, sx', hrotation, hbody⟩ := hooks_sent hcard hhooks hhook hkind
    obtain ⟨e, _, _, g, -, -, hfind, -, happly⟩ := happlied
    have hid : g'.id = o.groupId := (apply_id happly).trans (findGroup_id hfind)
    rw [hid] at hrotation
    exact .inr ⟨me, rotation, h, sx', hcard, hrotation, hbody⟩

theorem Applied.publish {o : LocalOp} (happlied : Applied env amb s o op g' sx)
    (hcard : s.myCard = some me) {answer : Bool}
    (h : publish env amb session me op g' sx s = some (answer, s', frames)) {f : Frame}
    (hf : f ∈ frames) (hkind : f.kind = .groupOp) : CarriesApplied env amb s o f := by
  rw [ChatStore.publish] at h
  split at h
  · cases h
    cases hf
  · next hencoded =>
    obtain ⟨r, hhooks, heq⟩ := Option.map_eq_some_iff.mp h
    cases heq
    exact happlied.carries hcard hencoded hhooks (List.mem_append.mp hf) hkind

/-- No frame is sent and the answer is not `true`. -/
theorem SendsApplied.of_cases {o : LocalOp}
    (h : ∀ answer s' frames, o.perform env amb s = some (answer, s', frames) →
      (answer = false ∧ frames = []) ∨ ∃ op g' sx, Applied env amb s o op g' sx ∧
        ∀ f ∈ frames, f.kind = .groupOp → CarriesApplied env amb s o f) :
    SendsApplied env amb s o where
  success s' frames hperform := by
    rcases h true s' frames hperform with ⟨hfalse, -⟩ | ⟨op, g', sx, happlied, -⟩
    · cases hfalse
    · exact ⟨op, g', sx, happlied⟩
  sent answer s' frames hperform f hf hkind := by
    rcases h answer s' frames hperform with ⟨-, rfl⟩ | ⟨_, _, _, -, hsent⟩
    · cases hf
    · exact hsent f hf hkind

/-! ## The operations that stop unless the op was applied -/

theorem inviteToGroup_sends (contact : Contact) :
    SendsApplied env amb s (.inviteToGroup groupId contact) := by
  refine .of_cases fun answer s' frames h => ?_
  change s.inviteToGroup env amb groupId contact = _ at h
  rw [inviteToGroup] at h
  split at h
  · next session me g hsession hcard hfind =>
    iterate 4
      split at h
      · cases h
        exact .inl ⟨rfl, rfl⟩
    split at h
    · cases h
    · cases h
      exact .inl ⟨rfl, rfl⟩
    next op hsign =>
    split at h
    · cases h
    · next e g' sx happly =>
      have happlied : Applied env amb s (.inviteToGroup groupId contact) op g' sx :=
        ⟨e, session, me, g, hsession, hcard, hfind, hsign, happly⟩
      split at h
      · cases h
        exact .inl ⟨rfl, rfl⟩
      next bytes hencoded =>
      split at h
      · cases h
      · obtain ⟨r, hhooks, heq⟩ := Option.map_eq_some_iff.mp h
        cases heq
        refine .inr ⟨op, g', sx, happlied, fun f hf hkind => ?_⟩
        rw [List.append_assoc, List.mem_append, List.mem_append] at hf
        rcases hf with hbootstrap | hf
        · obtain ⟨b, -, hb⟩ := List.mem_flatMap.mp hbootstrap
          rw [broadcastGroupBootstrap] at hb
          split at hb
          · cases hb
          split at hb
          · rw [List.mem_singleton.mp hb] at hkind
            cases hkind
          · cases hb
        · exact happlied.carries hcard hencoded hhooks hf hkind
    · cases h
      exact .inl ⟨rfl, rfl⟩
  · cases h
    exact .inl ⟨rfl, rfl⟩

theorem renameGroup_sends (newName : String) :
    SendsApplied env amb s (.renameGroup groupId newName) := by
  refine .of_cases fun answer s' frames h => ?_
  change s.renameGroup env amb groupId newName = _ at h
  rw [renameGroup] at h
  split at h
  · next session me g hsession hcard hfind =>
    iterate 3
      split at h
      · cases h
        exact .inl ⟨rfl, rfl⟩
    split at h
    · cases h
    · cases h
      exact .inl ⟨rfl, rfl⟩
    next op hsign =>
    split at h
    · cases h
    · next e g' sx happly =>
      have happlied : Applied env amb s (.renameGroup groupId newName) op g' sx :=
        ⟨e, session, me, g, hsession, hcard, hfind, hsign, happly⟩
      exact .inr ⟨op, g', sx, happlied, fun f => happlied.publish hcard h⟩
    · cases h
      exact .inl ⟨rfl, rfl⟩
  · cases h
    exact .inl ⟨rfl, rfl⟩

/-- Promotion and demotion. -/
theorem roleOp_sends {o : LocalOp} (peerIdentity : Bytes) {kind : GroupOpKind}
    (hid : o.groupId = groupId) (hkind : o.kind amb = kind) (hnow : o.now amb = amb.now)
    (hperform : o.perform env amb s = s.signAndBroadcastRoleOp env amb groupId peerIdentity kind) :
    SendsApplied env amb s o := by
  refine .of_cases fun answer s' frames h => ?_
  rw [hperform, signAndBroadcastRoleOp] at h
  split at h
  · next session me g hsession hcard hfind =>
    iterate 2
      split at h
      · cases h
        exact .inl ⟨rfl, rfl⟩
    split at h
    · cases h
    · cases h
      exact .inl ⟨rfl, rfl⟩
    next op hsign =>
    split at h
    · cases h
    · next e g' sx happly =>
      have happlied : Applied env amb s o op g' sx :=
        ⟨e, session, me, g, hsession, hcard, hid ▸ hfind, hkind ▸ hnow ▸ hsign, happly⟩
      exact .inr ⟨op, g', sx, happlied, fun f => happlied.publish hcard h⟩
    · cases h
      exact .inl ⟨rfl, rfl⟩
    · cases h
      exact .inl ⟨rfl, rfl⟩
  · cases h
    exact .inl ⟨rfl, rfl⟩

theorem rotateMyGroupChain_sends : SendsApplied env amb s (.rotateMyGroupChain groupId) where
  success s' frames h := by
    obtain ⟨r, -, heq⟩ := Option.map_eq_some_iff.mp h
    cases heq
  sent answer s' frames h f hf hkind := by
    obtain ⟨r, hrotate, heq⟩ := Option.map_eq_some_iff.mp h
    cases heq
    obtain ⟨op, g', sx, happlied, hbody⟩ := rotate_sent hrotate hf hkind
    exact ⟨op, g', sx, happlied, .inl hbody⟩

/-! ## Removal -/

/-- `apply` would let a removal by the local user in, as far as the role goes. A group for which
no removal can be signed asks for no role. -/
def Entitled (env : GroupEnv) (s : ChatStore) : LocalOp → Prop
  | .removeFromGroup groupId peerIdentity => ∀ me g, s.session.isSome → s.myCard = some me →
      s.findGroup groupId = some g → Sized g → (nextEpoch g.currentEpoch).isSome →
      (g.memberSetRoot env).isSome → g.role me = some .admin → g.hasMember peerIdentity = true →
      g.isAuthorised me (.removeMember peerIdentity) = true
  | _ => True

/-- With the group's lengths in place a removal of a member is signed. -/
theorem signs_removal (hsigns : SignsFor env me session) (hsized : Sized g)
    (hnext : (nextEpoch g.currentEpoch).isSome) (hroot : (g.memberSetRoot env).isSome)
    (hrole : g.role me = some .admin) {peerIdentity : Bytes}
    (hmember : g.hasMember peerIdentity = true) (now : UInt64) :
    ∃ op, signNext env session me (.removeMember peerIdentity) now g = some (some op) ∧
      Issued env me (.removeMember peerIdentity) g op := by
  obtain ⟨epoch, hepoch⟩ := Option.isSome_iff_exists.mp hnext
  obtain ⟨root, hroot⟩ := Option.isSome_iff_exists.mp hroot
  have hrows : ∀ m ∈ g.members, m.peerId.length = identityKeySize := by
    have hroot' := hroot
    rw [memberSetRoot, memberSetRootOf] at hroot'
    split at hroot'
    · next hok => exact hok.2
    · cases hroot'
  have hme : me.length = identityKeySize := by
    obtain ⟨m, hfound, -⟩ := Option.map_eq_some_iff.mp hrole
    have hpeer := List.find?_some hfound
    exact of_decide_eq_true hpeer ▸ hrows m (List.mem_of_find?_eq_some hfound)
  have hpeer : peerIdentity.length = identityKeySize := by
    obtain ⟨m, hm, rfl, -⟩ := hasMember_iff.mp hmember
    exact hrows m hm
  obtain ⟨header, hheader⟩ : ∃ header, GroupOp.encodedHeader
      ⟨g.id, epoch, g.lastOpDigest, me, now, root, .removeMember peerIdentity,
        List.replicate signatureSize 0⟩ = .ok header := by
    refine ⟨_, GroupOp.encodedHeader_eq hsized.id hsized.lastOpDigest hme
      (length_memberSetRootOf hroot) (bind_eq_ok.mpr ⟨(), require_eq_ok.mpr hpeer, rfl⟩)⟩
  obtain ⟨sig, hsig, -⟩ := hsigns.groupOp header
  have hsign : ∃ op, signNext env session me (.removeMember peerIdentity) now g =
      some (some op) := by
    rw [signNext, hepoch, hroot]
    dsimp only [Option.bind_some, Option.map_some]
    rw [signOp, hheader]
    dsimp only
    rw [hsig]
    exact ⟨_, rfl⟩
  obtain ⟨op, hop⟩ := hsign
  exact ⟨op, hop, signNext_issued hsigns hop⟩

/-- What is signed has the lengths that a header needs. -/
theorem sized_of_signNext {kind : GroupOpKind} {now : UInt64}
    (h : signNext env session me kind now g = some (some op)) :
    Sized g ∧ (nextEpoch g.currentEpoch).isSome ∧ (g.memberSetRoot env).isSome := by
  obtain ⟨epoch, hnext, h⟩ := Option.bind_eq_some_iff.mp h
  obtain ⟨root, hroot, h⟩ := Option.map_eq_some_iff.mp h
  rw [signOp] at h
  dsimp only at h
  split at h
  · cases h
  next header hheader =>
  obtain ⟨_, hid, hheader⟩ := bind_eq_ok.mp hheader
  obtain ⟨_, hparent, -⟩ := bind_eq_ok.mp hheader
  rw [hnext, hroot]
  exact ⟨⟨require_eq_ok.mp hid, require_eq_ok.mp hparent⟩, rfl, rfl⟩

/-- What an operation signs, and what `apply` answers, is fixed by the store. -/
theorem Attempts.unique {o : LocalOp} {op' : GroupOp}
    {r r' : ApplyOutcome × ChatGroup × ApplySideEffects} (h : Attempts env amb s o op r)
    (h' : Attempts env amb s o op' r') : op' = op ∧ r' = r := by
  obtain ⟨session, me, g, hsession, hcard, hfind, hsign, happly⟩ := h
  obtain ⟨_, _, _, hsession', hcard', hfind', hsign', happly'⟩ := h'
  rw [hsession] at hsession'
  rw [hcard] at hcard'
  rw [hfind] at hfind'
  cases hsession'
  cases hcard'
  cases hfind'
  rw [hsign] at hsign'
  cases hsign'
  rw [happly] at happly'
  cases happly'
  exact ⟨rfl, rfl⟩

/-- A removal that is signed, in a group that does not let the user remove anybody: `apply`
refuses it, and the call goes on to send it. -/
theorem removeFromGroup_unauthorised (hsession : s.session = some session)
    (hcard : s.myCard = some me) (hfind : s.findGroup groupId = some g) {peerIdentity : Bytes}
    (hrole : g.role me = some .admin) (hmember : g.hasMember peerIdentity = true)
    (hsign : signNext env session me (.removeMember peerIdentity) amb.now g = some (some op))
    (hissued : Issued env me (.removeMember peerIdentity) g op)
    (hauth : ¬ g.isAuthorised me (.removeMember peerIdentity) = true) :
    g.apply env op { localIdentityPub := some me } =
        some (.rejectedAuthorization, g, { localIdentityPub := some me }) ∧
      ∃ s' frames, s.removeFromGroup env amb groupId peerIdentity = some (true, s', frames) ∧
        ∀ f ∈ s.broadcastToOthers g me op.wire, f ∈ frames := by
  have happly := hissued.apply_eq rfl rfl rfl rfl { localIdentityPub := some me }
  rw [if_pos hauth] at happly
  refine ⟨happly, ?_⟩
  rw [removeFromGroup, hsession, hcard, hfind]
  dsimp only
  rw [if_neg (not_not.mpr hrole), if_neg (not_not.mpr hmember), hsign]
  dsimp only
  rw [happly]
  dsimp only
  rw [ChatStore.publish, hissued.encoded]
  obtain ⟨g', frames, hhooks, -, -⟩ := applyPostMutationSideEffects_quiet env amb session g
    { localIdentityPub := some me } (s.setGroup g) rfl (.inl rfl)
  rw [hhooks]
  exact ⟨_, _, rfl, fun f hf => List.mem_append_left _ hf⟩

/-- A removal by a user whom `apply` lets remove members is refused as malformed, or applied. -/
theorem removeFromGroup_sends {peerIdentity : Bytes}
    (hsigns : ∀ me session, s.myCard = some me → s.session = some session →
      SignsFor env me session)
    (hentitled : ∀ me g, s.myCard = some me → s.findGroup groupId = some g →
      g.role me = some .admin → g.hasMember peerIdentity = true →
      (∃ op session, s.session = some session ∧
        signNext env session me (.removeMember peerIdentity) amb.now g = some (some op)) →
      g.isAuthorised me (.removeMember peerIdentity) = true) :
    SendsApplied env amb s (.removeFromGroup groupId peerIdentity) := by
  refine .of_cases fun answer s' frames h => ?_
  change s.removeFromGroup env amb groupId peerIdentity = _ at h
  rw [removeFromGroup] at h
  split at h
  · next session me g hsession hcard hfind =>
    split at h
    · cases h
      exact .inl ⟨rfl, rfl⟩
    next hrole =>
    split at h
    · cases h
      exact .inl ⟨rfl, rfl⟩
    next hmember =>
    split at h
    · cases h
    · cases h
      exact .inl ⟨rfl, rfl⟩
    next op hsign =>
    have hauth := hentitled me g hcard hfind (not_not.mp hrole) (not_not.mp hmember)
      ⟨op, session, hsession, hsign⟩
    have happly := (signNext_issued (hsigns me session hcard hsession) hsign).apply_eq
      rfl rfl rfl rfl { localIdentityPub := some me }
    rw [if_neg (not_not.mpr hauth)] at happly
    split at h
    · cases h
    · cases h
      exact .inl ⟨rfl, rfl⟩
    · next outcome g' sx hmalformed happly' =>
      -- an authorised op of our own is applied, or its mutation is refused as malformed
      have happlied : ∃ e, outcome = .applied e := by
        rw [happly] at happly'
        split at happly'
        · obtain ⟨r, -, heq⟩ := Option.map_eq_some_iff.mp happly'
          cases heq
          exact ⟨_, rfl⟩
        · cases happly'
          exact absurd rfl (hmalformed _)
      obtain ⟨e, rfl⟩ := happlied
      have happlied : Applied env amb s (.removeFromGroup groupId peerIdentity) op g' sx :=
        ⟨e, session, me, g, hsession, hcard, hfind, hsign, happly'⟩
      exact .inr ⟨op, g', sx, happlied, fun f => happlied.publish hcard h⟩
  · cases h
    exact .inl ⟨rfl, rfl⟩

/-- The operations broadcast what was applied, and answer `true` only then, except for a removal
that the local user is no longer entitled to. -/
theorem broadcast_only_after_applied_iff (o : LocalOp)
    (hsigns : ∀ me session, s.myCard = some me → s.session = some session →
      SignsFor env me session) :
    SendsApplied env amb s o ↔ Entitled env s o := by
  cases o with
  | inviteToGroup groupId contact => exact iff_of_true (inviteToGroup_sends contact) trivial
  | renameGroup groupId newName => exact iff_of_true (renameGroup_sends newName) trivial
  | promoteToAdmin groupId peer =>
    exact iff_of_true (roleOp_sends peer rfl rfl rfl rfl) trivial
  | demoteFromAdmin groupId peer =>
    exact iff_of_true (roleOp_sends peer rfl rfl rfl rfl) trivial
  | rotateMyGroupChain groupId => exact iff_of_true rotateMyGroupChain_sends trivial
  | removeFromGroup groupId peer =>
    constructor
    · intro hsends me g hsession hcard hfind hsized hnext hroot hrole hmember
      by_contra hauth
      obtain ⟨session, hsession⟩ := Option.isSome_iff_exists.mp hsession
      obtain ⟨op, hsign, hissued⟩ := signs_removal (hsigns me session hcard hsession) hsized hnext
        hroot hrole hmember amb.now
      obtain ⟨happly, s', frames, hremove, -⟩ :=
        removeFromGroup_unauthorised hsession hcard hfind hrole hmember hsign hissued hauth
      obtain ⟨_, _, _, e, happlied⟩ := hsends.success s' frames hremove
      have hattempt : Attempts env amb s (.removeFromGroup groupId peer) op _ :=
        ⟨session, me, g, hsession, hcard, hfind, hsign, happly⟩
      cases (hattempt.unique happlied).2
    · intro hentitled
      refine removeFromGroup_sends hsigns fun me g hcard hfind hrole hmember hsigned => ?_
      obtain ⟨op, session, hsession, hsign⟩ := hsigned
      obtain ⟨hsized, hnext, hroot⟩ := sized_of_signNext hsign
      exact hentitled me g (by rw [hsession]; rfl) hcard hfind hsized hnext hroot hrole hmember

/-- Peer 2 has accepted the invitation and is made an admin. -/
def samplePromoted : Client :=
  sampleJoined.did namingEnv 3 (arrivesFrom1 (nextFrom1 sampleJoined (.promoteAdmin (samplePeer 2))))

/-- Then peer 1 removes peer 2. -/
def sampleExpelled : Client :=
  samplePromoted.did namingEnv 4
    (arrivesFrom1 (nextFrom1 samplePromoted (.removeMember (samplePeer 2))))

theorem broadcast_only_after_applied_iff_promoted :
    SendsApplied namingEnv (sampleAmbient 4) samplePromoted.store
      (.removeFromGroup sampleGroupId (samplePeer 3)) := by
  refine (broadcast_only_after_applied_iff _ fun me session hcard hsession => ?_).mpr ?_
  · have hasked : IsPeer2 sampleAsked := isPeer2_sampleInvitee.did namingEnv (.inl trivial)
    have haccepted : IsPeer2 sampleJoined := hasked.did namingEnv (.inl trivial)
    have hpeer : IsPeer2 samplePromoted := haccepted.did namingEnv (.inl trivial)
    rw [hpeer.card] at hcard
    rw [hpeer.session] at hsession
    cases hcard
    cases hsession
    exact sampleSession_signs _
  · -- the row of peer 2 is that of an active admin
    intro me g _ hcard hfind _ _ _ _ _
    have hrow : (samplePromoted.store.myCard.bind fun me =>
        (samplePromoted.store.findGroup sampleGroupId).map fun g => g.hasAdmin me) =
        some true := by
      decide +kernel
    rw [hcard, hfind] at hrow
    exact Option.some.inj hrow

/-- Peer 2, no longer in the group, removes peer 3: `apply` refuses the op, and the op goes out
to peers 1 and 3. -/
theorem expelled_admin_broadcasts :
    Runs.Reach (Client.Step namingEnv) (fun _ _ => True) sampleInvitee sampleExpelled ∧
      (∃ op g sx s' frames, Attempts namingEnv (sampleAmbient 5) sampleExpelled.store
          (.removeFromGroup sampleGroupId (samplePeer 3)) op (.rejectedAuthorization, g, sx) ∧
        sampleExpelled.store.removeFromGroup namingEnv (sampleAmbient 5) sampleGroupId
          (samplePeer 3) = some (true, s', frames) ∧
        ∀ peer ∈ [samplePeer 1, samplePeer 3], ⟨peer, .groupOp, op.wire⟩ ∈ frames) ∧
      ¬ SendsApplied namingEnv (sampleAmbient 5) sampleExpelled.store
        (.removeFromGroup sampleGroupId (samplePeer 3)) := by
  have hasked : IsPeer2 sampleAsked := isPeer2_sampleInvitee.did namingEnv (.inl trivial)
  have haccepted : IsPeer2 sampleJoined := hasked.did namingEnv (.inl trivial)
  have hpromoted : IsPeer2 samplePromoted := haccepted.did namingEnv (.inl trivial)
  have hpeer : IsPeer2 sampleExpelled := hpromoted.did namingEnv (.inl trivial)
  have hrun : Runs.Reach (Client.Step namingEnv) (fun _ _ => True) sampleInvitee sampleExpelled := by
    refine reach_sample (reach_sample (reach_sample (reach_sample .refl ?_ trivial) ?_ trivial) ?_
      trivial) ?_ trivial
    · decide +kernel
    · decide +kernel
    · decide +kernel
    · decide +kernel
  have hstore : (sampleExpelled.store.findGroup sampleGroupId).any (fun g =>
      g.role (samplePeer 2) = some .admin && g.hasMember (samplePeer 3) &&
        ! g.hasAdmin (samplePeer 2) && (nextEpoch g.currentEpoch).isSome &&
        (g.memberSetRoot namingEnv).isSome && g.id.length = groupIdSize &&
        g.lastOpDigest.length = parentDigestSize &&
        others g (samplePeer 2) = [samplePeer 1, samplePeer 3]) = true := by
    decide +kernel
  rw [Option.any_eq_true] at hstore
  obtain ⟨g, hfind, hrow⟩ := hstore
  simp only [Bool.and_eq_true, decide_eq_true_eq, Bool.not_eq_true'] at hrow
  obtain ⟨⟨⟨⟨⟨⟨⟨hrole, hmember⟩, hadmin⟩, hnext⟩, hroot⟩, hid⟩, hdigest⟩, hothers⟩ := hrow
  have hsigns := sampleSession_signs (samplePeer 2)
  obtain ⟨op, hsign, hissued⟩ := signs_removal hsigns ⟨hid, hdigest⟩ hnext hroot hrole hmember
    (sampleAmbient 5).now
  have hauth : ¬ g.isAuthorised (samplePeer 2) (.removeMember (samplePeer 3)) = true := by
    show ¬ g.hasAdmin (samplePeer 2) = true
    rw [hadmin]
    exact Bool.false_ne_true
  obtain ⟨happly, s', frames, hremove, hframes⟩ :=
    removeFromGroup_unauthorised hpeer.session hpeer.card hfind hrole hmember hsign hissued hauth
  have hattempt : Attempts namingEnv (sampleAmbient 5) sampleExpelled.store
      (.removeFromGroup sampleGroupId (samplePeer 3)) op _ :=
    ⟨_, _, g, hpeer.session, hpeer.card, hfind, hsign, happly⟩
  have hcontacts : ∀ peer ∈ [samplePeer 1, samplePeer 3],
      sampleExpelled.store.isContact peer = true := by
    decide +kernel
  refine ⟨hrun, ⟨op, _, _, s', frames, hattempt, hremove, fun peer hlisted => ?_⟩, fun hsends => ?_⟩
  · refine hframes _ (List.mem_flatMap.mpr ⟨peer, hothers ▸ hlisted, ?_⟩)
    rw [broadcastGroupOp, if_pos (hcontacts peer hlisted)]
    exact List.mem_singleton_self _
  · obtain ⟨_, _, _, e, happlied⟩ := hsends.success s' frames hremove
    cases (hattempt.unique happlied).2

end Pizzini.Group
