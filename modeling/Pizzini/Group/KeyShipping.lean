import Pizzini.Group.ClientCalls
import Pizzini.Group.SideEffects

/-!
# Shipping sender keys

One lemma for each function of `ChatStoreGroups` that hands a sender key to other members:
what it leaves of the group, whom its frames reach, and which key they carry. The two
properties of a run (no removed peer is handed the current key, every other member is) are
proved from these lemmas alone.
-/

namespace Pizzini.Group

open Wire ChatGroup ChatStore

variable {env : GroupEnv} {amb : Ambient} {s s' : ChatStore} {g g' : ChatGroup} {me : Bytes}
  {keyId : Bytes → Option UUID} {session : Session} {frames : List Frame} {dist : UUID}

/-! ## Frames -/

/-- The frame that hands `skdm` to a peer. -/
def keyFrame (groupId skdm peer : Bytes) : Frame :=
  ⟨peer, .groupKeyDistribution, withGroupId groupId skdm⟩

theorem keyOf_keyFrame {groupId skdm peer : Bytes} (hid : groupId.length = groupIdSize) :
    (keyFrame groupId skdm peer).keyOf keyId = keyId skdm := by
  have hsplit : splitGroupId (groupId ++ skdm) = some (groupId, skdm) := takeBytes_append hid skdm
  show (splitGroupId (groupId ++ skdm)).bind _ = _
  rw [hsplit]
  rfl

theorem keyOf_of_kind {f : Frame} (hkind : f.kind ≠ .groupKeyDistribution) :
    f.keyOf keyId = none := by
  rw [Frame.keyOf]
  split
  · exact absurd ‹_› hkind
  · rfl

/-- The frames carry no sender key. -/
def Keyless (keyId : Bytes → Option UUID) (frames : List Frame) : Prop :=
  ∀ f ∈ frames, f.keyOf keyId = none

theorem Keyless.append {frames frames' : List Frame} (h : Keyless keyId frames)
    (h' : Keyless keyId frames') : Keyless keyId (frames ++ frames') := by
  intro f hf
  rcases List.mem_append.mp hf with hf | hf
  · exact h f hf
  · exact h' f hf

theorem keyless_nil : Keyless keyId [] := fun _ hf => absurd hf List.not_mem_nil

theorem keyless_broadcastGroupOp (s : ChatStore) (bytes peer : Bytes) :
    Keyless keyId (s.broadcastGroupOp bytes peer) := by
  intro f hf
  rw [broadcastGroupOp] at hf
  split at hf
  · rw [List.mem_singleton.mp hf]
    exact keyOf_of_kind nofun
  · cases hf

theorem mem_others {peer : Bytes} : peer ∈ others g me ↔ g.hasMember peer = true ∧ peer ≠ me := by
  rw [others, List.mem_filter, decide_eq_true_eq, hasMember_iff]
  refine and_congr_left' ?_
  rw [List.mem_map]
  constructor
  · rintro ⟨m, hm, rfl⟩
    rw [activeMembers, List.mem_filter, decide_eq_true_eq] at hm
    exact ⟨m, hm.1, rfl, hm.2⟩
  · rintro ⟨m, hm, rfl, hstatus⟩
    exact ⟨m, List.mem_filter.mpr ⟨hm, decide_eq_true hstatus⟩, rfl⟩

/-! ## The shipping loop -/

/-- The frames of the loop to one peer. -/
def keyFramesTo (s : ChatStore) (groupId skdm : Bytes) (first : Bytes → List Frame) (peer : Bytes) :
    List Frame :=
  first peer ++ if s.isContact peer then [keyFrame groupId skdm peer] else []

/-- What the loop leaves. -/
theorem shipKey_eq (s : ChatStore) (skdm : Bytes) (first : Bytes → List Frame) (peers : List Bytes)
    (g : ChatGroup) :
    s.shipKey skdm first peers g =
      ({ g with
          mySkdmRecipients := g.mySkdmRecipients ∪ (peers.filter s.isContact).toFinset },
        peers.flatMap (keyFramesTo s g.id skdm first)) := by
  induction peers generalizing g with
  | nil =>
    rw [shipKey, List.filter_nil, List.toFinset_nil, Finset.union_empty]
    rfl
  | cons peer peers ih =>
    rw [shipKey, List.flatMap_cons, List.filter_cons]
    by_cases hcontact : s.isContact peer = true
    · have hone : s.broadcastSenderKeyDistribution skdm peer g =
          ({ g with mySkdmRecipients := insert peer g.mySkdmRecipients },
            [keyFrame g.id skdm peer]) := if_pos hcontact
      rw [hone, ih, if_pos hcontact, List.toFinset_cons, Finset.insert_union, Finset.union_insert,
        keyFramesTo, if_pos hcontact]
    · have hone : s.broadcastSenderKeyDistribution skdm peer g = (g, []) := if_neg hcontact
      rw [hone, ih, if_neg hcontact, keyFramesTo, if_neg hcontact]

/-- `r` is the group `g` after its key `skdm` went to `peers`, and the frames of that; every
frame is one of `first` or the key. -/
structure Ships (s : ChatStore) (skdm : Bytes) (first : Bytes → List Frame) (peers : List Bytes)
    (g : ChatGroup) (r : ChatGroup × List Frame) : Prop where
  group : ∃ recipients, r.1 = { g with mySkdmRecipients := recipients } ∧
    ∀ peer ∈ recipients, peer ∈ g.mySkdmRecipients ∨ keyFrame g.id skdm peer ∈ r.2
  frames : ∀ f ∈ r.2, (∃ peer, f ∈ first peer) ∨ ∃ peer ∈ peers, f = keyFrame g.id skdm peer
  reached : ∀ peer ∈ peers, s.isContact peer = true → keyFrame g.id skdm peer ∈ r.2

theorem shipKey_ships (s : ChatStore) (skdm : Bytes) (first : Bytes → List Frame)
    (peers : List Bytes) (g : ChatGroup) :
    Ships s skdm first peers g (s.shipKey skdm first peers g) := by
  rw [shipKey_eq]
  have hreached : ∀ peer ∈ peers, s.isContact peer = true →
      keyFrame g.id skdm peer ∈ peers.flatMap (keyFramesTo s g.id skdm first) := by
    intro peer hpeer hcontact
    refine List.mem_flatMap.mpr ⟨peer, hpeer, List.mem_append_right _ ?_⟩
    rw [if_pos hcontact]
    exact List.mem_singleton_self _
  refine ⟨⟨_, rfl, fun peer hpeer => ?_⟩, fun f hf => ?_, hreached⟩
  · rcases Finset.mem_union.mp hpeer with hold | hnew
    · exact .inl hold
    · obtain ⟨hmem, hcontact⟩ := List.mem_filter.mp (List.mem_toFinset.mp hnew)
      exact .inr (hreached peer hmem hcontact)
  · obtain ⟨peer, hpeer, hf⟩ := List.mem_flatMap.mp hf
    rcases List.mem_append.mp hf with hf | hf
    · exact .inl ⟨peer, hf⟩
    · split at hf
      · exact .inr ⟨peer, hpeer, List.mem_singleton.mp hf⟩
      · cases hf

/-- Every key of a shipment is the one shipped, and goes to one of the peers. -/
theorem Ships.key {skdm : Bytes} {first : Bytes → List Frame} {peers : List Bytes}
    {r : ChatGroup × List Frame} (h : Ships s skdm first peers g r)
    (hid : g.id.length = groupIdSize) (hfirst : ∀ peer, Keyless keyId (first peer))
    (hkey : keyId skdm = some dist) {f : Frame} (hf : f ∈ r.2) {d : UUID}
    (hd : f.keyOf keyId = some d) : d = dist ∧ f.recipient ∈ peers := by
  rcases h.frames f hf with ⟨peer, hpeer⟩ | ⟨peer, hpeer, rfl⟩
  · rw [hfirst peer f hpeer] at hd
    cases hd
  · rw [keyOf_keyFrame hid, hkey] at hd
    exact ⟨(Option.some.inj hd).symm, hpeer⟩

/-- A contact among the peers was handed the key. -/
theorem Ships.handed {skdm : Bytes} {first : Bytes → List Frame} {peers : List Bytes}
    {r : ChatGroup × List Frame} (h : Ships s skdm first peers g r)
    (hid : g.id.length = groupIdSize) (hkey : keyId skdm = some dist) {peer : Bytes}
    (hpeer : peer ∈ peers) (hcontact : s.isContact peer = true) : Handed keyId r.2 peer dist :=
  ⟨_, h.reached peer hpeer hcontact, rfl, (keyOf_keyFrame hid).trans hkey⟩

/-! ## Signing a rotation -/

/-- The lengths that the header of an op needs. -/
structure Sized (g : ChatGroup) : Prop where
  id : g.id.length = groupIdSize
  lastOpDigest : g.lastOpDigest.length = parentDigestSize

/-- A rotation has a header. -/
theorem rotation_header {op : GroupOp} (hkind : op.kind = .rotateSenderKey dist)
    (hid : op.groupId.length = groupIdSize) (hparent : op.parentDigest.length = parentDigestSize)
    (hoperator : op.operatorIdentity.length = identityKeySize)
    (hroot : op.priorMemberSetRoot.length = memberSetRootSize) :
    ∃ header, op.encodedHeader = .ok header := by
  have hpayload : op.kind.encodedPayload = .ok dist.1 := by
    rw [hkind]
    rfl
  exact ⟨_, bind_eq_ok.mpr ⟨(), require_eq_ok.mpr hid, bind_eq_ok.mpr ⟨(), require_eq_ok.mpr hparent,
    bind_eq_ok.mpr ⟨(), require_eq_ok.mpr hoperator, bind_eq_ok.mpr ⟨(), require_eq_ok.mpr hroot,
      bind_eq_ok.mpr ⟨_, hpayload, rfl⟩⟩⟩⟩⟩⟩

/-- Signing a rotation of a held group does not fail, and what it returns is the group's next
op. -/
theorem Capable.signs_rotation (hcap : Capable env keyId me session) (hme : me.length = identityKeySize)
    (hsized : Sized g) {now : UInt64} {r : Option GroupOp}
    (h : signNext env session me (.rotateSenderKey dist) now g = some r) :
    ∃ op, r = some op ∧ Issued env me (.rotateSenderKey dist) g op := by
  cases r with
  | some op => exact ⟨op, rfl, signNext_issued_of
      (fun unsigned header hop hkind hheader => hcap.signs unsigned _ header hop hkind hheader) h⟩
  | none =>
    obtain ⟨epoch, -, h⟩ := Option.bind_eq_some_iff.mp h
    obtain ⟨root, hroot, h⟩ := Option.map_eq_some_iff.mp h
    obtain ⟨unsigned, hunsigned⟩ : ∃ unsigned : GroupOp, unsigned =
      ⟨g.id, epoch, g.lastOpDigest, me, now, root, .rotateSenderKey dist,
        List.replicate signatureSize 0⟩ := ⟨_, rfl⟩
    have hkind : unsigned.kind = .rotateSenderKey dist := by rw [hunsigned]
    have hoperator : unsigned.operatorIdentity = me := by rw [hunsigned]
    obtain ⟨header, hheader⟩ := rotation_header hkind (by rw [hunsigned]; exact hsized.id)
      (by rw [hunsigned]; exact hsized.lastOpDigest) (hoperator ▸ hme)
      (by rw [hunsigned]; exact length_memberSetRootOf hroot)
    obtain ⟨sig, hsig, -⟩ := hcap.signs unsigned dist header hoperator hkind hheader
    rw [hunsigned] at hheader
    rw [signOp, hheader] at h
    dsimp only at h
    rw [hsig] at h
    cases h

/-! ## Rotation -/

/-- The group after a rotation that `apply` has let in as `h`. -/
def ChatGroup.rotated (h : ChatGroup) (amb : Ambient) (me : Bytes) : ChatGroup :=
  { h with
    myCurrentDistributionId := some amb.rotateId
    memberDistributionIds := h.memberDistributionIds.insert me amb.rotateId
    sentSinceRotation := 0
    lastRotatedAt := amb.rotateNow
    mySkdmRecipients := ∅ }

/-- A rotation of a group that the local user is in goes through: the op takes effect on `g`
as `h`, and the new key goes to the others. -/
theorem rotateMyGroupChain_spec {groupId : Bytes} (hcap : Capable env keyId me session)
    (hme : me.length = identityKeySize) (hsession : s.session = some session)
    (hcard : s.myCard = some me) (hfind : s.findGroup groupId = some g) (hsized : Sized g)
    (hmember : g.hasMember me = true)
    (h : rotateMyGroupChain env amb groupId s = some (s', frames)) :
    ∃ op skdm h sx r, session.senderKeyDistributionCreate amb.rotateId = some skdm ∧
      keyId skdm = some amb.rotateId ∧
      signNext env session me (.rotateSenderKey amb.rotateId) amb.rotateNow g = some (some op) ∧
      Issued env me (.rotateSenderKey amb.rotateId) g op ∧
      g.apply env op { localIdentityPub := some me } = some (.applied op.epoch, h, sx) ∧
      Ships s skdm (s.broadcastGroupOp op.wire) (others (h.rotated amb me) me) (h.rotated amb me) r ∧
      s' = s.setGroup r.1 ∧ frames = r.2 := by
  obtain ⟨skdm, hskdm, hkey⟩ := hcap.mints amb.rotateId
  rw [rotateMyGroupChain, hsession, hcard, hfind] at h
  dsimp only at h
  rw [if_neg (by rw [hmember]; exact not_not.mpr rfl), hskdm] at h
  dsimp only at h
  split at h
  · cases h
  · next hsign =>
    obtain ⟨op, hop, -⟩ := hcap.signs_rotation hme hsized hsign
    cases hop
  next op hsign =>
  obtain ⟨_, hsame, hissued⟩ := hcap.signs_rotation hme hsized hsign
  obtain rfl := Option.some.inj hsame
  have hauth : g.isAuthorised me (.rotateSenderKey amb.rotateId) = true := hmember
  have happly := hissued.apply_eq rfl rfl rfl rfl { localIdentityPub := some me }
  rw [if_neg (by rw [hauth]; exact not_not.mpr rfl)] at happly
  have hexec : g.executeMutation op { localIdentityPub := some me } =
      (.ok, g.setMemberDistId amb.rotateId me, { localIdentityPub := some me }) := by
    rw [executeMutation, hissued.kind, hissued.operator]
  rw [hexec] at happly
  dsimp only at happly
  -- `apply` lets the op in, or traps
  cases hreplay : replayPending env ((g.setMemberDistId amb.rotateId me).advance op.epoch
      (env.hash op.wire)) { localIdentityPub := some me } with
  | none =>
    rw [happly, hreplay] at h
    cases h
  | some landed =>
    rw [hreplay, Option.map_some] at happly
    rw [happly] at h
    dsimp only at h
    rw [hissued.encoded] at h
    cases h
    exact ⟨op, skdm, landed.1, landed.2, _, hskdm, hkey, hsign, hissued, happly,
      shipKey_ships s skdm _ _ _, rfl, rfl⟩

/-- A rotation does nothing, or the device has a session and the group, and the local user is
in it. -/
theorem rotateMyGroupChain_idle {groupId : Bytes}
    (h : rotateMyGroupChain env amb groupId s = some (s', frames)) :
    (s' = s ∧ frames = []) ∨ ∃ session me g, s.session = some session ∧ s.myCard = some me ∧
      s.findGroup groupId = some g ∧ g.hasMember me = true := by
  rw [rotateMyGroupChain] at h
  split at h
  · next session me g hsession hcard hfind =>
    split at h
    · cases h
      exact .inl ⟨rfl, rfl⟩
    · next hmember =>
      exact .inr ⟨session, me, g, hsession, hcard, hfind, Classical.not_not.mp hmember⟩
  · cases h
    exact .inl ⟨rfl, rfl⟩

/-- A rotation of a group that the local user is not in does nothing. -/
theorem rotateMyGroupChain_stranded {groupId : Bytes} (hcard : s.myCard = some me)
    (hfind : s.findGroup groupId = some g) (hmember : g.hasMember me = false)
    (h : rotateMyGroupChain env amb groupId s = some (s', frames)) : s' = s ∧ frames = [] := by
  rcases rotateMyGroupChain_idle h with hidle | ⟨_, me', g', -, hcard', hfind', hmember'⟩
  · exact hidle
  · rw [hcard] at hcard'
    rw [hfind] at hfind'
    cases hcard'
    cases hfind'
    rw [hmember] at hmember'
    cases hmember'

/-- `s'` is `s` with other groups. -/
def Writes (s s' : ChatStore) : Prop := ∃ groups, s' = { s with groups := groups }

/-- A rotation writes groups only. -/
theorem rotateMyGroupChain_writes {groupId : Bytes}
    (h : rotateMyGroupChain env amb groupId s = some (s', frames)) : Writes s s' := by
  rw [rotateMyGroupChain] at h
  split at h
  · split at h
    · cases h
      exact ⟨s.groups, rfl⟩
    split at h
    · cases h
      exact ⟨s.groups, rfl⟩
    split at h
    · cases h
    · cases h
      exact ⟨s.groups, rfl⟩
    split at h
    · cases h
    · dsimp only at h
      split at h
      · cases h
        exact ⟨_, rfl⟩
      · cases h
        exact ⟨_, rfl⟩
    · cases h
      exact ⟨_, rfl⟩
  · cases h
    exact ⟨s.groups, rfl⟩

/-! ## Reaching the members that have no key -/

/-- Nothing is done, or the current key goes to every other member without one. -/
theorem ensureMySKDM_spec (hcap : Capable env keyId me session) (hcard : s.myCard = some me)
    {r : ChatGroup × List Frame} (h : s.ensureMySKDMReachesActiveMembers session g = r) :
    (g.myCurrentDistributionId = none ∧ r = (g, [])) ∨
      ∃ dist, g.myCurrentDistributionId = some dist ∧
        (((∀ peer ∈ others g me, peer ∈ g.mySkdmRecipients) ∧ r = (g, [])) ∨
          ∃ skdm, keyId skdm = some dist ∧ Ships s skdm (fun _ => [])
            ((others g me).filter fun peerId => peerId ∉ g.mySkdmRecipients) g r) := by
  rw [ensureMySKDMReachesActiveMembers, hcard] at h
  cases hdist : g.myCurrentDistributionId with
  | none =>
    rw [hdist] at h
    exact .inl ⟨rfl, h.symm⟩
  | some dist =>
    rw [hdist] at h
    dsimp only at h
    obtain ⟨skdm, hskdm, hkey⟩ := hcap.mints dist
    refine .inr ⟨dist, rfl, ?_⟩
    split at h
    · next hnone =>
      refine .inl ⟨fun peer hpeer => ?_, h.symm⟩
      by_contra hmissing
      have : peer ∈ (others g me).filter fun peerId => peerId ∉ g.mySkdmRecipients :=
        List.mem_filter.mpr ⟨hpeer, decide_eq_true hmissing⟩
      rw [hnone] at this
      cases this
    · rw [hskdm] at h
      subst h
      exact .inr ⟨skdm, hkey, shipKey_ships s skdm _ _ g⟩

/-! ## Enrolment -/

/-- The group that `enrolMyChainOnFirstJoin` ships the key of. -/
def ChatGroup.enrolled (g : ChatGroup) (amb : Ambient) (me : Bytes) : ChatGroup :=
  { g with
    myCurrentDistributionId := some amb.chainId
    memberDistributionIds := g.memberDistributionIds.insert me amb.chainId
    members := updateFirst (fun m => m.peerId = me) (fun m => { m with status := .active }) g.members
    mySkdmRecipients := ∅ }

/-- The first join mints a chain and ships its key; a group that has a chain stays as it is. -/
theorem enrol_spec (hcap : Capable env keyId me session) (hcard : s.myCard = some me)
    {r : ChatGroup × List Frame} (h : s.enrolMyChainOnFirstJoin amb session g = r) :
    (g.myCurrentDistributionId.isSome ∧ r = (g, [])) ∨
      (g.myCurrentDistributionId = none ∧ ∃ skdm, keyId skdm = some amb.chainId ∧
        Ships s skdm (fun _ => []) (others (g.enrolled amb me) me) (g.enrolled amb me) r) := by
  rw [enrolMyChainOnFirstJoin, hcard] at h
  cases hdist : g.myCurrentDistributionId with
  | some d =>
    rw [hdist] at h
    exact .inl ⟨rfl, h.symm⟩
  | none =>
    obtain ⟨skdm, hskdm, hkey⟩ := hcap.mints amb.chainId
    rw [hdist] at h
    dsimp only at h
    rw [hskdm] at h
    subst h
    exact .inr ⟨rfl, skdm, hkey, shipKey_ships s skdm _ _ (g.enrolled amb me)⟩

/-- The row of the local user is active, everybody else's stays. -/
theorem hasMember_activated {me peer : Bytes}
    (hmembers : g'.members = updateFirst (fun m => m.peerId = me)
      (fun m => { m with status := .active }) g.members)
    (h : g.hasMember peer = true) : g'.hasMember peer = true :=
  hasMember_updateFirst hmembers (fun _ _ hpeer _ => ⟨hpeer, nofun⟩) h

/-! ## The hooks -/

/-- The group after `requestSelfChainClear`. -/
def ChatGroup.cleared (g : ChatGroup) (amb : Ambient) (me : Bytes) : ChatGroup :=
  { g with
    myCurrentDistributionId := if g.hasMember me then some amb.chainId else none
    mySkdmRecipients := ∅
    sentSinceRotation := 0
    lastRotatedAt := if g.hasMember me then amb.now else g.lastRotatedAt }

/-- The group that the rest of the hooks works on. -/
def ChatGroup.hooked (g : ChatGroup) (amb : Ambient) (me : Bytes) (sx : ApplySideEffects) :
    ChatGroup :=
  if sx.requestSelfChainClear then g.cleared amb me else g

/-- What the hooks can do. -/
theorem hooks_cases {sx : ApplySideEffects} (hcard : s.myCard = some me)
    (h : applyPostMutationSideEffects env amb session g sx s = some (s', frames)) :
    ((sx.requestSelfChainClear = true ∧ g.hasMember me = false ∨ g.pendingInvitation = true) ∧
        s' = s.setGroup (g.hooked amb me sx) ∧ frames = []) ∨
      (g.pendingInvitation = false ∧
        (sx.requestSelfChainClear = true → g.hasMember me = true) ∧
        ((sx.requestSelfRotation = true ∧ rotateMyGroupChain env amb g.id
            (s.setGroup (g.hooked amb me sx)) = some (s', frames)) ∨
          (sx.requestSelfRotation = false ∧ ∃ r,
            s.ensureMySKDMReachesActiveMembers session (g.hooked amb me sx) = r ∧
            s' = s.setGroup (s.surfaceUnverified sx.newActiveMembers r.1) ∧ frames = r.2))) := by
  have hid : (g.hooked amb me sx).id = g.id := by
    rw [hooked]
    split <;> rfl
  have hpending : (g.hooked amb me sx).pendingInvitation = g.pendingInvitation := by
    rw [hooked]
    split <;> rfl
  obtain ⟨g₁, hg₁⟩ : ∃ g₁, g₁ = g.hooked amb me sx := ⟨_, rfl⟩
  rw [← hg₁] at hid hpending ⊢
  have heq : applyPostMutationSideEffects env amb session g sx s =
      if sx.requestSelfChainClear = true ∧ ¬ g.hasMember me = true then some (s.setGroup g₁, [])
      else if g₁.pendingInvitation = true then some (s.setGroup g₁, [])
      else if sx.requestSelfRotation = true then rotateMyGroupChain env amb g₁.id (s.setGroup g₁)
      else
        let shipped := s.ensureMySKDMReachesActiveMembers session g₁
        some (s.setGroup (s.surfaceUnverified sx.newActiveMembers shipped.1), shipped.2) := by
    rw [applyPostMutationSideEffects, hcard, hg₁]
    rfl
  rw [heq, hid, hpending] at h
  split at h
  · next hgone =>
    cases h
    exact .inl ⟨.inl ⟨hgone.1, Bool.eq_false_iff.mpr hgone.2⟩, rfl, rfl⟩
  next hstays =>
  split at h
  · next hwaits =>
    cases h
    exact .inl ⟨.inr hwaits, rfl, rfl⟩
  next haccepted =>
  refine .inr ⟨Bool.eq_false_iff.mpr haccepted, fun hclear => ?_, ?_⟩
  · by_contra hgone
    exact hstays ⟨hclear, hgone⟩
  split at h
  · next hrotate => exact .inl ⟨hrotate, h⟩
  · next hno =>
    cases h
    exact .inr ⟨Bool.eq_false_iff.mpr hno, _, rfl, rfl, rfl⟩

/-- The hooks write groups only. -/
theorem hooks_writes {sx : ApplySideEffects} (hcard : s.myCard = some me)
    (h : applyPostMutationSideEffects env amb session g sx s = some (s', frames)) :
    Writes s s' := by
  obtain ⟨-, rfl, -⟩ | ⟨-, -, ⟨-, hrotate⟩ | ⟨-, r, -, rfl, -⟩⟩ := hooks_cases hcard h
  · exact ⟨_, rfl⟩
  · obtain ⟨groups, heq⟩ := rotateMyGroupChain_writes hrotate
    exact ⟨groups, heq⟩
  · exact ⟨_, rfl⟩

end Pizzini.Group
