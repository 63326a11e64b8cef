import Pizzini.Group.CallCases

/-!
# What a call does to the sender key of a group

`KeyStep` is what one call may do to one group, as far as sender keys go: drop the id in use,
draw a new one, or keep it while it takes nobody out; the keys that go out are the new group's,
and go to its members. The lemmas below show it for a rotation, for the hooks after `apply`, and
for each other way in which a call changes a group.
-/

namespace Pizzini.Group

open Wire ChatGroup ChatStore

variable {env : GroupEnv} {amb : Ambient} {s s' : ChatStore} {g g' g'' : ChatGroup} {me : Bytes}
  {keyId : Bytes → Option UUID} {session : Session} {frames : List Frame} {op : GroupOp}
  {sx : ApplySideEffects} {fresh : List UUID} {arrived : List GroupOp} {groupId : Bytes}

/-! ## What `apply` leaves of the rest -/

theorem apply_digest_length {outcome : ApplyOutcome} {sx' : ApplySideEffects}
    (h : g.apply env op sx = some (outcome, g', sx'))
    (hlen : g.lastOpDigest.length = parentDigestSize) :
    g'.lastOpDigest.length = parentDigestSize := by
  refine apply_invariant (fun k => k.lastOpDigest.length = parentDigestSize) h
    (fun _ _ hk => hk) (fun _ hlands _ => ?_) hlen
  rw [hlands.frame.2.2.1, GroupEnv.length_hash, parentDigestSize]

/-- An op that is not applied changes nothing, or is parked. -/
theorem apply_refused {outcome : ApplyOutcome} {sx' : ApplySideEffects}
    (h : g.apply env op sx = some (outcome, g', sx')) (hrefused : ∀ e, outcome ≠ .applied e) :
    g' = g ∨ ∃ bytes, op.encoded = .ok bytes ∧ outcome = .queued op.epoch ∧
      g' = g.queuePending bytes := by
  have hstep : applyStep env sx.localIdentityPub op g = some (outcome, g') := by
    rw [← apply_applyStep, h]
    rfl
  obtain ⟨hsame, -⟩ | ⟨bytes, hencoded, -, hqueued⟩ | ⟨_, _, -, -, -, -, -, happlied, -⟩ :=
    applyStep_cases hstep
  · exact .inl hsame
  · obtain ⟨hout, hgroup⟩ := Prod.mk.inj hqueued
    exact .inr ⟨bytes, hencoded, hout, hgroup⟩
  · exact absurd happlied (hrefused _)

/-- An applied op parks nothing. -/
theorem apply_unparked {e : UInt64} {sx' : ApplySideEffects}
    (h : g.apply env op sx = some (.applied e, g', sx')) :
    ∀ bytes ∈ g'.pendingOps, bytes ∈ g.pendingOps := by
  have hstep : applyStep env sx.localIdentityPub op g = some (.applied e, g') := by
    rw [← apply_applyStep, h]
    rfl
  obtain ⟨-, hnot⟩ | ⟨_, -, -, hqueued⟩ | ⟨_, g₁, -, -, -, -, hlands, -, hreplay⟩ :=
    applyStep_cases hstep
  · exact absurd rfl (hnot e)
  · exact absurd (Prod.mk.inj hqueued).1 nofun
  · intro bytes hbytes
    obtain ⟨⟨kept, g₂⟩, hdrain, rfl⟩ := Option.map_eq_some_iff.mp hreplay
    have hkept : bytes ∈ (sortByEpoch (decodePending g₁.pendingOps)).map Prod.snd :=
      (drain_kept_sublist hdrain).subset hbytes
    obtain ⟨⟨x, b⟩, hentry, rfl⟩ := List.mem_map.mp hkept
    obtain ⟨b', hb', hdecode⟩ := List.mem_filterMap.mp ((List.mem_insertionSort _).mp hentry)
    obtain ⟨_, -, heq⟩ := Option.map_eq_some_iff.mp hdecode
    cases heq
    rwa [hlands.frame.2.2.2] at hb'

/-- The client's own op is for the next epoch, so it is not parked. -/
theorem apply_own_unparked {outcome : ApplyOutcome} {sx' : ApplySideEffects}
    (h : g.apply env op sx = some (outcome, g', sx'))
    (hnext : nextEpoch g.currentEpoch = some op.epoch) :
    ∀ bytes ∈ g'.pendingOps, bytes ∈ g.pendingOps := by
  by_cases happlied : ∃ e, outcome = .applied e
  · obtain ⟨e, rfl⟩ := happlied
    exact apply_unparked h
  · rcases apply_refused h (fun e he => happlied ⟨e, he⟩) with rfl | ⟨bytes, hencoded, hqueued, -⟩
    · exact fun _ hbytes => hbytes
    · -- the queue takes only ops from further ahead
      have hstep : applyStep env sx.localIdentityPub op g = some (outcome, g') := by
        rw [← apply_applyStep, h]
        rfl
      rw [applyStep] at hstep
      split at hstep
      · cases hstep
        cases hqueued
      rw [hencoded] at hstep
      dsimp only at hstep
      split at hstep
      · cases hstep
        cases hqueued
      rw [hnext] at hstep
      dsimp only at hstep
      rw [if_neg (UInt64.lt_irrefl _), if_neg (UInt64.lt_irrefl _)] at hstep
      obtain ⟨⟨landed, k⟩, hland, hsettle⟩ := Option.bind_eq_some_iff.mp hstep
      rcases land_cases hland with ⟨hout, -⟩ | ⟨hout, -⟩
      · cases hout
        obtain ⟨_, -, heq⟩ := Option.map_eq_some_iff.mp hsettle
        cases heq
        cases hqueued
      · cases hout <;> cases hsettle <;> cases hqueued

/-! ## One group -/

/-- What a call may do to a group, as far as sender keys go. `fresh` are the ids the call
draws, `arrived` the ops that came with it. -/
structure KeyStep (keyId : Bytes → Option UUID) (me : Bytes) (fresh : List UUID)
    (arrived : List GroupOp) (g g' : ChatGroup) (frames : List Frame) : Prop where
  id : g'.id = g.id
  digest : g'.lastOpDigest.length = parentDigestSize
  parked : ∀ bytes ∈ g'.pendingOps, bytes ∈ g.pendingOps ∨
    ∃ op ∈ arrived, GroupOp.decode bytes = some op
  chain : g'.myCurrentDistributionId = none ∨
    (∃ d ∈ fresh, g'.myCurrentDistributionId = some d ∧ g'.hasMember me = true) ∨
    (g'.myCurrentDistributionId = g.myCurrentDistributionId ∧ g'.hasMember me = true ∧
      (g.pendingInvitation = true ∨ g'.pendingInvitation = false ∧
        ∀ peer, g.hasMember peer = true → g'.hasMember peer = true))
  keys : ∀ f ∈ frames, ∀ d, f.keyOf keyId = some d → g'.myCurrentDistributionId = some d ∧
    g'.hasMember f.recipient = true ∧ g'.pendingInvitation = false

/-- The id in use is that of a member of the group. -/
def Enrolled (me : Bytes) (g : ChatGroup) : Prop :=
  g.myCurrentDistributionId.isSome → g.hasMember me = true

/-- A change that leaves members, id and queue alone. -/
theorem KeyStep.still (henrolled : Enrolled me g) (hid : g'.id = g.id)
    (hdigest : g'.lastOpDigest.length = parentDigestSize)
    (hdist : g'.myCurrentDistributionId = g.myCurrentDistributionId)
    (hpending : g'.pendingInvitation = g.pendingInvitation)
    (hmember : ∀ peer, g'.hasMember peer = g.hasMember peer)
    (hparked : ∀ bytes ∈ g'.pendingOps, bytes ∈ g.pendingOps ∨
      ∃ op ∈ arrived, GroupOp.decode bytes = some op)
    (hkeyless : Keyless keyId frames) : KeyStep keyId me fresh arrived g g' frames where
  id := hid
  digest := hdigest
  parked := hparked
  chain := by
    cases hcase : g.myCurrentDistributionId with
    | none => exact .inl (hdist.trans hcase)
    | some d =>
      refine .inr (.inr ⟨by rw [hdist, hcase], ?_, ?_⟩)
      · rw [hmember]
        exact henrolled (by rw [hcase]; rfl)
      · cases hinvited : g.pendingInvitation with
        | true => exact .inl rfl
        | false => exact .inr ⟨hpending.trans hinvited, fun peer h => (hmember peer).trans h⟩
  keys f hf d hd := by
    rw [hkeyless f hf] at hd
    cases hd

/-- A later change of anything else. -/
theorem KeyStep.then (h : KeyStep keyId me fresh arrived g g' frames) (hid : g''.id = g'.id)
    (hdigest : g''.lastOpDigest = g'.lastOpDigest) (hmembers : g''.members = g'.members)
    (hdist : g''.myCurrentDistributionId = g'.myCurrentDistributionId)
    (hpending : g''.pendingInvitation = g'.pendingInvitation)
    (hqueue : g''.pendingOps = g'.pendingOps) : KeyStep keyId me fresh arrived g g'' frames where
  id := hid.trans h.id
  digest := hdigest ▸ h.digest
  parked := hqueue ▸ h.parked
  chain := by
    have hmember : ∀ peer, g''.hasMember peer = g'.hasMember peer := fun peer => by
      rw [hasMember, hasMember, hmembers]
    simp only [hdist, hpending, hmember]
    exact h.chain
  keys f hf d hd := by
    have hmember : g''.hasMember f.recipient = g'.hasMember f.recipient := by
      rw [hasMember, hasMember, hmembers]
    rw [hdist, hpending, hmember]
    exact h.keys f hf d hd

/-- More frames, none of them a key. -/
theorem KeyStep.keyless {before : List Frame} (h : KeyStep keyId me fresh arrived g g' frames)
    (hbefore : Keyless keyId before) : KeyStep keyId me fresh arrived g g' (before ++ frames) where
  id := h.id
  digest := h.digest
  parked := h.parked
  chain := h.chain
  keys f hf d hd := by
    rcases List.mem_append.mp hf with hf | hf
    · rw [hbefore f hf] at hd
      cases hd
    · exact h.keys f hf d hd

/-! ## Rotation and hooks -/

/-- Parked ops that do not name the rotation leave it alone: the members stay. -/
theorem rotation_quiet {h : ChatGroup} {e : UInt64} {sx' : ApplySideEffects} {dist : UUID}
    (hop : Issued env me (.rotateSenderKey dist) g op)
    (hqueue : NoChild g.pendingOps (env.hash op.wire))
    (happly : g.apply env op sx = some (.applied e, h, sx')) :
    h.members = g.members ∧ h.pendingInvitation = g.pendingInvitation := by
  obtain ⟨h₁, kept, _, hlands, heq⟩ | ⟨outcome, _, heq, hrefused⟩ :=
    hop.apply_cases rfl rfl rfl rfl hqueue sx
  · rw [heq] at happly
    cases happly
    obtain ⟨g₁, hmutate, rfl⟩ := hlands.mutated
    have heffect := mutate_effect hmutate
    have hkind := hop.kind
    cases heffect with
    | rotate kind =>
      obtain ⟨prev, hset⟩ := setMemberDistId_eq g ‹UUID› op.operatorIdentity
      rw [hset]
      exact ⟨rfl, rfl⟩
    | _ => simp_all
  · rw [heq] at happly
    cases happly
    rcases hrefused with hrefused | ⟨_, hrefused⟩ <;> cases hrefused

/-- No op that has arrived names a rotation that the call would sign. -/
def Unforeseen (env : GroupEnv) (amb : Ambient) (me : Bytes) (session : Session)
    (received : List GroupOp) : Prop :=
  ∀ g op, signNext env session me (.rotateSenderKey amb.rotateId) amb.rotateNow g = some (some op) →
    ∀ x ∈ received, x.parentDigest ≠ env.hash op.wire

/-- The setting of a call: the local user, the session and the ids it draws. -/
structure Setting (env : GroupEnv) (keyId : Bytes → Option UUID) (amb : Ambient) (me : Bytes)
    (session : Session) (received : List GroupOp) (s : ChatStore) : Prop where
  card : s.myCard = some me
  size : me.length = identityKeySize
  signedIn : s.session = some session
  capable : Capable env keyId me session
  unforeseen : Unforeseen env amb me session received

/-- Every parked op has arrived. -/
def Parked (received : List GroupOp) (g : ChatGroup) : Prop :=
  ∀ bytes ∈ g.pendingOps, ∃ op ∈ received, GroupOp.decode bytes = some op

theorem Parked.noChild {received : List GroupOp} {digest : Bytes} (h : Parked received g)
    (hnone : ∀ x ∈ received, x.parentDigest ≠ digest) : NoChild g.pendingOps digest := by
  intro bytes hbytes op hdecode
  obtain ⟨x, hx, hdecode'⟩ := h bytes hbytes
  rw [hdecode] at hdecode'
  cases hdecode'
  exact hnone op hx

variable {received : List GroupOp}

/-- A rotation draws a new id; only members get its key. -/
theorem rotate_keyStep (arrived : List GroupOp)
    (hset : Setting env keyId amb me session received s)
    (hfind : s.findGroup groupId = some g) (hsized : Sized g) (hparked : Parked received g)
    (hmember : g.hasMember me = true) (hinvited : g.pendingInvitation = false)
    (hfresh : amb.rotateId ∈ fresh)
    (h : rotateMyGroupChain env amb groupId s = some (s', frames)) :
    ∃ g', s' = s.setGroup g' ∧ KeyStep keyId me fresh arrived g g' frames ∧
      ∃ d ∈ fresh, g'.myCurrentDistributionId = some d ∧ g'.hasMember me = true := by
  obtain ⟨op, skdm, h₁, sx, r, -, hkey, hsign, hissued, happly, hships, rfl, rfl⟩ :=
    rotateMyGroupChain_spec hset.capable hset.size hset.signedIn hset.card hfind hsized hmember h
  obtain ⟨hmembers, hpending⟩ :=
    rotation_quiet hissued (hparked.noChild (hset.unforeseen g op hsign)) happly
  obtain ⟨recipients, hgroup, -⟩ := hships.group
  have hstays : ∀ peer, r.1.hasMember peer = g.hasMember peer := fun peer => by
    rw [hgroup, hasMember, hasMember, ← hmembers]
    rfl
  have hid : h₁.id = g.id := apply_id happly
  have hchain : ∃ d ∈ fresh, r.1.myCurrentDistributionId = some d ∧ r.1.hasMember me = true :=
    ⟨amb.rotateId, hfresh, by rw [hgroup]; rfl, (hstays me).trans hmember⟩
  refine ⟨r.1, rfl, ⟨?_, ?_, ?_, .inr (.inl hchain), ?_⟩, hchain⟩
  · rw [hgroup]
    exact hid
  · rw [hgroup]
    have hlen := apply_digest_length happly hsized.lastOpDigest
    exact hlen
  · rw [hgroup]
    exact fun bytes hbytes => .inl (apply_unparked happly bytes hbytes)
  · intro f hf d hd
    obtain ⟨rfl, hpeer⟩ := hships.key (by rw [← hsized.id]; exact congrArg _ hid)
      (fun peer => keyless_broadcastGroupOp s op.wire peer) hkey hf hd
    refine ⟨by rw [hgroup]; rfl, ?_, by rw [hgroup]; exact hpending.trans hinvited⟩
    rw [hgroup]
    exact (mem_others.mp hpeer).1

theorem surfaceUnverified_eq (s : ChatStore) (peers : List Bytes) (g : ChatGroup) :
    ∃ log, s.surfaceUnverified peers g = { g with log := log } := by
  induction peers generalizing g with
  | nil => exact ⟨g.log, rfl⟩
  | cons peer peers ih =>
    rw [surfaceUnverified]
    split
    · exact ih g
    split
    · exact ih g
    · exact ih _

/-- The hooks after `apply` took the group from `g` to `g'`. -/
theorem hooks_keyStep (arrived : List GroupOp)
    (hset : Setting env keyId amb me session received s)
    (hfind : s.findGroup g'.id = some g') (hsized : Sized g') (henrolled : Enrolled me g)
    (hparked : Parked received g') (hqueue : ∀ bytes ∈ g'.pendingOps, bytes ∈ g.pendingOps)
    (hflags : Flags me g g' sx) (hrotateId : amb.rotateId ∈ fresh) (hchainId : amb.chainId ∈ fresh)
    (h : applyPostMutationSideEffects env amb session g' sx s = some (s', frames)) :
    ∃ g'', s' = s.setGroup g'' ∧ KeyStep keyId me fresh arrived g g'' frames := by
  have hid : (g'.hooked amb me sx).id = g'.id := by
    rw [hooked]
    split <;> rfl
  have hmembers : (g'.hooked amb me sx).members = g'.members := by
    rw [hooked]
    split <;> rfl
  have hpending : (g'.hooked amb me sx).pendingInvitation = g'.pendingInvitation := by
    rw [hooked]
    split <;> rfl
  have hdigest : (g'.hooked amb me sx).lastOpDigest = g'.lastOpDigest := by
    rw [hooked]
    split <;> rfl
  have hops : (g'.hooked amb me sx).pendingOps = g'.pendingOps := by
    rw [hooked]
    split <;> rfl
  have hmember : ∀ peer, (g'.hooked amb me sx).hasMember peer = g'.hasMember peer := fun peer => by
    rw [hasMember, hasMember, hmembers]
  -- the id after a clear
  have hclear : sx.requestSelfChainClear = true →
      (g'.hooked amb me sx).myCurrentDistributionId = none ∨ ∃ d ∈ fresh,
        (g'.hooked amb me sx).myCurrentDistributionId = some d ∧ g'.hasMember me = true := by
    intro hclear
    rw [hooked, if_pos hclear, cleared]
    cases hmem : g'.hasMember me with
    | true => exact .inr ⟨amb.chainId, hchainId, rfl, rfl⟩
    | false => exact .inl rfl
  -- the id without one: it is gone already, or the local user is still there
  have hkeep : sx.requestSelfChainClear = false →
      (g'.hooked amb me sx).myCurrentDistributionId = none ∨
        (g'.hooked amb me sx).myCurrentDistributionId = g.myCurrentDistributionId ∧
          g.hasMember me = true ∧ g'.hasMember me = true := by
    intro hno
    rw [hooked, if_neg (Bool.eq_false_iff.mp hno), hflags.dist]
    cases hdist : g.myCurrentDistributionId with
    | none => exact .inl rfl
    | some d =>
      have hmem := henrolled (by rw [hdist]; rfl)
      exact .inr ⟨rfl, hmem, hflags.stayed hno hmem⟩
  have hparts : ∀ {k : ChatGroup} {fs : List Frame}, k.id = g'.id →
      k.lastOpDigest = g'.lastOpDigest → k.pendingOps = g'.pendingOps →
      (k.myCurrentDistributionId = none ∨
        (∃ d ∈ fresh, k.myCurrentDistributionId = some d ∧ k.hasMember me = true) ∨
        (k.myCurrentDistributionId = g.myCurrentDistributionId ∧ k.hasMember me = true ∧
          (g.pendingInvitation = true ∨ k.pendingInvitation = false ∧
            ∀ peer, g.hasMember peer = true → k.hasMember peer = true))) →
      (∀ f ∈ fs, ∀ d, f.keyOf keyId = some d → k.myCurrentDistributionId = some d ∧
        k.hasMember f.recipient = true ∧ k.pendingInvitation = false) →
      KeyStep keyId me fresh arrived g k fs := by
    intro k fs hk hdig hq hchain hkeys
    exact ⟨hk.trans hflags.id, hdig ▸ hsized.lastOpDigest,
      fun bytes hbytes => .inl (hqueue bytes (hq ▸ hbytes)), hchain, hkeys⟩
  obtain ⟨hcase, rfl, rfl⟩ | ⟨haccepted, hback, ⟨-, hrotate⟩ | ⟨hno, r, hensure, rfl, rfl⟩⟩ :=
    hooks_cases hset.card h
  · -- removed, or an invitation nobody has answered
    refine ⟨_, rfl, hparts hid hdigest hops ?_ fun _ hf => absurd hf List.not_mem_nil⟩
    cases hclear' : sx.requestSelfChainClear with
    | true =>
      rcases hclear hclear' with hnone | ⟨d, hd, hsome, hmem⟩
      · exact .inl hnone
      · exact .inr (.inl ⟨d, hd, hsome, (hmember me).trans hmem⟩)
    | false =>
      rcases hkeep hclear' with hnone | ⟨hsame, -, hmem⟩
      · exact .inl hnone
      · rcases hcase with ⟨hyes, -⟩ | hinvited
        · rw [hclear'] at hyes
          cases hyes
        · exact .inr (.inr ⟨hsame, (hmember me).trans hmem,
            .inl (hflags.invited.symm.trans hinvited)⟩)
  · -- rotation
    have hfind' : (s.setGroup (g'.hooked amb me sx)).findGroup g'.id =
        some (g'.hooked amb me sx) := findGroup_setGroup hfind hid
    cases hmem : g'.hasMember me with
    | false =>
      obtain ⟨rfl, rfl⟩ := rotateMyGroupChain_stranded (s := s.setGroup (g'.hooked amb me sx))
        hset.card hfind' ((hmember me).trans hmem) hrotate
      refine ⟨_, rfl, hparts hid hdigest hops ?_ fun _ hf => absurd hf List.not_mem_nil⟩
      cases hclear' : sx.requestSelfChainClear with
      | true =>
        rw [hback hclear'] at hmem
        cases hmem
      | false =>
        rcases hkeep hclear' with hnone | ⟨-, -, hstill⟩
        · exact .inl hnone
        · rw [hmem] at hstill
          cases hstill
    | true =>
      have hset' : Setting env keyId amb me session received (s.setGroup (g'.hooked amb me sx)) :=
        ⟨hset.card, hset.size, hset.signedIn, hset.capable, hset.unforeseen⟩
      obtain ⟨k, rfl, hstep, hchain⟩ := rotate_keyStep arrived hset' hfind'
        ⟨by rw [hid]; exact hsized.id, by rw [hdigest]; exact hsized.lastOpDigest⟩
        (fun bytes hbytes => hparked bytes (hops ▸ hbytes)) ((hmember me).trans hmem)
        (hpending.trans haccepted) hrotateId hrotate
      refine ⟨k, setGroup_setGroup hstep.id, ⟨?_, hstep.digest, ?_, .inr (.inl hchain), hstep.keys⟩⟩
      · exact hstep.id.trans (hid.trans hflags.id)
      · intro bytes hbytes
        rcases hstep.parked bytes hbytes with hold | hnew
        · exact .inl (hqueue bytes (hops ▸ hold))
        · exact .inr hnew
  · -- the members without a key
    obtain ⟨log, hlog⟩ := surfaceUnverified_eq s sx.newActiveMembers r.1
    rw [hlog]
    have hgroup : ∃ recipients, r.1 = { g'.hooked amb me sx with mySkdmRecipients := recipients } ∧
        ∀ f ∈ r.2, ∀ d, f.keyOf keyId = some d →
          (g'.hooked amb me sx).myCurrentDistributionId = some d ∧
            g'.hasMember f.recipient = true := by
      rcases ensureMySKDM_spec hset.capable hset.card hensure with
        ⟨-, heq⟩ | ⟨dist, hdist, ⟨-, heq⟩ | ⟨skdm, hkey, hships⟩⟩
      · rw [heq]
        exact ⟨_, rfl, fun _ hf => absurd hf List.not_mem_nil⟩
      · rw [heq]
        exact ⟨_, rfl, fun _ hf => absurd hf List.not_mem_nil⟩
      · obtain ⟨recipients, heq, -⟩ := hships.group
        refine ⟨recipients, heq, fun f hf d hd => ?_⟩
        obtain ⟨rfl, hpeer⟩ := hships.key (by rw [hid]; exact hsized.id)
          (fun _ => keyless_nil) hkey hf hd
        refine ⟨hdist, ?_⟩
        rw [← hmember]
        exact (mem_others.mp (List.mem_of_mem_filter hpeer)).1
    obtain ⟨recipients, hgroup, hkeys⟩ := hgroup
    rw [hgroup]
    refine ⟨_, rfl, hparts hid hdigest hops ?_ ?_⟩
    · show (g'.hooked amb me sx).myCurrentDistributionId = none ∨
        (∃ d ∈ fresh, (g'.hooked amb me sx).myCurrentDistributionId = some d ∧
          (g'.hooked amb me sx).hasMember me = true) ∨ _
      cases hclear' : sx.requestSelfChainClear with
      | true =>
        rcases hclear hclear' with hnone | ⟨d, hd, hsome, hmem⟩
        · exact .inl hnone
        · exact .inr (.inl ⟨d, hd, hsome, (hmember me).trans hmem⟩)
      | false =>
        rcases hkeep hclear' with hnone | ⟨hsame, hwas, hmem⟩
        · exact .inl hnone
        · refine .inr (.inr ⟨hsame, (hmember me).trans hmem, .inr ⟨hpending.trans haccepted, ?_⟩⟩)
          intro peer hpeer
          exact (hmember peer).trans (hflags.kept hclear' hno hwas peer hpeer)
    · intro f hf d hd
      obtain ⟨hdist, hpeer⟩ := hkeys f hf d hd
      exact ⟨hdist, (hmember _).trans hpeer, hpending.trans haccepted⟩

/-! ## One call -/

/-- A system row. -/
theorem row_keyStep (hsized : Sized g) (henrolled : Enrolled me g) (text : String) :
    KeyStep keyId me fresh arrived g (g.appendSystem text) [] :=
  .still henrolled rfl hsized.lastOpDigest rfl rfl (fun _ => rfl) (fun _ hbytes => .inl hbytes)
    keyless_nil

/-- An op that was not applied leaves everything but the queue. -/
theorem refused_keyStep {outcome : ApplyOutcome} {log : List PersistedMessage}
    (hsized : Sized g) (henrolled : Enrolled me g)
    (happly : g.apply env op { localIdentityPub := some me } = some (outcome, g', sx))
    (hrefused : ∀ e, outcome ≠ .applied e)
    (hsource : op ∈ arrived ∨ nextEpoch g.currentEpoch = some op.epoch) :
    KeyStep keyId me fresh arrived g { g' with log := log } [] := by
  rcases apply_refused happly hrefused with rfl | ⟨bytes, hencoded, -, hqueued⟩
  · exact .still henrolled rfl hsized.lastOpDigest rfl rfl (fun _ => rfl)
      (fun _ hbytes => .inl hbytes) keyless_nil
  · have hparked : ∀ b ∈ g'.pendingOps, b ∈ g.pendingOps ∨
        ∃ op ∈ arrived, GroupOp.decode b = some op := by
      intro b hb
      rcases hsource with harrived | hnext
      · rw [hqueued] at hb
        rcases mem_of_mem_queuePending hb with hold | rfl
        · exact .inl hold
        · exact .inr ⟨op, harrived, GroupOp.decode_encoded hencoded⟩
      · exact .inl (apply_own_unparked happly hnext b hb)
    have hsame : g' = g.withPending g'.pendingOps := by
      rw [hqueued]
      exact queuePending_eq g bytes
    rw [hsame]
    exact .still henrolled rfl hsized.lastOpDigest rfl rfl (fun _ => rfl) hparked keyless_nil

theorem keyed_flags (me : Bytes) (g : ChatGroup) (dist : UUID) (sender : Bytes) :
    Flags me g (g.keyed dist sender) { localIdentityPub := some me } := by
  obtain ⟨previous, heq⟩ := setMemberDistId_eq g dist sender
  rw [keyed, flipActive, heq]
  refine (Flags.refl me g).keep rfl rfl rfl rfl rfl rfl rfl fun peer hpeer => ?_
  exact hasMember_updateFirst rfl (fun _ _ hpeer _ => ⟨hpeer, nofun⟩) hpeer

theorem resent_keyStep {skdm : Bytes} {dist : UUID} (hcap : Capable env keyId me session)
    (hsized : Sized g) (henrolled : Enrolled me g) (hdist : g.myCurrentDistributionId = some dist)
    (hinvited : g.pendingInvitation = false)
    (hskdm : session.senderKeyDistributionCreate dist = some skdm) :
    KeyStep keyId me fresh arrived g
      (s.shipKey skdm (fun _ => []) (others g me) { g with mySkdmRecipients := ∅ }).1
      (s.shipKey skdm (fun _ => []) (others g me) { g with mySkdmRecipients := ∅ }).2 := by
  obtain ⟨skdm', hskdm', hkey⟩ := hcap.mints dist
  rw [hskdm] at hskdm'
  cases hskdm'
  have hships := shipKey_ships s skdm (fun _ => []) (others g me) { g with mySkdmRecipients := ∅ }
  obtain ⟨recipients, hgroup, -⟩ := hships.group
  refine ⟨by rw [hgroup], by rw [hgroup]; exact hsized.lastOpDigest,
    by rw [hgroup]; exact fun _ hbytes => .inl hbytes, .inr (.inr ⟨by rw [hgroup], ?_, .inr ?_⟩),
    fun f hf d hd => ?_⟩
  · rw [hgroup]
    exact henrolled (by rw [hdist]; rfl)
  · rw [hgroup]
    exact ⟨hinvited, fun _ hpeer => hpeer⟩
  · obtain ⟨rfl, hpeer⟩ := hships.key hsized.id (fun _ => keyless_nil) hkey hf hd
    rw [hgroup]
    exact ⟨hdist, (mem_others.mp hpeer).1, hinvited⟩

theorem accepted_keyStep (hcap : Capable env keyId me session) (hcard : s.myCard = some me)
    (hsized : Sized g) (hinvited : g.pendingInvitation = true) (hmember : g.hasMember me = true)
    (hchainId : amb.chainId ∈ fresh) {r : ChatGroup × List Frame}
    (h : s.enrolMyChainOnFirstJoin amb session { g with pendingInvitation := false } = r) :
    KeyStep keyId me fresh arrived g r.1 r.2 := by
  rcases enrol_spec hcap hcard h with ⟨-, rfl⟩ | ⟨-, skdm, hkey, hships⟩
  · exact ⟨rfl, hsized.lastOpDigest, fun _ hbytes => .inl hbytes,
      .inr (.inr ⟨rfl, hmember, .inl hinvited⟩), fun _ hf => absurd hf List.not_mem_nil⟩
  · obtain ⟨recipients, hgroup, -⟩ := hships.group
    refine ⟨by rw [hgroup]; rfl, by rw [hgroup]; exact hsized.lastOpDigest,
      by rw [hgroup]; exact fun _ hbytes => .inl hbytes, .inr (.inl ⟨amb.chainId, hchainId, ?_, ?_⟩),
      fun f hf d hd => ?_⟩
    · rw [hgroup]
      rfl
    · rw [hgroup]
      exact hasMember_activated (g := g) rfl hmember
    · obtain ⟨rfl, hpeer⟩ := hships.key hsized.id (fun _ => keyless_nil) hkey hf hd
      rw [hgroup]
      exact ⟨rfl, (mem_others.mp hpeer).1, rfl⟩

theorem created_keyStep {skdm : Bytes} {first : Bytes → List Frame} {peers : List Bytes}
    (hcap : Capable env keyId me session) (hinvited : Invited g)
    (hrows : ∀ peer, (∃ m ∈ g.members, m.peerId = peer) ↔ peer = me ∨ peer ∈ peers)
    (hstatus : ∀ m ∈ g.members, m.status ≠ .removed)
    (hfirst : ∀ peer, ∀ f ∈ first peer, f.kind ≠ .groupKeyDistribution)
    (hskdm : session.senderKeyDistributionCreate amb.chainId = some skdm)
    (hchainId : amb.chainId ∈ fresh) :
    KeyStep keyId me fresh arrived g (s.shipKey skdm first peers (g.founded amb me)).1
      (s.shipKey skdm first peers (g.founded amb me)).2 := by
  obtain ⟨skdm', hskdm', hkey⟩ := hcap.mints amb.chainId
  rw [hskdm] at hskdm'
  cases hskdm'
  have hmember : ∀ peer, peer = me ∨ peer ∈ peers → (g.founded amb me).hasMember peer = true := by
    intro peer hpeer
    obtain ⟨m, hm, rfl⟩ := (hrows peer).mpr hpeer
    exact hasMember_activated rfl (hasMember_iff.mpr ⟨m, hm, rfl, hstatus m hm⟩)
  have hships := shipKey_ships s skdm first peers (g.founded amb me)
  obtain ⟨recipients, hgroup, -⟩ := hships.group
  refine ⟨by rw [hgroup]; rfl, by rw [hgroup]; exact hinvited.lastOpDigest,
    by rw [hgroup]; exact fun _ hbytes => .inl hbytes, .inr (.inl ⟨amb.chainId, hchainId, ?_, ?_⟩),
    fun f hf d hd => ?_⟩
  · rw [hgroup]
    rfl
  · rw [hgroup]
    exact hmember me (.inl rfl)
  · obtain ⟨rfl, hpeer⟩ := hships.key hinvited.id
      (fun peer f hf => keyOf_of_kind (hfirst peer f hf)) hkey hf hd
    rw [hgroup]
    exact ⟨rfl, hmember _ (.inr hpeer), rfl⟩

end Pizzini.Group
