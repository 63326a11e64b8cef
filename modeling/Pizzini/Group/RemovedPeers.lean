import Pizzini.Group.Invite
import Pizzini.Group.KeySteps

/-!
# Removed peers never get the key in use

A client encrypts its group messages under one distribution id at a time. Over every run of
the client, nobody who was handed the key of that id is outside the group at that moment.

The invariant `Keys` says it of every group held, with what the argument needs besides: an id
is in use in one group at most, and every key on the wire is that of an id drawn before.
`rotateMyGroupChain` itself does not look at a waiting invitation; a rotation that comes before
the answer breaks the property (`early_rotation_reaches_removed_peer`).
-/

namespace Pizzini.Group

open Wire ChatGroup ChatStore

variable {env : GroupEnv} {amb : Ambient} {s s' : ChatStore} {g g' : ChatGroup} {me : Bytes}
  {keyId : Bytes → Option UUID} {session : Session} {frames : List Frame} {op : GroupOp}
  {fresh : List UUID} {arrived received : List GroupOp} {groupId : Bytes}

/-! ## All groups -/

/-- What the past of a client says about one group it holds. -/
structure KeyedTo (keyId : Bytes → Option UUID) (me : Bytes) (sent : List Frame)
    (minted : List UUID) (received : List GroupOp) (g : ChatGroup) : Prop where
  sized : Sized g
  parked : Parked received g
  enrolled : Enrolled me g
  minted : ∀ d, g.myCurrentDistributionId = some d → d ∈ minted
  /-- Whoever was handed the key in use is a member, and the invitation was answered. -/
  handed : ∀ d peer, g.myCurrentDistributionId = some d → Handed keyId sent peer d →
    g.hasMember peer = true ∧ g.pendingInvitation = false

/-- What it says about all of them. -/
structure Keys (keyId : Bytes → Option UUID) (me : Bytes) (sent : List Frame)
    (minted : List UUID) (received : List GroupOp) (groups : List ChatGroup) : Prop where
  each : ∀ g ∈ groups, KeyedTo keyId me sent minted received g
  distinct : (groups.filterMap ChatGroup.myCurrentDistributionId).Nodup
  named : ∀ f ∈ sent, ∀ d, f.keyOf keyId = some d → d ∈ minted

namespace Keys

variable {sent : List Frame} {minted : List UUID} {groups groups' rest : List ChatGroup}

theorem subperm (h : Keys keyId me sent minted received groups) (hsub : groups'.Subperm groups) :
    Keys keyId me sent minted received groups' where
  each g hg := h.each g (hsub.subset hg)
  distinct := by
    obtain ⟨l, hperm, hsublist⟩ := hsub
    exact (hperm.filterMap _).nodup_iff.mp (h.distinct.sublist (hsublist.filterMap _))
  named := h.named

theorem perm (h : Keys keyId me sent minted received groups) (hperm : groups'.Perm groups) :
    Keys keyId me sent minted received groups' :=
  h.subperm hperm.subperm

/-- New frames that carry new keys only say nothing about the groups that stay. -/
theorem later (h : Keys keyId me sent minted received groups)
    (hfresh : ∀ d ∈ fresh, d ∉ minted)
    (hframes : ∀ f ∈ frames, ∀ d, f.keyOf keyId = some d → d ∈ fresh) :
    Keys keyId me (sent ++ frames) (fresh ++ minted) (arrived ++ received) groups where
  each g hg := by
    obtain ⟨hsized, hparked, henrolled, hminted, hhanded⟩ := h.each g hg
    refine ⟨hsized, fun bytes hbytes => ?_, henrolled,
      fun d hd => List.mem_append_right _ (hminted d hd), fun d peer hd hpeer => ?_⟩
    · obtain ⟨op, hop, hdecode⟩ := hparked bytes hbytes
      exact ⟨op, List.mem_append_right _ hop, hdecode⟩
    · obtain ⟨f, hf, hto, hkey⟩ := hpeer
      rcases List.mem_append.mp hf with hold | hnew
      · exact hhanded d peer hd ⟨f, hold, hto, hkey⟩
      · exact absurd (hminted d hd) (hfresh d (hframes f hnew d hkey))
  distinct := h.distinct
  named f hf d hd := by
    rcases List.mem_append.mp hf with hold | hnew
    · exact List.mem_append_right _ (h.named f hold d hd)
    · exact List.mem_append_left _ (hframes f hnew d hd)

/-- A group without a chain and without parked ops. -/
theorem blank (h : Keys keyId me sent minted received groups) (hg : Invited g) :
    Keys keyId me sent minted received (g :: groups) where
  each k hk := by
    rcases List.mem_cons.mp hk with rfl | hk
    · refine ⟨⟨hg.id, hg.lastOpDigest⟩, fun bytes hbytes => ?_, fun hsome => ?_, fun d hd => ?_,
        fun d peer hd => ?_⟩
      · rw [hg.pendingOps] at hbytes
        cases hbytes
      · rw [hg.dist] at hsome
        cases hsome
      · rw [hg.dist] at hd
        cases hd
      · rw [hg.dist] at hd
        cases hd
    · exact h.each k hk
  distinct := by
    rw [List.filterMap_cons_none hg.dist]
    exact h.distinct
  named := h.named

/-- One group makes a step. -/
theorem change (h : Keys keyId me sent minted received (g :: rest))
    (hstep : KeyStep keyId me fresh arrived g g' frames) (hfresh : ∀ d ∈ fresh, d ∉ minted) :
    Keys keyId me (sent ++ frames) (fresh ++ minted) (arrived ++ received) (g' :: rest) := by
  obtain ⟨hsized, hparked, henrolled, hminted, hhanded⟩ := h.each g List.mem_cons_self
  -- the id of the new group: the old one, or one that no group has had
  have hdist : ∀ d, g'.myCurrentDistributionId = some d →
      d ∈ fresh ∨ g.myCurrentDistributionId = some d := by
    intro d hd
    rcases hstep.chain with hnone | ⟨d', hd', hsome, -⟩ | ⟨hsame, -⟩
    · rw [hnone] at hd
      cases hd
    · rw [hsome] at hd
      cases hd
      exact .inl hd'
    · exact .inr (hsame ▸ hd)
  have hrest : ∀ k ∈ rest, ∀ d, k.myCurrentDistributionId = some d →
      g'.myCurrentDistributionId ≠ some d := by
    intro k hk d hd hd'
    rcases hdist d hd' with hnew | hold
    · exact hfresh d hnew ((h.each k (List.mem_cons_of_mem _ hk)).minted d hd)
    · have hdistinct := h.distinct
      rw [List.filterMap_cons_some hold, List.nodup_cons] at hdistinct
      exact hdistinct.1 (List.mem_filterMap.mpr ⟨k, hk, hd⟩)
  have hnamed : ∀ f ∈ sent ++ frames, ∀ d, f.keyOf keyId = some d → d ∈ fresh ++ minted := by
    intro f hf d hd
    rcases List.mem_append.mp hf with hold | hnew
    · exact List.mem_append_right _ (h.named f hold d hd)
    · rcases hdist d (hstep.keys f hnew d hd).1 with hfresh' | hsame
      · exact List.mem_append_left _ hfresh'
      · exact List.mem_append_right _ (hminted d hsame)
  refine ⟨fun k hk => ?_, ?_, hnamed⟩
  · rcases List.mem_cons.mp hk with rfl | hk
    · refine ⟨⟨by rw [hstep.id]; exact hsized.id, hstep.digest⟩, ?_, ?_, ?_, ?_⟩
      · intro bytes hbytes
        rcases hstep.parked bytes hbytes with hold | ⟨op, hop, hdecode⟩
        · obtain ⟨op, hop, hdecode⟩ := hparked bytes hold
          exact ⟨op, List.mem_append_right _ hop, hdecode⟩
        · exact ⟨op, List.mem_append_left _ hop, hdecode⟩
      · intro hsome
        rcases hstep.chain with hnone | ⟨_, -, -, hmember⟩ | ⟨-, hmember, -⟩
        · rw [hnone] at hsome
          cases hsome
        · exact hmember
        · exact hmember
      · intro d hd
        rcases hdist d hd with hnew | hold
        · exact List.mem_append_left _ hnew
        · exact List.mem_append_right _ (hminted d hold)
      · rintro d peer hd ⟨f, hf, rfl, hkey⟩
        rcases List.mem_append.mp hf with hold | hnew
        · rcases hstep.chain with hnone | ⟨d', hd', hsome, -⟩ | ⟨hsame, -, hstays⟩
          · rw [hnone] at hd
            cases hd
          · -- a new id was never on the wire
            rw [hsome] at hd
            cases hd
            exact absurd (h.named f hold _ hkey) (hfresh _ hd')
          · obtain ⟨hpeer, haccepted⟩ := hhanded d f.recipient (hsame ▸ hd) ⟨f, hold, rfl, hkey⟩
            rcases hstays with hinvited | ⟨haccepted', hkept⟩
            · rw [haccepted] at hinvited
              cases hinvited
            · exact ⟨hkept _ hpeer, haccepted'⟩
        · exact (hstep.keys f hnew d hkey).2
    · obtain ⟨hsized', hparked', henrolled', hminted', hhanded'⟩ :=
        h.each k (List.mem_cons_of_mem _ hk)
      refine ⟨hsized', fun bytes hbytes => ?_, henrolled',
        fun d hd => List.mem_append_right _ (hminted' d hd), ?_⟩
      · obtain ⟨op, hop, hdecode⟩ := hparked' bytes hbytes
        exact ⟨op, List.mem_append_right _ hop, hdecode⟩
      · rintro d peer hd ⟨f, hf, hto, hkey⟩
        rcases List.mem_append.mp hf with hold | hnew
        · exact hhanded' d peer hd ⟨f, hold, hto, hkey⟩
        · exact absurd (hstep.keys f hnew d hkey).1 (hrest k hk d hd)
  · cases hnew : g'.myCurrentDistributionId with
    | none =>
      rw [List.filterMap_cons_none hnew]
      exact h.distinct.sublist ((List.sublist_cons_self _ _).filterMap _)
    | some d =>
      rw [List.filterMap_cons_some hnew, List.nodup_cons]
      refine ⟨fun hmem => ?_, h.distinct.sublist ((List.sublist_cons_self _ _).filterMap _)⟩
      obtain ⟨k, hk, hd⟩ := List.mem_filterMap.mp hmem
      exact hrest k hk d hd hnew

end Keys

/-- Writing a group changes one place of the list. -/
theorem setFirst_perm {groups : List ChatGroup}
    (hfind : groups.find? (fun k => k.id = groupId) = some g) (hid : g'.id = groupId) :
    ∃ rest, groups.Perm (g :: rest) ∧ (setFirst g' groups).Perm (g' :: rest) := by
  induction groups with
  | nil => cases hfind
  | cons k groups ih =>
    by_cases hk : k.id = groupId
    · rw [List.find?_cons_of_pos (by simpa using hk)] at hfind
      cases hfind
      exact ⟨groups, .refl _, by rw [setFirst, if_pos (hk.trans hid.symm)]⟩
    · rw [List.find?_cons_of_neg (by simpa using hk)] at hfind
      obtain ⟨rest, hperm, hperm'⟩ := ih hfind
      refine ⟨k :: rest, (hperm.cons k).trans (.swap g k rest), ?_⟩
      rw [setFirst, if_neg (fun heq => hk (heq.trans hid))]
      exact (hperm'.cons k).trans (.swap g' k rest)

/-- What is dropped is the same before and after a write. -/
theorem eraseP_setFirst (groups : List ChatGroup) (g : ChatGroup) :
    (setFirst g groups).eraseP (fun k => k.id = g.id) = groups.eraseP fun k => k.id = g.id := by
  induction groups with
  | nil => rfl
  | cons k groups ih =>
    by_cases hk : k.id = g.id
    · rw [setFirst, if_pos hk, List.eraseP_cons_of_pos (by simp),
        List.eraseP_cons_of_pos (by simpa using hk)]
    · rw [setFirst, if_neg hk, List.eraseP_cons_of_neg (by simpa using hk),
        List.eraseP_cons_of_neg (by simpa using hk), ih]

/-! ## One call -/

variable {sent : List Frame} {minted : List UUID}

/-- A write of one group. -/
theorem Keys.setGroup {t : ChatStore} (h : Keys keyId me sent minted received s.groups)
    (hfind : s.findGroup groupId = some g)
    (hstep : KeyStep keyId me fresh arrived g g' frames) (hfresh : ∀ d ∈ fresh, d ∉ minted)
    (ht : t.groups = (s.setGroup g').groups) :
    Keys keyId me (sent ++ frames) (fresh ++ minted) (arrived ++ received) t.groups := by
  obtain ⟨rest, hperm, hperm'⟩ := setFirst_perm hfind (hstep.id.trans (findGroup_id hfind))
  rw [ht]
  exact ((h.perm hperm.symm).change hstep hfresh).perm hperm'

/-- The ids that a call draws. -/
def Ambient.ids (amb : Ambient) : List UUID := [amb.rotateId, amb.chainId]

/-- What one call keeps. -/
theorem Does.keys (hcard : s.myCard = some me) (hme : me.length = identityKeySize)
    (hsession : ∀ session, s.session = some session →
      Capable env keyId me session ∧ Unforeseen env amb me session received)
    (hfresh : ∀ d ∈ amb.ids, d ∉ minted) (hkeys : Keys keyId me sent minted received s.groups)
    (h : Does env amb me arrived s s' frames) :
    Keys keyId me (sent ++ frames) (amb.ids ++ minted) (arrived ++ received) s'.groups := by
  have hheld : ∀ {groupId g}, s.findGroup groupId = some g →
      KeyedTo keyId me sent minted received g := fun hfind =>
    hkeys.each _ (List.mem_of_find?_eq_some hfind)
  have hrotateId : amb.rotateId ∈ amb.ids := List.mem_cons_self
  have hchainId : amb.chainId ∈ amb.ids := List.mem_cons_of_mem _ List.mem_cons_self
  have hset : ∀ {session}, s.session = some session →
      Setting env keyId amb me session received s := fun hs =>
    ⟨hcard, hme, hs, (hsession _ hs).1, (hsession _ hs).2⟩
  have hquiet : Keys keyId me (sent ++ []) (amb.ids ++ minted) (arrived ++ received) s.groups :=
    hkeys.later hfresh fun _ hf => absurd hf List.not_mem_nil
  cases h with
  | nothing => exact hquiet
  | row text hfind =>
    have hg := hheld hfind
    exact hkeys.setGroup hfind (row_keyStep hg.sized hg.enrolled text) hfresh rfl
  | refused log hfind happly hrefused hsource =>
    have hg := hheld hfind
    exact hkeys.setGroup hfind
      (refused_keyStep hg.sized hg.enrolled happly hrefused hsource) hfresh rfl
  | @hooked groupId g g' op outcome sx session _ before fs hs hfind happly hsource hbefore hhooks =>
    have hg := hheld hfind
    have hid : g'.id = groupId := (apply_id happly).trans (findGroup_id hfind)
    have hsized : Sized g' := ⟨by rw [apply_id happly]; exact hg.sized.id,
      apply_digest_length happly hg.sized.lastOpDigest⟩
    have hqueue : ∀ bytes ∈ g'.pendingOps, bytes ∈ g.pendingOps := by
      rcases hsource with ⟨-, e, rfl⟩ | hnext
      · exact apply_unparked happly
      · exact apply_own_unparked happly hnext
    have hfind' : (s.setGroup g').findGroup g'.id = some g' := by
      rw [hid]
      exact findGroup_setGroup hfind hid
    have hset' : Setting env keyId amb me session received (s.setGroup g') :=
      ⟨hcard, hme, hs, (hset hs).capable, (hset hs).unforeseen⟩
    obtain ⟨g'', rfl, hstep⟩ := hooks_keyStep arrived hset' hfind' hsized hg.enrolled
      (fun bytes hbytes => hg.parked bytes (hqueue bytes hbytes)) hqueue (Flags.of_apply happly)
      hrotateId hchainId hhooks
    refine hkeys.setGroup hfind (hstep.keyless fun f hf => keyOf_of_kind (hbefore f hf)) hfresh ?_
    rw [setGroup_setGroup (hstep.id.trans (apply_id happly).symm)]
  | @keyArrived groupId sender g dist session _ _ hs hfind hhooks =>
    have hg := hheld hfind
    have hflags := keyed_flags me g dist sender
    obtain ⟨previous, heq⟩ := setMemberDistId_eq g dist sender
    have hsame : (g.keyed dist sender).lastOpDigest = g.lastOpDigest ∧
        (g.keyed dist sender).pendingOps = g.pendingOps := by
      rw [keyed, flipActive, heq]
      exact ⟨rfl, rfl⟩
    have hqueue : ∀ bytes ∈ (g.keyed dist sender).pendingOps, bytes ∈ g.pendingOps :=
      fun bytes hbytes => hsame.2 ▸ hbytes
    have hid : (g.keyed dist sender).id = groupId := hflags.id.trans (findGroup_id hfind)
    have hfind' : (s.setGroup (g.keyed dist sender)).findGroup (g.keyed dist sender).id =
        some (g.keyed dist sender) := by
      rw [hid]
      exact findGroup_setGroup hfind hid
    have hset' : Setting env keyId amb me session received (s.setGroup (g.keyed dist sender)) :=
      ⟨hcard, hme, hs, (hset hs).capable, (hset hs).unforeseen⟩
    obtain ⟨g'', rfl, hstep⟩ := hooks_keyStep arrived hset' hfind'
      ⟨by rw [hflags.id]; exact hg.sized.id, by rw [hsame.1]; exact hg.sized.lastOpDigest⟩
      hg.enrolled (fun bytes hbytes => hg.parked bytes (hqueue bytes hbytes)) hqueue hflags
      hrotateId hchainId hhooks
    refine hkeys.setGroup hfind hstep hfresh ?_
    rw [setGroup_setGroup (hstep.id.trans hflags.id.symm)]
  | @rotated groupId t _ _ hinvited hrotate hrow =>
    rcases rotateMyGroupChain_idle hrotate with ⟨rfl, rfl⟩ | ⟨session, _, g, hs, hc, hfind, hmem⟩
    · rcases hrow with rfl | ⟨k, text, hk, rfl⟩
      · exact hquiet
      · have hg := hheld hk
        exact hkeys.setGroup hk (row_keyStep hg.sized hg.enrolled text) hfresh rfl
    · rw [hcard] at hc
      cases hc
      have hg := hheld hfind
      obtain ⟨g', rfl, hstep, -⟩ := rotate_keyStep arrived (hset hs) hfind hg.sized hg.parked hmem
        (hinvited g hfind) hrotateId hrotate
      rcases hrow with rfl | ⟨k, text, hk, rfl⟩
      · exact hkeys.setGroup hfind hstep hfresh rfl
      · have hk' := findGroup_setGroup hfind (hstep.id.trans (findGroup_id hfind))
        rw [hk'] at hk
        cases hk
        have hshown : KeyStep keyId me _ arrived g (g'.appendSystem text) _ :=
          hstep.then rfl rfl rfl rfl rfl rfl
        refine hkeys.setGroup hfind hshown hfresh ?_
        rw [setGroup_setGroup (show (g'.appendSystem text).id = g'.id from rfl)]
  | @left groupId t _ hrotate =>
    rcases rotateMyGroupChain_idle hrotate with ⟨rfl, rfl⟩ | ⟨session, _, g, hs, hc, hfind, hmem⟩
    · exact hquiet.subperm (List.eraseP_sublist.subperm)
    · rw [hcard] at hc
      cases hc
      have hg := hheld hfind
      obtain ⟨op, skdm, k, sx, r, -, hkey, -, -, happly, hships, rfl, rfl⟩ :=
        rotateMyGroupChain_spec (hset hs).capable hme hs hcard hfind hg.sized hmem hrotate
      obtain ⟨recipients, hgroup, -⟩ := hships.group
      have hid : r.1.id = groupId := by
        rw [hgroup]
        exact (apply_id happly).trans (findGroup_id hfind)
      have hdropped : ((s.setGroup r.1).removeGroup groupId).groups =
          s.groups.eraseP fun k => k.id = groupId := by
        rw [← hid]
        exact eraseP_setFirst s.groups r.1
      rw [hdropped]
      refine (hkeys.later hfresh fun f hf d hd => ?_).subperm List.eraseP_sublist.subperm
      have hk : k.id = g.id := apply_id happly
      have hsize : (k.rotated amb me).id.length = groupIdSize := by
        rw [← hg.sized.id]
        exact congrArg _ hk
      rw [(hships.key hsize (fun peer => keyless_broadcastGroupOp s op.wire peer) hkey hf hd).1]
      exact hrotateId
  | removed groupId => exact hquiet.subperm List.eraseP_sublist.subperm
  | resent hs hfind hdist hinvited hskdm =>
    have hg := hheld hfind
    exact hkeys.setGroup hfind
      (resent_keyStep (hset hs).capable hg.sized hg.enrolled hdist hinvited hskdm) hfresh rfl
  | accepted hs hfind hinvited hmember =>
    have hg := hheld hfind
    exact hkeys.setGroup hfind
      (accepted_keyStep (hset hs).capable hcard hg.sized hinvited hmember hchainId rfl) hfresh rfl
  | created hs hinvited hrows hstatus hfirst hskdm =>
    exact ((hkeys.blank hinvited).change (created_keyStep (hset hs).capable hinvited hrows hstatus
      hfirst hskdm hchainId) hfresh).perm (List.perm_append_singleton _ _)
  | joined hinvited =>
    exact ((hkeys.blank hinvited).later hfresh fun _ hf => absurd hf List.not_mem_nil).perm
      (List.perm_append_singleton _ _)

/-! ## Runs -/

/-- What is assumed of an event: the ids a call draws are fresh, the session can mint and sign,
and no op that has arrived names the rotation that the call may sign. -/
def Assumed (env : GroupEnv) (keyId : Bytes → Option UUID) (me : Bytes) (c : Client) : Event → Prop
  | .call amb _ =>
    (∀ d ∈ amb.ids, d ∉ c.minted) ∧
      ∀ session, c.store.session = some session →
        Capable env keyId me session ∧ Unforeseen env amb me session c.received
  | _ => True

/-- And no invitation that waits for its answer is rotated. -/
def Proper (env : GroupEnv) (keyId : Bytes → Option UUID) (me : Bytes) (c : Client) (e : Event) :
    Prop :=
  Assumed env keyId me c e ∧ ∀ amb call, e = .call amb call → call.Answered c.store

/-- The invariant of a run. -/
structure Keyed (keyId : Bytes → Option UUID) (me : Bytes) (c : Client) : Prop where
  card : c.store.myCard = some me
  keys : Keys keyId me c.sent c.minted c.received c.store.groups

theorem keyed_fresh (hcard : s.myCard = some me) : Keyed keyId me (.fresh s) where
  card := hcard
  keys := ⟨fun _ hg => absurd hg List.not_mem_nil, List.nodup_nil,
    fun _ hf => absurd hf List.not_mem_nil⟩

variable {groups groups' : List ChatGroup}

/-- A list of groups, each with the keys, the members and the chain position of an old one. -/
theorem Keys.forall₂ (h : Keys keyId me sent minted received groups)
    (hpairs : List.Forall₂ (fun k k' => k'.id = k.id ∧ k'.lastOpDigest = k.lastOpDigest ∧
      k'.myCurrentDistributionId = k.myCurrentDistributionId ∧
      k'.pendingInvitation = k.pendingInvitation ∧ (∀ peer, k'.hasMember peer = k.hasMember peer) ∧
      ∀ bytes ∈ k'.pendingOps, bytes ∈ k.pendingOps) groups groups') :
    Keys keyId me sent minted received groups' where
  each g' hg' := by
    obtain ⟨g, hg, hid, hdigest, hdist, hpending, hmember, hqueue⟩ :
        ∃ g ∈ groups, g'.id = g.id ∧ g'.lastOpDigest = g.lastOpDigest ∧
          g'.myCurrentDistributionId = g.myCurrentDistributionId ∧
          g'.pendingInvitation = g.pendingInvitation ∧
          (∀ peer, g'.hasMember peer = g.hasMember peer) ∧
          ∀ bytes ∈ g'.pendingOps, bytes ∈ g.pendingOps := by
      clear h
      induction hpairs with
      | nil => cases hg'
      | cons hpair _ ih =>
        rcases List.mem_cons.mp hg' with rfl | hg'
        · exact ⟨_, List.mem_cons_self, hpair⟩
        · obtain ⟨g, hg, hrest⟩ := ih hg'
          exact ⟨g, List.mem_cons_of_mem _ hg, hrest⟩
    obtain ⟨hsized, hparked, henrolled, hminted, hhanded⟩ := h.each g hg
    refine ⟨⟨hid ▸ hsized.id, hdigest ▸ hsized.lastOpDigest⟩,
      fun bytes hbytes => hparked bytes (hqueue bytes hbytes), fun hsome => ?_,
      fun d hd => hminted d (hdist ▸ hd), fun d peer hd hpeer => ?_⟩
    · rw [hmember]
      exact henrolled (hdist ▸ hsome)
    · rw [hmember, hpending]
      exact hhanded d peer (hdist ▸ hd) hpeer
  distinct := by
    have hsame : groups'.filterMap ChatGroup.myCurrentDistributionId =
        groups.filterMap ChatGroup.myCurrentDistributionId := by
      clear h
      induction hpairs with
      | nil => rfl
      | cons hpair _ ih => rw [List.filterMap_cons, List.filterMap_cons, hpair.2.2.1, ih]
    rw [hsame]
    exact h.distinct
  named := h.named

theorem fromDisk_fields (h : FromDisk g g') :
    g'.id = g.id ∧ g'.members.Perm (g.members.map GroupMember.stored) ∧
      g'.lastOpDigest = g.lastOpDigest ∧
      g'.myCurrentDistributionId = g.myCurrentDistributionId ∧
      g'.pendingInvitation = g.pendingInvitation ∧ g'.pendingOps = [] := by
  obtain ⟨db, db', createdAt, hwritten, hupsert, rfl⟩ := h
  have hstored : storeGroup g db = db' := by
    rw [storeGroup, hupsert]
    rfl
  refine ⟨rfl, loadedMembers_perm hupsert, rfl, bind_asUUID g.myCurrentDistributionId, rfl, ?_⟩
  show loadGroupPendingOps db' g.id = []
  rw [← hstored, loadGroupPendingOps, (hwritten.storeGroup g).op_tables_empty.1]
  rfl

theorem hasMember_stored (h : g'.members.Perm (g.members.map GroupMember.stored)) (peer : Bytes) :
    g'.hasMember peer = g.hasMember peer := by
  rw [Bool.eq_iff_iff, hasMember_iff, hasMember_iff]
  constructor
  · rintro ⟨m, hm, hrow⟩
    obtain ⟨k, hk, rfl⟩ := List.mem_map.mp (h.subset hm)
    exact ⟨k, hk, hrow⟩
  · rintro ⟨m, hm, hrow⟩
    exact ⟨m.stored, h.symm.subset (List.mem_map_of_mem hm), hrow⟩

/-- What one event keeps. -/
theorem Keyed.step {c c' : Client} {e : Event} (hme : me.length = identityKeySize)
    (hc : Keyed keyId me c) (hproper : Proper env keyId me c e) (hstep : c.Step env e c') :
    Keyed keyId me c' := by
  cases e with
  | call amb call =>
    obtain ⟨s', frames, hperform, rfl⟩ := hstep
    obtain ⟨⟨hfresh, hsession⟩, hanswered⟩ := hproper
    have hdoes := perform_does hc.card (hanswered amb call rfl) hperform
    obtain ⟨groups, rfl⟩ := hdoes.writes hc.card
    exact ⟨hc.card, hdoes.keys hc.card hme hsession hfresh hc.keys⟩
  | bookkeeping groups =>
    obtain ⟨hpairs, rfl⟩ := hstep
    refine ⟨hc.card, hc.keys.forall₂ (hpairs.imp ?_)⟩
    rintro k _ ⟨log, count, rfl⟩
    exact ⟨rfl, rfl, rfl, rfl, fun _ => rfl, fun _ hbytes => hbytes⟩
  | relaunch groups =>
    obtain ⟨⟨kept, hkept, hpairs⟩, rfl⟩ := hstep
    refine ⟨hc.card, (hc.keys.subperm hkept).forall₂ (hpairs.imp fun k k' hdisk => ?_)⟩
    obtain ⟨hid, hmembers, hdigest, hdist, hpending, hqueue⟩ := fromDisk_fields hdisk
    refine ⟨hid, hdigest, hdist, hpending, hasMember_stored hmembers, fun bytes hbytes => ?_⟩
    rw [hqueue] at hbytes
    cases hbytes
  | surroundings session readyRelays contacts =>
    cases hstep
    exact ⟨hc.card, hc.keys⟩

/-- Removed peers cannot read what is sent later: when a client encrypts a group message or a
group file under `d`, nobody outside the group was handed the sender key of `d`. -/
theorem removed_peers_lack_current_key {c : Client} {s₀ : ChatStore}
    (hme : me.length = identityKeySize) (hcard : s₀.myCard = some me)
    (hrun : Runs.Reach (Client.Step env) (Proper env keyId me) (.fresh s₀) c) :
    (∀ amb groupId text s' frames d,
      Assumed env keyId me c (.call amb (.sendGroupMessage groupId text)) →
      c.store.beginGroupMessage env amb groupId text = some (s', frames, some d) →
      ∀ g, s'.findGroup groupId = some g → ∀ peer, g.hasMember peer = false →
        ¬ Handed keyId (c.sent ++ frames) peer d) ∧
    (∀ groupId s' d, c.store.beginGroupChunks groupId = (s', some d) →
      ∀ g, s'.findGroup groupId = some g → ∀ peer, g.hasMember peer = false →
        ¬ Handed keyId c.sent peer d) := by
  have hkeyed : Keyed keyId me c :=
    hrun.invariant (Keyed keyId me) (fun hc hok hstep => hc.step hme hok hstep) (keyed_fresh hcard)
  -- what the chain of a send says about the group
  have hchain : ∀ {t : ChatStore} {groupId s' d}, t.currentChain groupId = (s', some d) →
      ∀ g, s'.findGroup groupId = some g → t = s' ∧ g.myCurrentDistributionId = some d := by
    intro t groupId s' d hcurrent g hfind
    rw [currentChain] at hcurrent
    split at hcurrent
    · cases hcurrent
    · next k hk =>
      split at hcurrent
      · next d' hd' =>
        cases hcurrent
        rw [hfind] at hk
        cases hk
        exact ⟨rfl, hd'⟩
      · cases hcurrent
  have houtside : ∀ {sent minted received} {t : ChatStore} {groupId g d peer},
      Keys keyId me sent minted received t.groups → t.findGroup groupId = some g →
      g.myCurrentDistributionId = some d → g.hasMember peer = false →
      ¬ Handed keyId sent peer d := by
    intro sent minted received t groupId g d peer hkeys hfind hd hgone hhanded
    have hmember := ((hkeys.each g (List.mem_of_find?_eq_some hfind)).handed d peer hd hhanded).1
    rw [hgone] at hmember
    cases hmember
  constructor
  · intro amb groupId text s' frames d hassumed hsend g hfind peer hgone
    have hperform : Call.perform env amb c.store (.sendGroupMessage groupId text) =
        some (s', frames) := by
      rw [Call.perform, hsend]
      rfl
    have hafter : Keyed keyId me (c.after amb (.sendGroupMessage groupId text) s' frames) :=
      hkeyed.step hme ⟨hassumed, fun _ _ heq => by cases heq; trivial⟩ ⟨s', frames, hperform, rfl⟩
    refine houtside (t := s') hafter.keys hfind ?_ hgone
    rw [beginGroupMessage] at hsend
    split at hsend
    · cases hsend
    split at hsend
    · split at hsend
      · cases hsend
      split at hsend
      · cases hsend
      · obtain ⟨r, -, heq⟩ := Option.map_eq_some_iff.mp hsend
        obtain ⟨hstore, hrest⟩ := Prod.mk.inj heq
        exact (hchain (Prod.ext hstore (Prod.mk.inj hrest).2) g hfind).2
    · cases hsend
  · intro groupId s' d hchunks g hfind peer hgone
    rw [beginGroupChunks] at hchunks
    split at hchunks
    · split at hchunks
      · cases hchunks
      split at hchunks
      · cases hchunks
      · obtain ⟨hsame, hd⟩ := hchain hchunks g hfind
        exact houtside (hsame ▸ hkeyed.keys) hfind hd hgone
    · cases hchunks

/-! ## A removed peer, and a rotation too early

In the environment below the digest of an op shows its kind and the first bytes of its payload,
so that a rotation's digest shows the id it rotates to. -/

/-- Kind, start of the payload, and a checksum. -/
def namingDigest (bs : Bytes) : FixedBytes 32 :=
  ⟨((bs.drop 130).take 1 ++ (bs.drop 135).take 16 ++ (sampleDigest bs).1).take 32, by
    rw [List.length_take, List.length_append, (sampleDigest bs).2]
    omega⟩

def namingEnv : GroupEnv := { sampleEnv with blake3 := namingDigest }

/-- The start of a rotation's digest. -/
theorem namingDigest_rotation {dist : UUID} (hkind : op.kind = .rotateSenderKey dist)
    (hencoded : op.encoded = .ok op.wire) :
    (namingEnv.hash op.wire).take 17 = op.kind.kindByte :: dist.1 := by
  obtain ⟨header, hheader, h⟩ := bind_eq_ok.mp hencoded
  obtain ⟨_, _, h⟩ := bind_eq_ok.mp h
  obtain ⟨_, hid, hheader⟩ := bind_eq_ok.mp hheader
  obtain ⟨_, hparent, hheader⟩ := bind_eq_ok.mp hheader
  obtain ⟨_, hoperator, hheader⟩ := bind_eq_ok.mp hheader
  obtain ⟨_, hroot, hheader⟩ := bind_eq_ok.mp hheader
  obtain ⟨payload, hpayload, hheader⟩ := bind_eq_ok.mp hheader
  rw [require_eq_ok] at hid hparent hoperator hroot
  rw [hkind] at hpayload
  cases hpayload
  cases hheader
  obtain ⟨before, hbefore⟩ : ∃ before, before = GroupOp.opVersion :: (op.groupId ++
    (u64Bytes op.epoch ++ (op.parentDigest ++ (op.operatorIdentity ++ (u64Bytes op.timestampMillis ++
      op.priorMemberSetRoot))))) := ⟨_, rfl⟩
  have hlen : before.length = 130 := by
    rw [hbefore]
    simp only [List.length_cons, List.length_append, length_u64Bytes, hid, hparent, hoperator, hroot]
    rfl
  have hwire : op.wire = before ++ (op.kind.kindByte ::
      (beBytes 4 dist.1.length ++ (dist.1 ++ op.signature))) := by
    rw [← Except.ok.inj h, hbefore]
    simp only [List.cons_append, List.append_assoc]
  have hkindByte : (op.wire.drop 130).take 1 = [op.kind.kindByte] := by
    rw [hwire, List.drop_left' hlen]
    rfl
  have hpayload : (op.wire.drop 135).take 16 = dist.1 := by
    have hsplit : op.wire = (before ++ op.kind.kindByte :: beBytes 4 dist.1.length) ++
        (dist.1 ++ op.signature) := by
      rw [hwire]
      simp only [List.append_assoc, List.cons_append]
    rw [hsplit, List.drop_left' (by rw [List.length_append, hlen, List.length_cons, length_beBytes]),
      List.take_left' dist.2]
  show (((op.wire.drop 130).take 1 ++ (op.wire.drop 135).take 16 ++ _).take 32).take 17 = _
  rw [hkindByte, hpayload, List.take_take]
  exact List.take_left' (by rw [List.length_append, dist.2]; rfl)

/-- In this environment an op that does not show the id of the call is not foreseen. -/
theorem unforeseen_naming (hsigns : SignsFor namingEnv me session)
    (h : ∀ x ∈ received, x.parentDigest.take 17 ≠
      (GroupOpKind.rotateSenderKey amb.rotateId).kindByte :: amb.rotateId.1) :
    Unforeseen namingEnv amb me session received := by
  intro g op hsign x hx heq
  have hissued := signNext_issued hsigns hsign
  have hdigest := namingDigest_rotation hissued.kind hissued.encoded
  rw [← heq, hissued.kind] at hdigest
  exact h x hx hdigest

theorem sampleSession_signs (me : Bytes) : SignsFor namingEnv me (sampleSession me) := by
  have hop : namingEnv.verifyGroupOp = sampleEnv.verifyGroupOp := rfl
  have hbootstrap : namingEnv.verifyGroupBootstrap = sampleEnv.verifyGroupBootstrap := rfl
  constructor
  · intro message
    rw [hop]
    exact (sampleSession_signsFor me).groupOp message
  · intro message
    rw [hbootstrap]
    exact (sampleSession_signsFor me).groupBootstrap message

theorem sampleSession_capable (me : Bytes) : Capable namingEnv asUUID me (sampleSession me) where
  signs _ _ header _ _ _ := (sampleSession_signs me).groupOp header
  mints dist := ⟨dist.1, rfl, asUUID_val dist⟩

/-! ### Two runs of peer 2 -/

/-- The client after a call. -/
def Client.did (env : GroupEnv) (n : UInt8) (call : Call) (c : Client) : Client :=
  match call.perform env (sampleAmbient n) c.store with
  | some (s', frames) => c.after (sampleAmbient n) call s' frames
  | none => c

theorem Client.step_did {c : Client} {n : UInt8} {call : Call}
    (h : (call.perform env (sampleAmbient n) c.store).isSome = true) :
    c.Step env (.call (sampleAmbient n) call) (c.did env n call) := by
  rw [Client.did]
  split
  · next s' frames hperform => exact ⟨s', frames, hperform, rfl⟩
  · next hnone =>
    rw [hnone] at h
    cases h

/-- Peer 2, paired with peers 1 and 3. -/
def sampleInvitee : Client := .fresh (sampleDevice 2 [1, 3] [])

/-- An op of peer 1 arrives. -/
def arrivesFrom1 (op : GroupOp) : Call := .receive (samplePeer 1) ⟨samplePeer 2, .groupOp, op.wire⟩

/-- Peer 1's next op in the sample group that `c` holds. -/
def nextFrom1 (c : Client) (kind : GroupOpKind) : GroupOp :=
  match c.store.findGroup sampleGroupId with
  | none => sampleCreate []
  | some g =>
    sampleSigned
      { groupId := g.id
        epoch := g.currentEpoch + 1
        parentDigest := g.lastOpDigest
        operatorIdentity := samplePeer 1
        timestampMillis := 2000
        priorMemberSetRoot := (g.memberSetRoot namingEnv).getD []
        kind := kind
        signature := [] }

/-- Peer 1 has invited peer 2 to a group with peer 3. -/
def sampleAsked : Client := sampleInvitee.did namingEnv 1 (arrivesFrom1 (sampleCreate [1, 2, 3]))

/-- Peer 2 accepts. -/
def sampleJoined : Client := sampleAsked.did namingEnv 2 (.acceptGroupInvitation sampleGroupId)

/-- Then peer 1 removes peer 3. -/
def sampleRid : Client :=
  sampleJoined.did namingEnv 3 (arrivesFrom1 (nextFrom1 sampleJoined (.removeMember (samplePeer 3))))

/-- The client is the one of peer 2. -/
structure IsPeer2 (c : Client) : Prop where
  card : c.store.myCard = some (samplePeer 2)
  session : c.store.session = some (sampleSession (samplePeer 2))

theorem isPeer2_sampleInvitee : IsPeer2 sampleInvitee := ⟨rfl, rfl⟩

theorem IsPeer2.did {c : Client} {n : UInt8} {call : Call} (h : IsPeer2 c) (env : GroupEnv)
    (hanswered : call.Answered c.store ∨ ∃ groupId, call = .rotateMyGroupChain groupId) :
    IsPeer2 (c.did env n call) := by
  rw [Client.did]
  split
  · next s' frames hperform =>
    have hwrites : Writes c.store s' := by
      rcases hanswered with hanswered | ⟨groupId, rfl⟩
      · exact (perform_does h.card hanswered hperform).writes h.card
      · exact rotateMyGroupChain_writes hperform
    obtain ⟨groups, rfl⟩ := hwrites
    exact ⟨h.card, h.session⟩
  · exact h

/-- What the assumptions on a sample step come down to. -/
theorem assumed_sample {c : Client} {n : UInt8} {call : Call} (hpeer : IsPeer2 c)
    (hfresh : ∀ d ∈ (sampleAmbient n).ids, d ∉ c.minted)
    (hnames : ∀ x ∈ c.received, x.parentDigest.take 17 ≠
      (GroupOpKind.rotateSenderKey (sampleAmbient n).rotateId).kindByte ::
        (sampleAmbient n).rotateId.1) :
    Assumed namingEnv asUUID (samplePeer 2) c (.call (sampleAmbient n) call) := by
  refine ⟨hfresh, fun session hs => ?_⟩
  rw [hpeer.session] at hs
  cases hs
  exact ⟨sampleSession_capable _, unforeseen_naming (sampleSession_signs _) hnames⟩

theorem handed_of_any {sent : List Frame} {peer : Bytes} {dist : UUID}
    (h : (sent.any fun f => f.recipient = peer && f.keyOf keyId = some dist) = true) :
    Handed keyId sent peer dist := by
  obtain ⟨f, hf, hrow⟩ := List.any_eq_true.mp h
  obtain ⟨hto, hkey⟩ := Bool.and_eq_true_iff.mp hrow
  exact ⟨f, hf, of_decide_eq_true hto, of_decide_eq_true hkey⟩

/-- A sample call whose checks hold is a step of a run. -/
theorem reach_sample {ok : Client → Event → Prop} {c₀ c : Client} {n : UInt8} {call : Call}
    (hrun : Runs.Reach (Client.Step namingEnv) ok c₀ c)
    (hdone : (call.perform namingEnv (sampleAmbient n) c.store).isSome = true)
    (hok : ok c (.call (sampleAmbient n) call)) :
    Runs.Reach (Client.Step namingEnv) ok c₀ (c.did namingEnv n call) :=
  hrun.snoc (Client.step_did hdone) hok

/-- Peer 3 was handed the key of peer 2's first chain and is then removed; what peer 2 sends
afterwards is under another one. -/
theorem removed_peers_lack_current_key_after_removal :
    Handed asUUID sampleRid.sent (samplePeer 3) (sampleAmbient 2).chainId ∧
      ∃ s' frames d g, sampleRid.store.beginGroupMessage namingEnv (sampleAmbient 4) sampleGroupId
          "hi" = some (s', frames, some d) ∧
        s'.findGroup sampleGroupId = some g ∧ g.hasMember (samplePeer 3) = false ∧
        ¬ Handed asUUID (sampleRid.sent ++ frames) (samplePeer 3) d := by
  have hanswered : ∀ {c : Client} {amb : Ambient} {call : Call}, call.Answered c.store →
      ∀ amb' call', Event.call amb call = .call amb' call' → call'.Answered c.store := by
    intro c amb call h amb' call' heq
    cases heq
    exact h
  have hasked : IsPeer2 sampleAsked := isPeer2_sampleInvitee.did namingEnv (.inl trivial)
  have haccepted : IsPeer2 sampleJoined := hasked.did namingEnv (.inl trivial)
  have hremoved : IsPeer2 sampleRid := haccepted.did namingEnv (.inl trivial)
  have hinvited : Runs.Reach (Client.Step namingEnv) (Proper namingEnv asUUID (samplePeer 2))
      sampleInvitee sampleAsked :=
    reach_sample .refl (by decide +kernel)
      ⟨assumed_sample isPeer2_sampleInvitee (by decide +kernel) (by decide +kernel), hanswered trivial⟩
  have hjoined : Runs.Reach (Client.Step namingEnv) (Proper namingEnv asUUID (samplePeer 2))
      sampleInvitee sampleJoined :=
    reach_sample hinvited (by decide +kernel)
      ⟨assumed_sample hasked (by decide +kernel) (by decide +kernel), hanswered trivial⟩
  have hrid : Runs.Reach (Client.Step namingEnv) (Proper namingEnv asUUID (samplePeer 2))
      sampleInvitee sampleRid :=
    reach_sample hjoined (by decide +kernel)
      ⟨assumed_sample haccepted (by decide +kernel) (by decide +kernel), hanswered trivial⟩
  have hsend : (sampleRid.store.beginGroupMessage namingEnv (sampleAmbient 4) sampleGroupId
      "hi").map (fun r => (r.2.2.isSome, (r.1.findGroup sampleGroupId).map fun g =>
        g.hasMember (samplePeer 3))) = some (true, some false) := by
    decide +kernel
  obtain ⟨⟨s', frames, dist⟩, hbegin, heq⟩ := Option.map_eq_some_iff.mp hsend
  obtain ⟨hdist, hgroup⟩ := Prod.mk.inj heq
  obtain ⟨d, rfl⟩ := Option.isSome_iff_exists.mp hdist
  obtain ⟨g, hfind, hgone⟩ := Option.map_eq_some_iff.mp hgroup
  refine ⟨handed_of_any (by decide +kernel), s', frames, d, g, hbegin, hfind, hgone, ?_⟩
  exact (removed_peers_lack_current_key (by decide) rfl hrid).1 _ _ _ _ _ _
    (assumed_sample hremoved (by decide +kernel) (by decide +kernel)) hbegin g hfind _ hgone

/-- Peer 2 rotates before it has answered the invitation. -/
def sampleEarly : Client := sampleAsked.did namingEnv 2 (.rotateMyGroupChain sampleGroupId)

/-- Peer 1 removes peer 3. -/
def sampleEarlyRid : Client :=
  sampleEarly.did namingEnv 3 (arrivesFrom1 (nextFrom1 sampleEarly (.removeMember (samplePeer 3))))

/-- Only now peer 2 accepts. -/
def sampleLate : Client := sampleEarlyRid.did namingEnv 4 (.acceptGroupInvitation sampleGroupId)

/-- Without the condition on rotations the property fails: the key that the early rotation hands
to peer 3 is still in use after peer 3 is gone. -/
theorem early_rotation_reaches_removed_peer :
    ¬ ∀ c : Client, Runs.Reach (Client.Step namingEnv) (Assumed namingEnv asUUID (samplePeer 2))
        sampleInvitee c →
      ∀ amb groupId text s' frames d,
        Assumed namingEnv asUUID (samplePeer 2) c (.call amb (.sendGroupMessage groupId text)) →
        c.store.beginGroupMessage namingEnv amb groupId text = some (s', frames, some d) →
        ∀ g, s'.findGroup groupId = some g → ∀ m ∈ g.members, m.status = .removed →
          ¬ Handed asUUID (c.sent ++ frames) m.peerId d := by
  intro hall
  have hasked : IsPeer2 sampleAsked := isPeer2_sampleInvitee.did namingEnv (.inl trivial)
  have hrotated : IsPeer2 sampleEarly := hasked.did namingEnv (.inr ⟨_, rfl⟩)
  have hremoved : IsPeer2 sampleEarlyRid := hrotated.did namingEnv (.inl trivial)
  have haccepted : IsPeer2 sampleLate := hremoved.did namingEnv (.inl trivial)
  have hinvited : Runs.Reach (Client.Step namingEnv) (Assumed namingEnv asUUID (samplePeer 2))
      sampleInvitee sampleAsked :=
    reach_sample .refl (by decide +kernel)
      (assumed_sample isPeer2_sampleInvitee (by decide +kernel) (by decide +kernel))
  have hearly : Runs.Reach (Client.Step namingEnv) (Assumed namingEnv asUUID (samplePeer 2))
      sampleInvitee sampleEarly :=
    reach_sample hinvited (by decide +kernel)
      (assumed_sample hasked (by decide +kernel) (by decide +kernel))
  have hrid : Runs.Reach (Client.Step namingEnv) (Assumed namingEnv asUUID (samplePeer 2))
      sampleInvitee sampleEarlyRid :=
    reach_sample hearly (by decide +kernel)
      (assumed_sample hrotated (by decide +kernel) (by decide +kernel))
  have hlate : Runs.Reach (Client.Step namingEnv) (Assumed namingEnv asUUID (samplePeer 2))
      sampleInvitee sampleLate :=
    reach_sample hrid (by decide +kernel)
      (assumed_sample hremoved (by decide +kernel) (by decide +kernel))
  have hsend : (sampleLate.store.beginGroupMessage namingEnv (sampleAmbient 5) sampleGroupId
      "hi").map (fun r => (r.2, (r.1.findGroup sampleGroupId).map fun g =>
        g.members.any fun m => m.peerId = samplePeer 3 && m.status = .removed)) =
      some (([], some (sampleAmbient 2).rotateId), some true) := by
    decide +kernel
  obtain ⟨⟨s', frames, dist⟩, hbegin, heq⟩ := Option.map_eq_some_iff.mp hsend
  obtain ⟨hdist, hgroup⟩ := Prod.mk.inj heq
  cases hdist
  obtain ⟨g, hfind, hrows⟩ := Option.map_eq_some_iff.mp hgroup
  obtain ⟨m, hm, hrow⟩ := List.any_eq_true.mp hrows
  obtain ⟨hpeer, hstatus⟩ := Bool.and_eq_true_iff.mp hrow
  refine hall _ hlate _ _ _ _ _ _ (assumed_sample haccepted (by decide +kernel) (by decide +kernel))
    hbegin g hfind m hm (of_decide_eq_true hstatus) ?_
  rw [of_decide_eq_true hpeer]
  exact handed_of_any (by decide +kernel)

end Pizzini.Group
