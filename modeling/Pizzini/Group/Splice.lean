import Pizzini.Lib.Runs
import Pizzini.Group.ChatStoreGroups
import Pizzini.Group.DeliveryOrder

/-!
# Distribution ids across groups (`handleGroupChat`, ChatStoreGroups.swift:1789)

A group message names its group in a routing hint and its chain in the ciphertext
header. The gates take a ciphertext for group `G` only if its distribution id is one
that `G` accepts from the sender, and no other group does. A group accepts the id of
the sender's last key and of up to four keys before it; it forgets an id when a fifth
key arrives, when the sender is removed or added again, and on every relaunch, since
the superseded ids are not stored.

`GroupsClient` is a device with several groups, and the history of what has passed the
gates. `no_cross_group_splice` says that one `(sender, id)` passes for one group only,
in every run in which no id comes back in another group after its own group forgot it
(`NoReuse`). `forgotten_id_spliced` is a run in which one does.
-/

namespace Pizzini.Group

open Wire Runs

/-! ## The gates -/

/-- `acceptsDistId(_:from:)` (`Group.swift:527`). -/
def ChatGroup.acceptsDistId (g : ChatGroup) (distId : UUID) (sender : Bytes) : Bool :=
  g.memberDistributionIds.lookup sender = some distId ||
    ((g.previousMemberDistributionIds.lookup sender).getD []).contains distId

/-- The gates of `handleGroupChat` (`ChatStoreGroups.swift:1789–1839`); `distId` is what
`GroupEnvelope.distributionId(fromSenderKeyMessage:)` reads from the header. -/
def passesGates (groups : List ChatGroup) (groupId sender : Bytes) (distId : Option UUID) : Bool :=
  match groups.find? fun g => g.id = groupId with
  | none => false
  | some g =>
    g.hasMember sender &&
      distId.any fun dist => g.acceptsDistId dist sender &&
        !ChatStore.distributionIdCollidesAcrossGroups groups groupId sender dist

/-! ## The client -/

/-- A ciphertext that passed: its group, its sender and its distribution id. -/
structure Passed where
  groupId : Bytes
  sender : Bytes
  dist : UUID
deriving DecidableEq

/-- The groups of a device, and what has passed the gates so far. -/
structure GroupsClient where
  groups : List ChatGroup
  passed : List Passed

/-- What reaches the client. -/
inductive ClientEvent where
  /-- a group is created here or by an invitation -/
  | hold (g : ChatGroup)
  /-- a sender key for a group; `dist` is the id libsignal returns for it -/
  | keyDistribution (groupId sender : Bytes) (dist : UUID)
  | groupOp (op : GroupOp)
  | groupChat (groupId sender : Bytes) (distId : Option UUID)
  /-- `leaveGroup` -/
  | leave (groupId : Bytes)
  | relaunch

/-- The part of `handleGroupKeyDistribution` that installs the key
(`ChatStoreGroups.swift:1764–1776`). -/
def ChatGroup.installKey (g : ChatGroup) (dist : UUID) (sender : Bytes) : ChatGroup :=
  let g₁ := g.setMemberDistId dist sender
  { g₁ with
    members := updateFirst (fun m => m.peerId = sender && m.status = .pendingSKDM)
      (fun m => { m with status := .active }) g₁.members }

/-- A group as a relaunch gives it back: the superseded ids, the parked ops and the
digest window are not stored. -/
def ChatGroup.relaunched (g : ChatGroup) : ChatGroup :=
  { g with
    previousMemberDistributionIds := ∅
    pendingOps := []
    recentOpDigests := ∅ }

namespace GroupsClient

/-- `handleGroupKeyDistribution` (`ChatStoreGroups.swift:1702`) on the groups. -/
def handleGroupKeyDistribution (s : GroupsClient) (groupId sender : Bytes) (dist : UUID) :
    GroupsClient :=
  match s.groups.find? fun g => g.id = groupId with
  | none => s
  | some g =>
    if ¬ g.hasMember sender then s
    else if ChatStore.distributionIdCollidesAcrossGroups s.groups groupId sender dist then s
    else { s with groups := setFirst (g.installKey dist sender) s.groups }

/-- `handleGroupChat` up to its gates. -/
def handleGroupChat (s : GroupsClient) (groupId sender : Bytes) (distId : Option UUID) :
    GroupsClient :=
  match distId with
  | none => s
  | some dist =>
    if passesGates s.groups groupId sender (some dist) then
      { s with passed := s.passed ++ [⟨groupId, sender, dist⟩] }
    else s

/-- One event. An op goes through `apply`, with the ops that were parked for it. -/
inductive Step (env : GroupEnv) (me : Option Bytes) : GroupsClient → ClientEvent →
    GroupsClient → Prop where
  | hold {s : GroupsClient} {g : ChatGroup} (fresh : FreshGroup env g) :
      Step env me s (.hold g) { s with groups := s.groups ++ [g] }
  | keyDistribution {s : GroupsClient} (groupId sender : Bytes) (dist : UUID) :
      Step env me s (.keyDistribution groupId sender dist)
        (s.handleGroupKeyDistribution groupId sender dist)
  | groupOp {s : GroupsClient} {op : GroupOp} {g g' : ChatGroup} {outcome : ApplyOutcome}
      {sx : ApplySideEffects} (found : s.groups.find? (fun g => g.id = op.groupId) = some g)
      (applied : g.apply env op { localIdentityPub := me } = some (outcome, g', sx)) :
      Step env me s (.groupOp op) { s with groups := setFirst g' s.groups }
  | groupChat {s : GroupsClient} (groupId sender : Bytes) (distId : Option UUID) :
      Step env me s (.groupChat groupId sender distId) (s.handleGroupChat groupId sender distId)
  | leave {s : GroupsClient} (groupId : Bytes) :
      Step env me s (.leave groupId)
        { s with groups := s.groups.eraseP fun g => g.id = groupId }
  | relaunch {s : GroupsClient} :
      Step env me s .relaunch { s with groups := s.groups.map ChatGroup.relaunched }

/-- A client without groups. -/
def empty : GroupsClient := ⟨[], []⟩

end GroupsClient

/-- No id comes back to another group after a ciphertext passed under it: a sender key
only while its own group still accepts the id (then the key is refused), a
`RotateSenderKey` op not at all. -/
def NoReuse (s : GroupsClient) : ClientEvent → Prop
  | .keyDistribution groupId sender dist =>
    ∀ p ∈ s.passed, p.sender = sender → p.dist = dist → p.groupId ≠ groupId →
      ∃ g ∈ s.groups, g.id = p.groupId ∧ g.acceptsDistId dist sender = true
  | .groupOp op =>
    ∀ g, s.groups.find? (fun g => g.id = op.groupId) = some g → ∀ x, g.MayLand op x →
      ∀ dist, x.kind = .rotateSenderKey dist → ∀ p ∈ s.passed,
        p.sender = x.operatorIdentity → p.dist = dist → p.groupId = g.id
  | _ => True

/-! ## Which ids a step makes a group accept -/

variable {env : GroupEnv} {me : Option Bytes} {op : GroupOp} {g g' : ChatGroup}
variable {dist newDist : UUID} {sender who : Bytes}

theorem acceptsDistId_iff :
    g.acceptsDistId dist sender = true ↔
      g.memberDistributionIds.lookup sender = some dist ∨
        ∃ history, g.previousMemberDistributionIds.lookup sender = some history ∧
          dist ∈ history := by
  rw [ChatGroup.acceptsDistId, Bool.or_eq_true, decide_eq_true_iff, List.contains_iff_mem]
  refine or_congr_right ?_
  cases g.previousMemberDistributionIds.lookup sender with
  | none => simp
  | some history => simp

/-- Recording a superseded id makes no other id accepted. -/
theorem accepts_of_recordSuperseded
    (h : (g.recordSupersededDistId who newDist).acceptsDistId dist sender = true) :
    g.acceptsDistId dist sender = true ∨ who = sender ∧ dist = newDist := by
  rw [ChatGroup.recordSupersededDistId] at h
  split at h
  · exact .inl h
  · rcases acceptsDistId_iff.mp h with hcurrent | ⟨history, hlookup, hmem⟩
    · exact .inl (acceptsDistId_iff.mpr (.inl hcurrent))
    · by_cases hwho : sender = who
      · subst hwho
        rw [AList.lookup_insert] at hlookup
        cases hlookup
        rcases List.mem_append.mp (List.mem_of_mem_drop hmem) with hmem | hmem
        · left
          cases hold : g.previousMemberDistributionIds.lookup sender with
          | none =>
            rw [hold] at hmem
            cases hmem
          | some old =>
            rw [hold] at hmem
            exact acceptsDistId_iff.mpr (.inr ⟨old, hold, hmem⟩)
        · exact .inr ⟨rfl, List.mem_singleton.mp hmem⟩
      · rw [AList.lookup_insert_ne hwho] at hlookup
        exact .inl (acceptsDistId_iff.mpr (.inr ⟨history, hlookup, hmem⟩))

/-- A new key makes its own id accepted, and no other. -/
theorem accepts_of_setMemberDistId
    (h : (g.setMemberDistId newDist who).acceptsDistId dist sender = true) :
    g.acceptsDistId dist sender = true ∨ who = sender ∧ dist = newDist := by
  -- the table of superseded ids, with the prior id of `who` in it
  obtain ⟨base, heq, hbase⟩ : ∃ base : ChatGroup,
      g.setMemberDistId newDist who =
        { base with memberDistributionIds := base.memberDistributionIds.insert who newDist } ∧
      (base.acceptsDistId dist sender = true → g.acceptsDistId dist sender = true) := by
    rw [ChatGroup.setMemberDistId]
    split
    · rename_i prior hprior
      split
      · refine ⟨_, rfl, fun hrecorded => ?_⟩
        rcases accepts_of_recordSuperseded hrecorded with hold | ⟨rfl, rfl⟩
        · exact hold
        · exact acceptsDistId_iff.mpr (.inl hprior)
      · exact ⟨g, rfl, id⟩
    · exact ⟨g, rfl, id⟩
  rw [heq] at h
  rcases acceptsDistId_iff.mp h with hcurrent | hhistory
  · by_cases hwho : sender = who
    · subst hwho
      rw [AList.lookup_insert] at hcurrent
      exact .inr ⟨rfl, (Option.some.inj hcurrent).symm⟩
    · rw [AList.lookup_insert_ne hwho] at hcurrent
      exact .inl (hbase (acceptsDistId_iff.mpr (.inl hcurrent)))
  · exact .inl (hbase (acceptsDistId_iff.mpr (.inr hhistory)))

/-- Forgetting the ids of a member. -/
theorem accepts_of_erase {members : List GroupMember} {recipients : Finset Bytes}
    (h : ({ g with
      members := members
      memberDistributionIds := g.memberDistributionIds.erase who
      previousMemberDistributionIds := g.previousMemberDistributionIds.erase who
      mySkdmRecipients := recipients } : ChatGroup).acceptsDistId dist sender = true) :
    g.acceptsDistId dist sender = true := by
  by_cases hwho : sender = who
  · subst hwho
    rcases acceptsDistId_iff.mp h with hcurrent | ⟨history, hlookup, -⟩
    · rw [AList.lookup_erase] at hcurrent
      cases hcurrent
    · rw [AList.lookup_erase] at hlookup
      cases hlookup
  · rcases acceptsDistId_iff.mp h with hcurrent | ⟨history, hlookup, hmem⟩
    · rw [AList.lookup_erase_ne hwho] at hcurrent
      exact acceptsDistId_iff.mpr (.inl hcurrent)
    · rw [AList.lookup_erase_ne hwho] at hlookup
      exact acceptsDistId_iff.mpr (.inr ⟨history, hlookup, hmem⟩)

/-- Of the ops that take effect, only `RotateSenderKey` makes an id accepted. -/
theorem Lands.accepts {d : Bytes} (h : ChatGroup.Lands env op d g g')
    (haccepts : g'.acceptsDistId dist sender = true) :
    g.acceptsDistId dist sender = true ∨
      op.kind = .rotateSenderKey dist ∧ op.operatorIdentity = sender := by
  obtain ⟨g₁, hmutate, rfl⟩ := h.mutated
  have haccepts₁ : g₁.acceptsDistId dist sender = true := haccepts
  cases ChatGroup.mutate_effect hmutate with
  | readd => exact .inl (accepts_of_erase haccepts₁)
  | remove => exact .inl (accepts_of_erase haccepts₁)
  | add | rename | promote | demote => exact .inl haccepts₁
  | rotate kind =>
    rcases accepts_of_setMemberDistId haccepts₁ with hold | ⟨rfl, rfl⟩
    · exact .inl hold
    · exact .inr ⟨kind, rfl⟩

/-- After a call of `apply`, an id is accepted that was so before, or that a rotation of
the call brought. -/
theorem accepts_of_apply {outcome : ApplyOutcome} {sx sx' : ApplySideEffects}
    (h : ChatGroup.apply env op g sx = some (outcome, g', sx'))
    (haccepts : g'.acceptsDistId dist sender = true) :
    g.acceptsDistId dist sender = true ∨
      ∃ x, g.MayLand op x ∧ x.kind = .rotateSenderKey dist ∧ x.operatorIdentity = sender := by
  refine ChatGroup.apply_invariant
    (fun k => k.acceptsDistId dist sender = true → g.acceptsDistId dist sender = true ∨
      ∃ x, g.MayLand op x ∧ x.kind = .rotateSenderKey dist ∧ x.operatorIdentity = sender)
    h (fun _ _ hk => hk) ?_ .inl haccepts
  intro x bytes k k' hx hlands hk haccepts'
  rcases Lands.accepts hlands haccepts' with hbefore | ⟨hkind, hwho⟩
  · exact hk hbefore
  · exact .inr ⟨x, hx, hkind, hwho⟩

/-- A group that was just created or bootstrapped accepts no id. -/
theorem FreshGroup.accepts_none (h : FreshGroup env g) : g.acceptsDistId dist sender = false := by
  have htables : g.memberDistributionIds = ∅ ∧ g.previousMemberDistributionIds = ∅ := by
    rcases h with ⟨op, bytes, h⟩ | ⟨snapshot, me, h⟩
    · rw [ChatGroup.create] at h
      split at h
      · repeat
          split at h
          · cases h
        cases h
        exact ⟨rfl, rfl⟩
      · cases h
    · rw [GroupBootstrap.intoChatGroup] at h
      split at h
      · cases h
      · cases h
        exact ⟨rfl, rfl⟩
  rw [ChatGroup.acceptsDistId, htables.1, htables.2]
  rfl

/-! ## The invariant -/

/-- An id under which a ciphertext passed is accepted by no other group, and passed for
no other group. -/
structure Confined (s : GroupsClient) : Prop where
  accepted : ∀ p ∈ s.passed, ∀ g ∈ s.groups, g.acceptsDistId p.dist p.sender = true →
    g.id = p.groupId
  passed : ∀ p ∈ s.passed, ∀ q ∈ s.passed, p.sender = q.sender → p.dist = q.dist →
    p.groupId = q.groupId

variable {s s' : GroupsClient}

/-- A step that changes the groups only. -/
theorem Confined.groups (h : Confined s) {groups : List ChatGroup}
    (hnew : ∀ p ∈ s.passed, ∀ x ∈ groups, x.acceptsDistId p.dist p.sender = true →
      (∃ g ∈ s.groups, g.id = x.id ∧ g.acceptsDistId p.dist p.sender = true) ∨
        x.id = p.groupId) : Confined { s with groups := groups } where
  accepted := by
    intro p hp x hx haccepts
    rcases hnew p hp x hx haccepts with ⟨g, hg, hid, hbefore⟩ | hid
    · exact hid ▸ h.accepted p hp g hg hbefore
    · exact hid
  passed := h.passed

theorem find?_id {groups : List ChatGroup} {groupId : Bytes}
    (h : groups.find? (fun g => g.id = groupId) = some g) : g ∈ groups ∧ g.id = groupId :=
  ⟨List.mem_of_find?_eq_some h, by simpa using List.find?_some h⟩

/-- Another group that accepts the id is a collision. -/
theorem collides_of_accepts {groups : List ChatGroup} {groupId : Bytes} (hg : g ∈ groups)
    (hid : g.id ≠ groupId) (haccepts : g.acceptsDistId dist sender = true) :
    ChatStore.distributionIdCollidesAcrossGroups groups groupId sender dist = true := by
  refine List.any_eq_true.mpr ⟨g, hg, ?_⟩
  rw [Bool.and_eq_true]
  exact ⟨decide_eq_true hid, haccepts⟩

theorem Confined.keyDistribution (h : Confined s) {groupId : Bytes}
    (hok : NoReuse s (.keyDistribution groupId sender dist)) :
    Confined (s.handleGroupKeyDistribution groupId sender dist) := by
  rw [GroupsClient.handleGroupKeyDistribution]
  split
  · exact h
  · rename_i g hfind
    obtain ⟨hmem, hid⟩ := find?_id hfind
    split
    · exact h
    · split
      · exact h
      · rename_i hfree
        refine h.groups fun p hp x hx haccepts => ?_
        rcases mem_setFirst hx with rfl | hx
        · have hinstalled : (g.setMemberDistId dist sender).acceptsDistId p.dist p.sender = true :=
            haccepts
          have hidx : (g.installKey dist sender).id = g.id := by
            obtain ⟨prev, hprev⟩ := ChatGroup.setMemberDistId_eq g dist sender
            rw [ChatGroup.installKey, hprev]
          rcases accepts_of_setMemberDistId hinstalled with hbefore | ⟨hsender, hdist⟩
          · exact .inl ⟨g, hmem, hidx.symm, hbefore⟩
          · right
            by_contra hother
            have hne : p.groupId ≠ groupId := by
              intro heq
              exact hother (hidx.trans (hid.trans heq.symm))
            obtain ⟨k, hk, hkid, hkaccepts⟩ := hok p hp hsender.symm hdist hne
            exact hfree (collides_of_accepts hk (hkid ▸ hne) hkaccepts)
        · exact .inl ⟨x, hx, rfl, haccepts⟩

theorem Confined.groupChat (h : Confined s) {groupId : Bytes} {distId : Option UUID} :
    Confined (s.handleGroupChat groupId sender distId) := by
  cases distId with
  | none => exact h
  | some dist =>
    rw [GroupsClient.handleGroupChat]
    split
    · rename_i hpasses
      rw [passesGates] at hpasses
      split at hpasses
      · cases hpasses
      · rename_i g hfind
        obtain ⟨hmem, hid⟩ := find?_id hfind
        rw [Bool.and_eq_true, Option.any_some, Bool.and_eq_true] at hpasses
        obtain ⟨-, haccepts, hfree⟩ := hpasses
        -- every group that accepts the id is this one
        have honly : ∀ k ∈ s.groups, k.acceptsDistId dist sender = true → k.id = groupId := by
          intro k hk hkaccepts
          by_contra hne
          rw [collides_of_accepts hk hne hkaccepts] at hfree
          cases hfree
        have hold : ∀ p ∈ s.passed, p.sender = sender → p.dist = dist → p.groupId = groupId := by
          rintro p hp rfl rfl
          exact (h.accepted p hp g hmem haccepts).symm.trans hid
        constructor
        · intro p hp k hk hkaccepts
          rcases List.mem_append.mp hp with hp | hp
          · exact h.accepted p hp k hk hkaccepts
          · rw [List.mem_singleton.mp hp] at hkaccepts ⊢
            exact honly k hk hkaccepts
        · intro p hp q hq hsender hdist
          rcases List.mem_append.mp hp with hp | hp
          · rcases List.mem_append.mp hq with hq | hq
            · exact h.passed p hp q hq hsender hdist
            · rw [List.mem_singleton.mp hq] at hsender hdist ⊢
              exact hold p hp hsender hdist
          · rw [List.mem_singleton.mp hp] at hsender hdist ⊢
            rcases List.mem_append.mp hq with hq | hq
            · exact (hold q hq hsender.symm hdist.symm).symm
            · rw [List.mem_singleton.mp hq]
    · exact h

/-- A step without reuse keeps the invariant. -/
theorem Confined.step {e : ClientEvent} (h : Confined s) (hok : NoReuse s e)
    (hstep : GroupsClient.Step env me s e s') : Confined s' := by
  cases hstep with
  | @hold g fresh =>
    refine h.groups fun p _ x hx haccepts => ?_
    rcases List.mem_append.mp hx with hx | hx
    · exact .inl ⟨x, hx, rfl, haccepts⟩
    · rw [List.mem_singleton.mp hx, fresh.accepts_none] at haccepts
      cases haccepts
  | keyDistribution => exact h.keyDistribution hok
  | @groupOp op g g' outcome sx found applied =>
    obtain ⟨hmem, hid⟩ := find?_id found
    have hidg : g'.id = g.id := ChatGroup.apply_id applied
    refine h.groups fun p hp x hx haccepts => ?_
    rcases mem_setFirst hx with rfl | hx
    · rcases accepts_of_apply applied haccepts with hbefore | ⟨y, hy, hkind, hwho⟩
      · exact .inl ⟨g, hmem, hidg.symm, hbefore⟩
      · exact .inr (hidg.trans (hok g found y hy p.dist hkind p hp hwho.symm rfl).symm)
    · exact .inl ⟨x, hx, rfl, haccepts⟩
  | groupChat => exact h.groupChat
  | leave => exact h.groups fun p _ x hx haccepts => .inl ⟨x, List.mem_of_mem_eraseP hx, rfl, haccepts⟩
  | relaunch =>
    refine h.groups fun p _ x hx haccepts => ?_
    obtain ⟨g, hg, rfl⟩ := List.mem_map.mp hx
    refine .inl ⟨g, hg, rfl, acceptsDistId_iff.mpr (.inl ?_)⟩
    rcases acceptsDistId_iff.mp haccepts with hcurrent | ⟨history, hlookup, -⟩
    · exact hcurrent
    · cases hlookup

/-- One `(sender, id)` passes the gates for one group only, in every run without reuse. -/
theorem no_cross_group_splice
    (hrun : Reach (GroupsClient.Step env me) NoReuse GroupsClient.empty s) :
    ∀ p ∈ s.passed, ∀ q ∈ s.passed, p.sender = q.sender → p.dist = q.dist →
      p.groupId = q.groupId := by
  have hstart : Confined GroupsClient.empty := ⟨nofun, nofun⟩
  exact (hrun.invariant Confined (fun h hok hstep => h.step hok hstep) hstart).passed

/-! ## Runs on two groups -/

/-- A second group of peers 1 and 2. -/
def otherGroup : ChatGroup :=
  (ChatGroup.create sampleEnv { sampleCreate [1, 2] with groupId := List.replicate groupIdSize 8 }
    (sampleCreate [1, 2]).wire).get (by decide +kernel)

/-- A distribution id made of one byte value. -/
def sampleDist (b : UInt8) : UUID := ⟨List.replicate 16 b, List.length_replicate⟩

/-- Peer 2 holds both groups. -/
def twoGroups : GroupsClient := ⟨[sampleGroup, otherGroup], []⟩

theorem reaches_twoGroups {ok : GroupsClient → ClientEvent → Prop}
    (hok : ∀ s g, ok s (.hold g)) :
    Reach (GroupsClient.Step sampleEnv (some (samplePeer 2))) ok GroupsClient.empty twoGroups := by
  have hsample : FreshGroup sampleEnv sampleGroup := .inl ⟨_, _, (Option.some_get _).symm⟩
  have hother : FreshGroup sampleEnv otherGroup := .inl ⟨_, _, (Option.some_get _).symm⟩
  exact (Reach.refl.snoc (.hold hsample) (hok _ _)).snoc (.hold hother) (hok _ _)

/-- Peer 1's key for the first group, and a message under it. -/
def oneMessage : GroupsClient :=
  (twoGroups.handleGroupKeyDistribution sampleGroup.id (samplePeer 1) (sampleDist 1)).handleGroupChat
    sampleGroup.id (samplePeer 1) (some (sampleDist 1))

theorem oneMessage_passed : oneMessage.passed = [⟨sampleGroup.id, samplePeer 1, sampleDist 1⟩] := by
  decide +kernel

/-- While the first group accepts the id, the key is refused in the second. -/
theorem reused_key_refused :
    ∃ s, Reach (GroupsClient.Step sampleEnv (some (samplePeer 2))) NoReuse GroupsClient.empty s ∧
      s.passed.length = 1 ∧
      ∀ p ∈ s.passed, ∀ q ∈ s.passed, p.sender = q.sender → p.dist = q.dist →
        p.groupId = q.groupId := by
  have hone : Reach (GroupsClient.Step sampleEnv (some (samplePeer 2))) NoReuse GroupsClient.empty oneMessage :=
    ((reaches_twoGroups (fun _ _ => trivial)).snoc (.keyDistribution _ _ _) nofun).snoc
      (.groupChat _ _ _) trivial
  have hok : NoReuse oneMessage
      (.keyDistribution otherGroup.id (samplePeer 1) (sampleDist 1)) := by
    intro p hp _ _ _
    rw [oneMessage_passed] at hp
    rw [List.mem_singleton.mp hp]
    decide +kernel
  have hrun := (hone.snoc (.keyDistribution _ _ _) hok).snoc
    (.groupChat otherGroup.id (samplePeer 1) (some (sampleDist 1))) trivial
  exact ⟨_, hrun, by decide +kernel, no_cross_group_splice hrun⟩

/-- Peer 1 sends the first group another key, peer 2 relaunches, and peer 1 sends the
first key again, for the second group: a message under it passes there too. -/
theorem forgotten_id_spliced :
    ∃ s, Reach (GroupsClient.Step sampleEnv (some (samplePeer 2))) (fun _ _ => True) GroupsClient.empty s ∧
      ∃ p ∈ s.passed, ∃ q ∈ s.passed, p.sender = q.sender ∧ p.dist = q.dist ∧
        p.groupId ≠ q.groupId := by
  have hone : Reach (GroupsClient.Step sampleEnv (some (samplePeer 2))) (fun _ _ => True) GroupsClient.empty
      oneMessage :=
    ((reaches_twoGroups (fun _ _ => trivial)).snoc (.keyDistribution _ _ _) trivial).snoc
      (.groupChat _ _ _) trivial
  have hrotated := hone.snoc
    (.keyDistribution sampleGroup.id (samplePeer 1) (sampleDist 2)) trivial
  have hreused := (hrotated.snoc .relaunch trivial).snoc
    (.keyDistribution otherGroup.id (samplePeer 1) (sampleDist 1)) trivial
  have hrun := hreused.snoc
    (.groupChat otherGroup.id (samplePeer 1) (some (sampleDist 1))) trivial
  exact ⟨_, hrun, by decide +kernel⟩

end Pizzini.Group
