import Pizzini.Group.RemovedPeers
import Pizzini.Group.Traps

/-!
# Runs that do not trap

`no_group_frame_traps` says how far the numbers that arrive have to stay from the ends
of their ranges for no call of a run to trap. `snapshot_traps` are two frames that do
not: an invitation of a paired contact whose timestamp has the top bit set, which takes
the device down before the group is stored, and one at the last epoch, which takes it
down with the next signed op.
-/

namespace Pizzini.Group

open Wire ChatGroup ChatStore

variable {env : GroupEnv} {amb : Ambient} {s : ChatStore} {g g' : ChatGroup}

/-! ## Calls -/

/-- The frame of a call keeps clear of the ends, and so does the group of an op of the user. -/
def Call.Clear (env : GroupEnv) (s : ChatStore) : Call → Prop
  | .receive _ ⟨_, .groupOp, body⟩ =>
    ∀ op, GroupOp.decode body = some op → op.verifySignature env = true → op.Clear
  | .receive _ ⟨_, .groupBootstrap, body⟩ =>
    ∀ id bytes b, splitGroupId body = some (id, bytes) → GroupBootstrap.decode bytes = some b →
      b.verifySignature env = true → b.Clear
  | .inviteToGroup groupId _ | .removeFromGroup groupId _ | .renameGroup groupId _
  | .promoteToAdmin groupId _ | .demoteFromAdmin groupId _ | .leaveGroup groupId
  | .rotateMyGroupChain groupId | .sendGroupMessage groupId _ | .sendGroupAttachment groupId _ _ =>
    ∀ g, s.findGroup groupId = some g → g.currentEpoch.toNat + 3 < 2 ^ 64
  | .receive _ ⟨_, .groupKeyDistribution, _⟩ | .createGroup _ _ _ | .acceptGroupInvitation _
  | .declineGroupInvitation _ | .resendMyKeys _ | .shipPreparedGroupAttachment _ => True

/-- What no call traps under: the clock is not at the end of time, no group has more rows than
`UInt32` counts, and the numbers that arrive keep clear of the ends of their ranges. -/
structure Clear (env : GroupEnv) (s : ChatStore) (amb : Ambient) (call : Call) : Prop where
  now : amb.now.toNat < 2 ^ 63 - 512
  rotateNow : amb.rotateNow.toNat < 2 ^ 63 - 512
  load : ∀ g ∈ s.groups, g.load + 2 ≤ 2 ^ 32
  call : call.Clear env s

theorem perform_returns {call : Call} (hs : AllTame s.groups) (hclear : Clear env s amb call) :
    Returns (call.perform env amb s) := by
  have hnow := storable_iff.mpr hclear.now
  have hclock := storable_iff.mpr hclear.rotateNow
  have hspare : ∀ {groupId : Bytes},
      (∀ g, s.findGroup groupId = some g → g.currentEpoch.toNat + 3 < 2 ^ 64) →
      ∀ g, s.findGroup groupId = some g → Spare 2 g := by
    intro groupId hearly g hfind
    have hepoch := hearly g hfind
    exact ⟨hs.found hfind, by rw [lastEpoch]; omega,
      hclear.load g (List.mem_of_find?_eq_some hfind)⟩
  have hcall := hclear.call
  cases call with
  | receive sender frame =>
    obtain ⟨recipient, kind, body⟩ := frame
    cases kind with
    | groupOp => exact handleGroupOp_returns sender hs hclear.load hnow hclock hcall
    | groupBootstrap => exact handleGroupBootstrap_returns sender hs hcall
    | groupKeyDistribution => exact handleGroupKeyDistribution_returns env body sender hs hnow hclock
  | createGroup groupId name contacts => exact createGroup_returns env groupId name contacts hs hnow
  | inviteToGroup groupId contact =>
    exact inviteToGroup_returns env hs hclock (hspare hcall) hnow contact
  | removeFromGroup groupId peer =>
    exact removeFromGroup_returns env hs hclock (hspare hcall) hnow peer
  | renameGroup groupId newName =>
    exact renameGroup_returns env hs hclock (hspare hcall) hnow newName
  | promoteToAdmin groupId peer | demoteFromAdmin groupId peer =>
    exact signAndBroadcastRoleOp_returns env hs hclock (hspare hcall) hnow peer _
  | acceptGroupInvitation groupId => exact returns_some (acceptGroupInvitation_tame amb groupId hs)
  | declineGroupInvitation groupId =>
    refine returns_some ?_
    rw [declineGroupInvitation]
    split
    · split
      · exact fun g hg => hs g (List.mem_of_mem_eraseP hg)
      · exact hs
    · exact hs
  | leaveGroup groupId => exact leaveGroup_returns env hs hclock (hspare hcall)
  | resendMyKeys groupId => exact returns_some (resendMyKeys_tame groupId hs)
  | rotateMyGroupChain groupId =>
    exact rotate_returns env hs hclock fun g hg => (hspare hcall g hg).mono (by decide)
  | sendGroupMessage groupId text =>
    exact beginGroupMessage_returns env hs hclock (hspare hcall) text
  | sendGroupAttachment groupId safeName blocked =>
    exact beginGroupAttachment_returns env hs hclock (hspare hcall) safeName blocked
  | shipPreparedGroupAttachment groupId => exact returns_some (beginGroupChunks_tame groupId hs)

/-! ## Runs -/

/-- One event. The `created_at` that a relaunch reads was bound when the group came in. -/
def Client.DatedStep (env : GroupEnv) (c : Client) (e : Event) (c' : Client) : Prop :=
  c.Step env e c' ∧ ∀ groups, e = .relaunch groups → ∀ g ∈ groups,
    ∃ ms stored, bindDate (dateOfMillis ms) = some stored ∧ (g.createdAt.toNat : ℤ) = stored.toInt

/-- The calls of a run keep clear of the ends. -/
def ClearOf (env : GroupEnv) (c : Client) (e : Event) : Prop :=
  ∀ amb call, e = .call amb call → Clear env c.store amb call

theorem exists_of_mem_forall₂ {α β : Type} {R : α → β → Prop} {xs : List α} {ys : List β}
    (h : List.Forall₂ R xs ys) {y : β} (hy : y ∈ ys) : ∃ x ∈ xs, R x y := by
  induction h with
  | nil => cases hy
  | @cons x _ _ _ hpair _ ih =>
    rcases List.mem_cons.mp hy with rfl | hy
    · exact ⟨x, List.mem_cons_self, hpair⟩
    · obtain ⟨x', hx', hpair'⟩ := ih hy
      exact ⟨x', List.mem_cons_of_mem _ hx', hpair'⟩

theorem Tame.fromDisk (h : Tame g) (hdisk : FromDisk g g') (hcreated : Storable g'.createdAt) :
    Tame g' := by
  obtain ⟨-, hmembers, -, -, -, hqueue⟩ := fromDisk_fields hdisk
  obtain ⟨db, db', createdAt, -, -, rfl⟩ := hdisk
  refine ⟨?_, fun bytes hbytes => ?_, fun m hm => ?_, hcreated, h.rotated⟩
  · show g.currentEpoch.toInt64.toUInt64.toNat < lastEpoch
    rw [UInt64.toUInt64_toInt64]
    exact h.epoch
  · rw [hqueue] at hbytes
    cases hbytes
  · obtain ⟨k, hk, rfl⟩ := List.mem_map.mp (hmembers.subset hm)
    exact h.rows k hk

/-- What one event keeps. -/
theorem allTame_step {c c' : Client} {e : Event} (hc : AllTame c.store.groups)
    (hok : ClearOf env c e) (hstep : c.DatedStep env e c') : AllTame c'.store.groups := by
  obtain ⟨hstep, hdates⟩ := hstep
  cases e with
  | call amb call =>
    obtain ⟨s', frames, hperform, rfl⟩ := hstep
    obtain ⟨t, fs, hreturns, ht⟩ := perform_returns hc (hok amb call rfl)
    rw [hperform] at hreturns
    cases hreturns
    exact ht
  | bookkeeping groups =>
    obtain ⟨hpairs, rfl⟩ := hstep
    intro g' hg'
    obtain ⟨g, hg, log, count, rfl⟩ := exists_of_mem_forall₂ hpairs hg'
    have htame := hc g hg
    exact htame.keep rfl rfl htame.rows rfl htame.rotated
  | relaunch groups =>
    obtain ⟨⟨kept, hkept, hpairs⟩, rfl⟩ := hstep
    intro g' hg'
    obtain ⟨ms, stored, hbound, hvalue⟩ := hdates groups rfl g' hg'
    obtain ⟨-, -, hrange⟩ := bindDate_reloaded hbound
    obtain ⟨g, hg, hdisk⟩ := exists_of_mem_forall₂ hpairs hg'
    exact (hc g (hkept.subset hg)).fromDisk hdisk (storable_iff.mpr (by omega))
  | surroundings session readyRelays contacts =>
    cases hstep
    exact hc

/-- While what arrives keeps clear of the ends of its range, no call traps, and every group can be
stored. The ends are where they have to be: a date made of a frame's milliseconds is bound just if
it is below them, and a group at the last epoch traps on every op that is signed. -/
theorem no_group_frame_traps {c : Client}
    (hrun : Runs.Reach (Client.DatedStep env) (ClearOf env) (.fresh s) c) :
    (∀ g ∈ c.store.groups, Storable g.createdAt ∧ Storable g.lastRotatedAt) ∧
      (∀ amb call, Clear env c.store amb call → ∃ s' frames,
        call.perform env amb c.store = some (s', frames) ∧
          ∀ g ∈ s'.groups, Storable g.createdAt ∧ Storable g.lastRotatedAt) ∧
      (∀ ms, Storable ms ↔ ms.toNat < 2 ^ 63 - 512) ∧
      ∀ (g : ChatGroup) (op : GroupOp) (sx : ApplySideEffects), op.groupId = g.id →
        op.encoded = .ok op.wire → op.verifySignature env = true →
        g.currentEpoch.toNat = lastEpoch → g.apply env op sx = none := by
  have htame : AllTame c.store.groups :=
    hrun.invariant (fun c => AllTame c.store.groups) allTame_step
      fun _ hg => absurd hg List.not_mem_nil
  refine ⟨fun g hg => ⟨(htame g hg).created, (htame g hg).rotated⟩, fun amb call hclear => ?_,
    fun _ => storable_iff, fun g op sx hid hencoded hsig hlast => ?_⟩
  · obtain ⟨s', frames, hperform, hs'⟩ := perform_returns htame hclear
    exact ⟨s', frames, hperform, fun g hg => ⟨(hs' g hg).created, (hs' g hg).rotated⟩⟩
  · refine apply_trap hid hencoded hsig (nextEpoch_eq_none_iff.mpr ?_)
    rw [hlast, lastEpoch]
    norm_num

/-! ### What peer 1 can do to peer 2 -/

/-- The check that `Call.Clear` comes down to, for the calls of a sample run. -/
def ChatStore.clearCall (s : ChatStore) : Call → Bool
  | .receive _ ⟨_, .groupOp, body⟩ =>
    (GroupOp.decode body).all fun op =>
      match op.kind with
      | .create _ _ => op.timestampMillis.toNat < 2 ^ 63 - 512
      | _ => op.epoch.toNat + 2 < 2 ^ 64
  | .acceptGroupInvitation _ => s.myCard.isSome
  | _ => false

theorem clear_sample {n : UInt8} {call : Call}
    (hload : (s.groups.all fun g => g.load + 2 ≤ 2 ^ 32) = true)
    (hcall : s.clearCall call = true) : Clear env s (sampleAmbient n) call := by
  have hclock : n.toUInt64.toNat < 2 ^ 63 - 512 := by
    have hsmall := n.toNat_lt
    rw [UInt8.toNat_toUInt64]
    omega
  refine ⟨hclock, hclock, fun g hg => of_decide_eq_true (List.all_eq_true.mp hload g hg), ?_⟩
  unfold ChatStore.clearCall at hcall
  split at hcall
  · intro op hdecode _
    rw [hdecode, Option.all_some] at hcall
    rw [GroupOp.Clear]
    cases hkind : op.kind with
    | _ =>
      rw [hkind] at hcall
      exact of_decide_eq_true hcall
  · trivial
  · cases hcall

theorem dated_did {c : Client} {n : UInt8} {call : Call}
    (h : (call.perform env (sampleAmbient n) c.store).isSome = true) :
    c.DatedStep env (.call (sampleAmbient n) call) (c.did env n call) :=
  ⟨Client.step_did h, fun _ he => nomatch he⟩

/-- A snapshot of a group of peers 1 and 2, signed by peer 1. -/
def snapshotAt (currentEpoch timestampMillis : UInt64) : GroupBootstrap :=
  let members : List GroupMember :=
    [⟨samplePeer 1, "", .admin, 0, .active, some (samplePeer 1)⟩,
      ⟨samplePeer 2, "bob", .member, currentEpoch, .pendingSKDM, some (samplePeer 1)⟩]
  let unsigned : GroupBootstrap :=
    { groupId := sampleGroupId
      displayName := "trip"
      members := members
      currentEpoch := currentEpoch
      lastOpDigest := List.replicate parentDigestSize 9
      operatorIdentity := samplePeer 1
      timestampMillis := timestampMillis
      memberSetRoot := (memberSetRootOf sampleEnv members).getD []
      signature := List.replicate signatureSize 0 }
  match unsigned.encodedHeader with
  | .ok header => { unsigned with signature := sampleSignature 2 (samplePeer 1) header }
  | .error _ => unsigned

/-- It arrives. -/
def invitesFrom1 (b : GroupBootstrap) : Call :=
  .receive (samplePeer 1) ⟨samplePeer 2, .groupBootstrap, samplePayload b⟩

/-- A rename by peer 1 at some epoch. -/
def renameAt (epoch : UInt64) : GroupOp :=
  sampleSigned
    { groupId := sampleGroupId
      epoch := epoch
      parentDigest := List.replicate parentDigestSize 9
      operatorIdentity := samplePeer 1
      timestampMillis := 2000
      priorMemberSetRoot := List.replicate memberSetRootSize 0
      kind := .rename "hike"
      signature := [] }

/-- In the sample run the removal of peer 3 returns. -/
theorem no_group_frame_traps_joined :
    ∃ s' frames, (arrivesFrom1 (nextFrom1 sampleJoined (.removeMember (samplePeer 3)))).perform
        namingEnv (sampleAmbient 3) sampleJoined.store = some (s', frames) ∧
      ∀ g ∈ s'.groups, Storable g.createdAt ∧ Storable g.lastRotatedAt := by
  have hok : ∀ {c : Client} {n : UInt8} {call : Call},
      (c.store.groups.all fun g => g.load + 2 ≤ 2 ^ 32) = true → c.store.clearCall call = true →
      ClearOf namingEnv c (.call (sampleAmbient n) call) := by
    intro c n call hload hcall amb call' heq
    cases heq
    exact clear_sample hload hcall
  have hasked : Runs.Reach (Client.DatedStep namingEnv) (ClearOf namingEnv) sampleInvitee
      sampleAsked :=
    Runs.Reach.refl.snoc (dated_did (by decide +kernel)) (hok (by decide +kernel) (by decide +kernel))
  have hjoined : Runs.Reach (Client.DatedStep namingEnv) (ClearOf namingEnv) sampleInvitee
      sampleJoined :=
    hasked.snoc (dated_did (by decide +kernel)) (hok (by decide +kernel) (by decide +kernel))
  exact (no_group_frame_traps hjoined).2.1 _ _ (clear_sample (by decide +kernel) (by decide +kernel))

/-- Without the condition two frames of a paired contact stop the app: an invitation from the end
of time cannot be stored, and one at the last epoch traps on the next signed op. -/
theorem snapshot_traps :
    (¬ ∀ c : Client, Runs.Reach (Client.DatedStep sampleEnv) (fun _ _ => True) sampleInvitee c →
      ∀ g ∈ c.store.groups, Storable g.createdAt ∧ Storable g.lastRotatedAt) ∧
    ¬ ∀ c : Client, Runs.Reach (Client.DatedStep sampleEnv) (fun _ _ => True) sampleInvitee c →
      ∀ (amb : Ambient) (call : Call), (call.perform sampleEnv amb c.store).isSome = true := by
  constructor
  · intro hall
    have hrun : Runs.Reach (Client.DatedStep sampleEnv) (fun _ _ => True) sampleInvitee
        (sampleInvitee.did sampleEnv 1 (invitesFrom1 (snapshotAt 3 18446744073709551615))) :=
      Runs.Reach.refl.snoc (dated_did (by decide +kernel)) trivial
    have hgroup : ((sampleInvitee.did sampleEnv 1
        (invitesFrom1 (snapshotAt 3 18446744073709551615))).store.groups.any fun g =>
          g.createdAt = 18446744073709551615) = true := by
      decide +kernel
    obtain ⟨g, hg, hdate⟩ := List.any_eq_true.mp hgroup
    have hstorable := storable_iff.mp (hall _ hrun g hg).1
    rw [of_decide_eq_true hdate] at hstorable
    exact absurd hstorable (by decide)
  · intro hall
    have hrun : Runs.Reach (Client.DatedStep sampleEnv) (fun _ _ => True) sampleInvitee
        (sampleInvitee.did sampleEnv 1 (invitesFrom1 (snapshotAt 18446744073709551615 1000))) :=
      Runs.Reach.refl.snoc (dated_did (by decide +kernel)) trivial
    have htrap := hall _ hrun (sampleAmbient 2) (arrivesFrom1 (renameAt 1))
    revert htrap
    decide +kernel

end Pizzini.Group
