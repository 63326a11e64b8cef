import Pizzini.Group.SampleEnv
import Pizzini.Group.SideEffects

/-!
# What an op that is not applied leaves behind

`apply` and the replay of parked ops share one group and one record of side
effects. An op that is refused, at either place, leaves the group as it was and
the record's triggers too: the three entries on which the hooks rotate a chain,
clear it, or send it (`apply_leaves`, `applyAlreadyParked_cases`). An op that is
parked changes the queue only.

So the group and the triggers after a call come from the ops that were applied,
in their order: `AppliedRun` is that run, one mutation and one step of the chain
for each op (`replayPending_run`), and `AppliedRun.pulled` names the op that has
pulled a trigger.
-/

namespace Pizzini.Group

open Wire ChatGroup

variable {env : GroupEnv} {op : GroupOp} {g g' : ChatGroup} {sx sx' : ApplySideEffects}

/-! ## Triggers -/

/-- What the hooks act on: the rotation of the own chain, its clearing, and the
peers that it is sent to. -/
structure Triggers where
  newActiveMembers : List Bytes
  requestSelfRotation : Bool
  requestSelfChainClear : Bool
deriving DecidableEq

def ApplySideEffects.triggers (sx : ApplySideEffects) : Triggers :=
  ⟨sx.newActiveMembers, sx.requestSelfRotation, sx.requestSelfChainClear⟩

theorem mutateAddMember_triggers {peerId : Bytes} {role : GroupRole} {name : String}
    {addedBy : Bytes} {epoch : UInt64} {reason : String} :
    (g.mutateAddMember peerId role name addedBy epoch sx).1 = .rejected reason →
      (g.mutateAddMember peerId role name addedBy epoch sx).2.2 = sx := by
  unfold mutateAddMember
  split
  · exact fun _ => rfl
  dsimp only
  split
  · split
    · exact fun _ => rfl
    split
    · exact fun _ => rfl
    · rintro ⟨⟩
  · split
    · exact fun _ => rfl
    · rintro ⟨⟩

theorem mutateRemoveMember_triggers {peerId : Bytes} {reason : String} :
    (g.mutateRemoveMember peerId sx).1 = .rejected reason →
      (g.mutateRemoveMember peerId sx).2.2 = sx := by
  unfold mutateRemoveMember
  split
  · exact fun _ => rfl
  split
  · exact fun _ => rfl
  dsimp only
  split
  · split
    · rintro ⟨⟩
    · split <;> rintro ⟨⟩
  · rintro ⟨⟩

/-- A rejected mutation pulls no trigger; a role change that is rejected has set
`rolesChanged`, which is none. -/
theorem executeMutation_triggers {reason : String}
    (h : (g.executeMutation op sx).1 = .rejected reason) :
    (g.executeMutation op sx).2.2.triggers = sx.triggers := by
  unfold executeMutation at h ⊢
  cases hkind : op.kind with
  | create | rename | rotateSenderKey | promoteAdmin | demoteAdmin => rfl
  | addMember peerId role name =>
    rw [hkind] at h
    exact congrArg _ (mutateAddMember_triggers h)
  | removeMember peerId =>
    rw [hkind] at h
    exact congrArg _ (mutateRemoveMember_triggers h)

/-! ## Applied ops -/

/-- `op` was applied: at the next epoch, past every check, and with a mutation
that went through. -/
structure Applies (env : GroupEnv) (op : GroupOp) (g : ChatGroup) (sx : ApplySideEffects)
    (g' : ChatGroup) (sx' : ApplySideEffects) : Prop where
  signed : op.verifySignature env = true
  next : nextEpoch g.currentEpoch = some op.epoch
  parent : op.parentDigest = g.lastOpDigest
  authorised : g.isAuthorised op.operatorIdentity op.kind = true
  root : g.memberSetRoot env = some op.priorMemberSetRoot
  mutated : ∃ g₁ opDigest, g.executeMutation op sx = (.ok, g₁, sx') ∧
    g' = g₁.advance op.epoch opDigest

/-- Ops that were applied one after the other, with the group and the triggers
before the first and after the last. -/
inductive AppliedRun (env : GroupEnv) :
    List GroupOp → ChatGroup × Triggers → ChatGroup × Triggers → Prop where
  | nil (s : ChatGroup × Triggers) : AppliedRun env [] s s
  | cons {op : GroupOp} {ops : List GroupOp} {g g₁ : ChatGroup} {sx sx₁ : ApplySideEffects}
      {s : ChatGroup × Triggers} (happlies : Applies env op g sx g₁ sx₁)
      (hrest : AppliedRun env ops (g₁, sx₁.triggers) s) :
      AppliedRun env (op :: ops) (g, sx.triggers) s

/-- A trigger that is pulled after `ops`, and was not before, was pulled by one of them. -/
structure Pulled (ops : List GroupOp) (t t' : Triggers) : Prop where
  joined : ∀ peer ∈ t'.newActiveMembers, peer ∈ t.newActiveMembers ∨
    ∃ op ∈ ops, ∃ role name, op.kind = .addMember peer role name
  rotation : t'.requestSelfRotation = true → t.requestSelfRotation = true ∨
    ∃ op ∈ ops, ∃ peer, op.kind = .removeMember peer
  clear : t'.requestSelfChainClear = true → t.requestSelfChainClear = true ∨
    ∃ op ∈ ops, ∃ peer, op.kind = .removeMember peer

namespace Pulled

variable {ops : List GroupOp} {t t₁ t' : Triggers}

theorem refl (ops : List GroupOp) (t : Triggers) : Pulled ops t t where
  joined _ := .inl
  rotation := .inl
  clear := .inl

/-- What the first op or the others have done, one of the ops has done. -/
theorem chain {P : GroupOp → Prop} {before between after : Prop}
    (h₁ : between → before ∨ ∃ x ∈ [op], P x) (h₂ : after → between ∨ ∃ x ∈ ops, P x)
    (h : after) : before ∨ ∃ x ∈ op :: ops, P x := by
  rcases h₂ h with hbetween | ⟨x, hx, hPx⟩
  · rcases h₁ hbetween with hbefore | ⟨x, hx, hPx⟩
    · exact .inl hbefore
    · exact .inr ⟨x, List.mem_cons.mpr (.inl (List.mem_singleton.mp hx)), hPx⟩
  · exact .inr ⟨x, List.mem_cons_of_mem _ hx, hPx⟩

theorem cons (h₁ : Pulled [op] t t₁) (h₂ : Pulled ops t₁ t') : Pulled (op :: ops) t t' where
  joined peer := chain (h₁.joined peer) (h₂.joined peer)
  rotation := chain h₁.rotation h₂.rotation
  clear := chain h₁.clear h₂.clear

end Pulled

/-- Only an addition and a removal pull a trigger. -/
theorem executeMutation_pulled (op : GroupOp) (g : ChatGroup) (sx : ApplySideEffects) :
    Pulled [op] sx.triggers (g.executeMutation op sx).2.2.triggers := by
  unfold executeMutation
  cases hkind : op.kind with
  | create | rename | rotateSenderKey | promoteAdmin | demoteAdmin => exact .refl _ _
  | addMember peerId role name =>
    have hjoined : Pulled [op] sx.triggers (sx.joined peerId).triggers := by
      rw [ApplySideEffects.joined]
      split
      · refine ⟨fun peer hpeer => ?_, .inl, .inl⟩
        rcases List.mem_insert_iff.mp hpeer with rfl | hbefore
        · exact .inr ⟨op, List.mem_singleton_self op, role, name, hkind⟩
        · exact .inl hbefore
      · exact .refl _ _
    dsimp only [mutateAddMember]
    split
    · exact .refl _ _
    split
    · split
      · exact .refl _ _
      split
      · exact .refl _ _
      · exact hjoined
    · split
      · exact .refl _ _
      · exact hjoined
  | removeMember peerId =>
    have hself : ∃ x ∈ [op], ∃ peer, x.kind = .removeMember peer :=
      ⟨op, List.mem_singleton_self op, peerId, hkind⟩
    dsimp only [mutateRemoveMember]
    split
    · exact .refl _ _
    split
    · exact .refl _ _
    split
    · split
      · exact ⟨fun _ => .inl, .inl, fun _ => .inr hself⟩
      split
      · exact ⟨fun _ => .inl, fun _ => .inr hself, .inl⟩
      · exact .refl _ _
    · exact .refl _ _

theorem AppliedRun.pulled {ops : List GroupOp} {s s' : ChatGroup × Triggers}
    (h : AppliedRun env ops s s') : Pulled ops s.2 s'.2 := by
  induction h with
  | nil s => exact .refl _ _
  | @cons op _ g _ sx _ _ happlies _ ih =>
    obtain ⟨g₁, opDigest, hexec, -⟩ := happlies.mutated
    have hstep := executeMutation_pulled op g sx
    rw [hexec] at hstep
    exact hstep.cons ih

/-! ## Parked ops -/

/-- A parked op that is tried again is applied, or is refused and leaves the
group and the triggers. -/
theorem applyAlreadyParked_cases {bytes : Bytes} {outcome : ApplyOutcome}
    (h : applyAlreadyParked env op bytes g sx = some (outcome, g', sx')) :
    outcome = .applied op.epoch ∧ Applies env op g sx g' sx' ∨
      (∀ e, outcome ≠ .applied e) ∧ g' = g ∧ sx'.triggers = sx.triggers := by
  rw [applyAlreadyParked] at h
  split at h
  · cases h
  next expected hnext =>
  split at h
  · cases h
    exact .inr ⟨by rintro e ⟨⟩, rfl, rfl⟩
  next hepoch =>
  dsimp only at h
  split at h
  · cases h
    exact .inr ⟨by rintro e ⟨⟩, rfl, rfl⟩
  next hsig =>
  split at h
  · cases h
    exact .inr ⟨by rintro e ⟨⟩, rfl, rfl⟩
  next hparent =>
  split at h
  · cases h
    exact .inr ⟨by rintro e ⟨⟩, rfl, rfl⟩
  next hauth =>
  split at h
  · cases h
  · next hmismatch =>
    obtain ⟨_, _, rfl⟩ := memberSetRootMismatch_eq hmismatch
    cases h
    exact .inr ⟨by rintro e ⟨⟩, rfl, rfl⟩
  next hroot =>
  split at h
  · next hexec =>
    cases h
    refine .inl ⟨rfl, not_not.mp hsig, ?_, not_not.mp hparent, not_not.mp hauth,
      memberSetRootMismatch_none_iff.mp hroot, _, _, hexec, rfl⟩
    rw [hnext, not_not.mp hepoch]
  · next reason _ _ hexec =>
    cases h
    have hrejected : (g.executeMutation op sx).1 = .rejected reason := by rw [hexec]
    have hgroup := executeMutation_rejected hrejected
    have htriggers := executeMutation_triggers hrejected
    rw [hexec] at hgroup htriggers
    exact .inr ⟨by rintro e ⟨⟩, hgroup, htriggers⟩

/-- The replay loop changes the group and the triggers by the ops it applies,
and by nothing else. -/
theorem replayLoop_run {entries : List (GroupOp × Bytes)} {kept : List Bytes}
    (h : replayLoop env entries g sx = some (kept, g', sx')) :
    ∃ landed, landed.Sublist (entries.map Prod.fst) ∧
      AppliedRun env landed (g, sx.triggers) (g', sx'.triggers) := by
  induction entries generalizing g sx kept with
  | nil =>
    cases h
    exact ⟨[], .slnil, .nil _⟩
  | cons e entries ih =>
    obtain ⟨op, bytes⟩ := e
    rw [replayLoop] at h
    split at h
    · obtain ⟨landed, hsub, hrun⟩ := ih h
      exact ⟨landed, hsub.cons _, hrun⟩
    split at h
    · cases h
    split at h
    · split at h
      · cases h
      · next hparked =>
        obtain ⟨landed, hsub, hrun⟩ := ih h
        obtain ⟨-, happlies⟩ | ⟨-, hgroup, htriggers⟩ := applyAlreadyParked_cases hparked
        · exact ⟨op :: landed, hsub.cons_cons _, .cons happlies hrun⟩
        · -- a known-bad op: dropped from the queue, and gone
          rw [hgroup, htriggers] at hrun
          exact ⟨landed, hsub.cons _, hrun⟩
    · obtain ⟨⟨kept₁, g₁, sx₁⟩, hloop, heq⟩ := Option.map_eq_some_iff.mp h
      cases heq
      obtain ⟨landed, hsub, hrun⟩ := ih hloop
      exact ⟨landed, hsub.cons _, hrun⟩

/-- The replay of the queue: parked ops were applied, and then the queue is set. -/
theorem replayPending_run (h : replayPending env g sx = some (g', sx')) :
    ∃ landed g₁ kept, (∀ x ∈ landed, ∃ bytes ∈ g.pendingOps, GroupOp.decode bytes = some x) ∧
      AppliedRun env landed (g, sx.triggers) (g₁, sx'.triggers) ∧ g' = g₁.withPending kept := by
  rw [replayPending] at h
  split at h
  · cases h
    exact ⟨[], g, g.pendingOps, by simp, .nil _, rfl⟩
  · obtain ⟨⟨kept, g₁, sx₁⟩, hloop, heq⟩ := Option.map_eq_some_iff.mp h
    cases heq
    obtain ⟨landed, hsub, hrun⟩ := replayLoop_run hloop
    refine ⟨landed, g₁, kept, fun x hx => ?_, hrun, rfl⟩
    obtain ⟨⟨y, bytes⟩, hentry, rfl⟩ := List.mem_map.mp (hsub.subset hx)
    obtain ⟨parked, hparked, hdecoded⟩ :=
      List.mem_filterMap.mp ((List.mem_insertionSort _).mp hentry)
    obtain ⟨z, hz, heq⟩ := Option.map_eq_some_iff.mp hdecoded
    cases heq
    exact ⟨bytes, hparked, hz⟩

/-! ## `apply` -/

/-- The mutation that `apply` runs, without the record. -/
theorem mutate_of_executeMutation {g₁ : ChatGroup} {sx₁ : ApplySideEffects}
    (h : g.executeMutation op sx = (.ok, g₁, sx₁)) : g.mutate op = .ok g₁ := by
  obtain ⟨houtcome, hgroup⟩ := executeMutation_sx g op sx
  rw [h] at houtcome hgroup
  rw [mutate]
  cases hrun : g.executeMutation op {} with
  | mk outcome rest =>
    rw [hrun] at houtcome hgroup
    cases houtcome
    exact congrArg Except.ok hgroup.symm

/-- What each outcome says of the group and the triggers after the call. -/
def Leaves (env : GroupEnv) (op : GroupOp) (g : ChatGroup) (sx : ApplySideEffects)
    (g' : ChatGroup) (sx' : ApplySideEffects) : ApplyOutcome → Prop
  | .applied e =>
    e = op.epoch ∧ nextEpoch g.currentEpoch = some e ∧
      ∃ landed g₁ kept, (∀ x ∈ landed, ∃ bytes ∈ g.pendingOps, GroupOp.decode bytes = some x) ∧
        AppliedRun env (op :: landed) (g, sx.triggers) (g₁, sx'.triggers) ∧
        Pulled (op :: landed) sx.triggers sx'.triggers ∧ g' = g₁.withPending kept
  | .queued _ =>
    sx' = sx ∧ (g' = g ∨ ∃ bytes, GroupOp.decode bytes = some op ∧
      g' = g.withPending (g.pendingOps ++ [bytes]))
  | .rejectedDuplicate | .rejectedEquivocation _ | .rejectedSignature | .rejectedAuthorization
  | .rejectedMalformed _ | .rejectedMemberSetMismatch _ _ | .rejectedPreJoinHistory _ =>
    g' = g ∧ sx'.triggers = sx.triggers

/-- A refusal of `apply` leaves the group and the triggers, parking an op changes
the queue, and an op is applied at the epoch after the current one, with the
parked ops that it lets in. -/
theorem apply_leaves {outcome : ApplyOutcome}
    (h : g.apply env op sx = some (outcome, g', sx')) : Leaves env op g sx g' sx' outcome := by
  rw [ChatGroup.apply] at h
  split at h
  · cases h
    exact ⟨rfl, rfl⟩
  split at h
  · cases h
    exact ⟨rfl, rfl⟩
  next signedBytes hencoded =>
  dsimp only at h
  split at h
  · cases h
    exact ⟨rfl, rfl⟩
  next hsig =>
  split at h
  · cases h
  next expected hnext =>
  split at h
  · -- an epoch that is taken
    have hpast := Option.some.inj h
    rw [applyPast] at hpast
    split at hpast
    · cases hpast
      exact ⟨rfl, rfl⟩
    split at hpast
    · cases hpast
      exact ⟨rfl, rfl⟩
    · cases hpast
      exact ⟨rfl, rfl⟩
  next hlt =>
  split at h
  · -- an epoch that is too far ahead
    cases h
    refine ⟨rfl, ?_⟩
    rcases queuePending_cases g signedBytes with hsame | hparked
    · exact .inl hsame
    · exact .inr ⟨signedBytes, GroupOp.decode_encoded hencoded, hparked⟩
  next hgt =>
  have hepoch : op.epoch = expected := by
    rw [UInt64.lt_iff_toNat_lt] at hlt hgt
    exact UInt64.toNat_inj.mp (by omega)
  split at h
  · cases h
    exact ⟨rfl, rfl⟩
  next hparent =>
  split at h
  · cases h
    exact ⟨rfl, rfl⟩
  next hauth =>
  split at h
  · cases h
  · next hmismatch =>
    obtain ⟨_, _, rfl⟩ := memberSetRootMismatch_eq hmismatch
    cases h
    exact ⟨rfl, rfl⟩
  next hroot =>
  split at h
  · next g₁ sx₁ hexec =>
    obtain ⟨⟨g₂, sx₂⟩, hreplay, heq⟩ := Option.map_eq_some_iff.mp h
    cases heq
    have happlies : Applies env op g sx (g₁.advance op.epoch (env.hash signedBytes)) sx₁ :=
      ⟨not_not.mp hsig, hepoch ▸ hnext, not_not.mp hparent, not_not.mp hauth,
        memberSetRootMismatch_none_iff.mp hroot, g₁, _, hexec, rfl⟩
    have hpending : (g₁.advance op.epoch (env.hash signedBytes)).pendingOps = g.pendingOps := by
      obtain ⟨name, members, dist, prev, skdm, rfl⟩ :=
        (mutate_effect (mutate_of_executeMutation hexec)).frame
      rfl
    obtain ⟨landed, g₃, kept, hparked, hrun, hkept⟩ := replayPending_run hreplay
    rw [hpending] at hparked
    have hlanded := AppliedRun.cons happlies hrun
    exact ⟨rfl, hepoch ▸ hnext, landed, g₃, kept, hparked, hlanded, hlanded.pulled, hkept⟩
  · next reason _ _ hexec =>
    cases h
    have hrejected : (g.executeMutation op sx).1 = .rejected reason := by rw [hexec]
    have hgroup := executeMutation_rejected hrejected
    have htriggers := executeMutation_triggers hrejected
    rw [hexec] at hgroup htriggers
    exact ⟨hgroup, htriggers⟩

/-- An op that is not applied changes nothing: `apply` leaves what its outcome
says, and a parked op that is tried again and not applied, which drops it from
the queue, leaves the group and the triggers. -/
theorem rejected_op_changes_nothing (env : GroupEnv) (op : GroupOp) (g : ChatGroup)
    (sx : ApplySideEffects) :
    (∀ outcome g' sx', g.apply env op sx = some (outcome, g', sx') →
      Leaves env op g sx g' sx' outcome) ∧
    ∀ bytes outcome g' sx', applyAlreadyParked env op bytes g sx = some (outcome, g', sx') →
      outcome = .applied op.epoch ∧ Applies env op g sx g' sx' ∨
        (∀ e, outcome ≠ .applied e) ∧ g' = g ∧ sx'.triggers = sx.triggers :=
  ⟨fun _ _ _ => apply_leaves, fun _ _ _ _ => applyAlreadyParked_cases⟩

/-- The rename that comes before the addition it follows is parked: the queue has
grown by the op, and the record is as it was. -/
theorem rejected_op_changes_nothing_parked :
    ∃ g' sx', sampleGroup.apply sampleEnv sampleRename {} =
        some (.queued sampleRename.epoch, g', sx') ∧
      sx' = {} ∧ (g' = sampleGroup ∨ ∃ bytes, GroupOp.decode bytes = some sampleRename ∧
        g' = sampleGroup.withPending (sampleGroup.pendingOps ++ [bytes])) := by
  have hqueued : (sampleGroup.apply sampleEnv sampleRename {}).map Prod.fst =
      some (.queued sampleRename.epoch) := by
    decide +kernel
  obtain ⟨⟨outcome, g', sx'⟩, hrun, rfl⟩ := Option.map_eq_some_iff.mp hqueued
  exact ⟨g', sx', hrun,
    (rejected_op_changes_nothing sampleEnv sampleRename sampleGroup {}).1 _ _ _ hrun⟩

end Pizzini.Group
