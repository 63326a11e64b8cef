import Pizzini.Group.GroupApply

/-!
# What `apply` does to the group

The side effects that `apply` accumulates never feed back into the group or into
the outcome. This module states `apply` without them and without the queue
mechanics of a single op:

- `ChatGroup.mutate`: the domain mutation, `executeMutation` on the group alone;
- `ChatGroup.land`: an op at the next epoch, from the parent check on. It is
  what both copies of the checks in the source compute (`applyAlreadyParked_land`,
  `apply_applyStep`);
- `ChatGroup.drain`: the replay loop over sorted entries;
- `ChatGroup.applyStep`: all of `apply`.

None of them reads `pendingOps` except to park and to replay, so a group can be
followed up to its queue (`land_withPending`, `drain_withPending`).
-/

namespace Pizzini.Group

open Wire

namespace ChatGroup

variable {env : GroupEnv} {op : GroupOp} {g g' : ChatGroup} {sx : ApplySideEffects}

/-! ## Mutation without side effects -/

/-- The domain mutation of an op, or the reason it is rejected for. -/
def mutate (g : ChatGroup) (op : GroupOp) : Except String ChatGroup :=
  match g.executeMutation op {} with
  | (.ok, g', _) => .ok g'
  | (.rejected reason, _, _) => .error reason

theorem mutateAddMember_sx (g : ChatGroup) (peerId : Bytes) (role : GroupRole) (name : String)
    (addedBy : Bytes) (epoch : UInt64) (sx sx₀ : ApplySideEffects) :
    (g.mutateAddMember peerId role name addedBy epoch sx).1 =
        (g.mutateAddMember peerId role name addedBy epoch sx₀).1 ∧
      (g.mutateAddMember peerId role name addedBy epoch sx).2.1 =
        (g.mutateAddMember peerId role name addedBy epoch sx₀).2.1 := by
  unfold mutateAddMember
  split
  · exact ⟨rfl, rfl⟩
  · dsimp only
    split
    · split
      · exact ⟨rfl, rfl⟩
      · split <;> exact ⟨rfl, rfl⟩
    · split <;> exact ⟨rfl, rfl⟩

theorem mutateRemoveMember_sx (g : ChatGroup) (peerId : Bytes) (sx : ApplySideEffects) :
    (g.mutateRemoveMember peerId sx).1 = (g.mutateRemoveMember peerId {}).1 ∧
      (g.mutateRemoveMember peerId sx).2.1 = (g.mutateRemoveMember peerId {}).2.1 := by
  unfold mutateRemoveMember
  split
  · exact ⟨rfl, rfl⟩
  · split
    · exact ⟨rfl, rfl⟩
    · dsimp only
      split
      · split
        · exact ⟨rfl, rfl⟩
        · split <;> exact ⟨rfl, rfl⟩
      · exact ⟨rfl, rfl⟩

/-- Outcome and group of a mutation do not depend on the side effects. -/
theorem executeMutation_sx (g : ChatGroup) (op : GroupOp) (sx : ApplySideEffects) :
    (g.executeMutation op sx).1 = (g.executeMutation op {}).1 ∧
      (g.executeMutation op sx).2.1 = (g.executeMutation op {}).2.1 := by
  unfold executeMutation
  cases op.kind with
  | addMember peerId role name => exact mutateAddMember_sx g peerId role name _ _ sx {}
  | removeMember peerId => exact mutateRemoveMember_sx g peerId sx
  | create | rename | promoteAdmin | demoteAdmin | rotateSenderKey => exact ⟨rfl, rfl⟩

theorem mutateAddMember_rejected {peerId : Bytes} {role : GroupRole} {name : String}
    {addedBy : Bytes} {epoch : UInt64} {reason : String} :
    (g.mutateAddMember peerId role name addedBy epoch sx).1 = .rejected reason →
      (g.mutateAddMember peerId role name addedBy epoch sx).2.1 = g := by
  unfold mutateAddMember
  split
  · exact fun _ => rfl
  · dsimp only
    split
    · split
      · exact fun _ => rfl
      · split
        · exact fun _ => rfl
        · rintro ⟨⟩
    · split
      · exact fun _ => rfl
      · rintro ⟨⟩

theorem mutateRemoveMember_rejected {peerId : Bytes} {reason : String} :
    (g.mutateRemoveMember peerId sx).1 = .rejected reason →
      (g.mutateRemoveMember peerId sx).2.1 = g := by
  unfold mutateRemoveMember
  split
  · exact fun _ => rfl
  · split
    · exact fun _ => rfl
    · dsimp only
      split
      · split
        · rintro ⟨⟩
        · split <;> rintro ⟨⟩
      · rintro ⟨⟩

theorem mutatePromoteAdmin_rejected {peerId : Bytes} {reason : String} :
    (g.mutatePromoteAdmin peerId).1 = .rejected reason → (g.mutatePromoteAdmin peerId).2 = g := by
  unfold mutatePromoteAdmin
  split
  · exact fun _ => rfl
  · rintro ⟨⟩

theorem mutateDemoteAdmin_rejected {peerId : Bytes} {reason : String} :
    (g.mutateDemoteAdmin peerId).1 = .rejected reason → (g.mutateDemoteAdmin peerId).2 = g := by
  unfold mutateDemoteAdmin
  split
  · exact fun _ => rfl
  · split
    · exact fun _ => rfl
    · rintro ⟨⟩

/-- A rejected mutation leaves the group as it was. -/
theorem executeMutation_rejected {reason : String} :
    (g.executeMutation op sx).1 = .rejected reason → (g.executeMutation op sx).2.1 = g := by
  unfold executeMutation
  cases op.kind with
  | create => exact fun _ => rfl
  | rename | rotateSenderKey => rintro ⟨⟩
  | addMember peerId role name => exact mutateAddMember_rejected
  | removeMember peerId => exact mutateRemoveMember_rejected
  | promoteAdmin peerId => exact mutatePromoteAdmin_rejected
  | demoteAdmin peerId => exact mutateDemoteAdmin_rejected

/-- `executeMutation` in terms of `mutate`. -/
theorem executeMutation_eq (g : ChatGroup) (op : GroupOp) (sx : ApplySideEffects) :
    ∃ sx', g.executeMutation op sx =
      match g.mutate op with
      | .ok g' => (.ok, g', sx')
      | .error reason => (.rejected reason, g, sx') := by
  obtain ⟨houtcome, hgroup⟩ := executeMutation_sx g op sx
  refine ⟨(g.executeMutation op sx).2.2, ?_⟩
  rw [mutate]
  cases hrun : g.executeMutation op {} with
  | mk outcome rest =>
    obtain ⟨g₁, sx₁⟩ := rest
    rw [hrun] at houtcome hgroup
    cases outcome with
    | ok => exact Prod.ext houtcome (Prod.ext hgroup rfl)
    | rejected reason =>
      exact Prod.ext houtcome (Prod.ext (executeMutation_rejected houtcome) rfl)

/-- Everything a mutation can do, with what it requires. -/
inductive Effect (op : GroupOp) (g : ChatGroup) : ChatGroup → Prop where
  | readd {peerId : Bytes} {role : GroupRole} {name : String} {old : GroupMember}
      (kind : op.kind = .addMember peerId role name) (size : peerId.length = identityKeySize)
      (found : g.members.find? (fun m => m.peerId = peerId) = some old)
      (removed : old.status = .removed) (cap : g.activeMembers.length < maxMembers) :
      Effect op g
        { g with
          members := updateFirst (fun m => m.peerId = peerId)
            (fun _ => ⟨peerId, name, role, op.epoch, .pendingSKDM, some op.operatorIdentity⟩)
            g.members
          memberDistributionIds := g.memberDistributionIds.erase peerId
          previousMemberDistributionIds := g.previousMemberDistributionIds.erase peerId }
  | add {peerId : Bytes} {role : GroupRole} {name : String}
      (kind : op.kind = .addMember peerId role name) (size : peerId.length = identityKeySize)
      (absent : g.members.find? (fun m => m.peerId = peerId) = none)
      (cap : g.activeMembers.length < maxMembers) :
      Effect op g
        { g with
          members := g.members ++
            [⟨peerId, name, role, op.epoch, .pendingSKDM, some op.operatorIdentity⟩] }
  | remove {peerId : Bytes} (kind : op.kind = .removeMember peerId)
      (present : g.hasMember peerId = true) (spare : g.isLastAdmin peerId = false) :
      Effect op g
        { g with
          members := updateFirst (fun m => m.peerId = peerId && m.status ≠ .removed)
            (fun m => { m with status := .removed }) g.members
          memberDistributionIds := g.memberDistributionIds.erase peerId
          previousMemberDistributionIds := g.previousMemberDistributionIds.erase peerId
          mySkdmRecipients := g.mySkdmRecipients.erase peerId }
  | rename {newName : String} (kind : op.kind = .rename newName) :
      Effect op g { g with displayName := newName }
  | promote {peerId : Bytes} (kind : op.kind = .promoteAdmin peerId)
      (present : g.hasMember peerId = true) :
      Effect op g
        { g with
          members := updateFirst (fun m => m.peerId = peerId && m.status ≠ .removed)
            (fun m => { m with role := .admin }) g.members }
  | demote {peerId : Bytes} (kind : op.kind = .demoteAdmin peerId)
      (present : g.hasMember peerId = true) (spare : g.isLastAdmin peerId = false) :
      Effect op g
        { g with
          members := updateFirst (fun m => m.peerId = peerId && m.status ≠ .removed)
            (fun m => { m with role := .member }) g.members }
  | rotate {dist : UUID} (kind : op.kind = .rotateSenderKey dist) :
      Effect op g (g.setMemberDistId dist op.operatorIdentity)

theorem mutateAddMember_effect {peerId : Bytes} {role : GroupRole} {name : String}
    (hkind : op.kind = .addMember peerId role name) :
    (g.mutateAddMember peerId role name op.operatorIdentity op.epoch sx).1 = .ok →
      Effect op g (g.mutateAddMember peerId role name op.operatorIdentity op.epoch sx).2.1 := by
  unfold mutateAddMember
  split
  · rintro ⟨⟩
  · rename_i hsize
    have hsize : peerId.length = identityKeySize := Classical.not_not.mp hsize
    dsimp only
    split
    · rename_i old hfound
      split
      · rintro ⟨⟩
      · rename_i hremoved
        split
        · rintro ⟨⟩
        · rename_i hcap
          exact fun _ =>
            .readd hkind hsize hfound (Classical.not_not.mp hremoved) (Nat.lt_of_not_le hcap)
    · rename_i habsent
      split
      · rintro ⟨⟩
      · rename_i hcap
        exact fun _ => .add hkind hsize habsent (Nat.lt_of_not_le hcap)

theorem mutateRemoveMember_effect {peerId : Bytes} (hkind : op.kind = .removeMember peerId) :
    (g.mutateRemoveMember peerId sx).1 = .ok →
      Effect op g (g.mutateRemoveMember peerId sx).2.1 := by
  unfold mutateRemoveMember
  split
  · rintro ⟨⟩
  · rename_i hmem
    have hmem : g.hasMember peerId = true := Classical.not_not.mp hmem
    split
    · rintro ⟨⟩
    · rename_i hlast
      have heffect := Effect.remove hkind hmem (Bool.eq_false_iff.mpr hlast)
      dsimp only
      split
      · split
        · exact fun _ => heffect
        · split <;> exact fun _ => heffect
      · exact fun _ => heffect

/-- A mutation that succeeds is one of the seven effects. -/
theorem mutate_effect (h : g.mutate op = .ok g') : Effect op g g' := by
  rw [mutate] at h
  split at h
  · rename_i g₁ sx₁ hrun
    cases h
    have hok : (g.executeMutation op {}).1 = .ok := by rw [hrun]
    have hgroup : (g.executeMutation op {}).2.1 = g' := by rw [hrun]
    rw [← hgroup]
    revert hok
    unfold executeMutation
    cases hkind : op.kind with
    | create => rintro ⟨⟩
    | rename newName => exact fun _ => .rename hkind
    | rotateSenderKey dist => exact fun _ => .rotate hkind
    | addMember peerId role name => exact mutateAddMember_effect hkind
    | removeMember peerId => exact mutateRemoveMember_effect hkind
    | promoteAdmin peerId =>
      dsimp only [mutatePromoteAdmin]
      split
      · rintro ⟨⟩
      · rename_i hmem
        exact fun _ => .promote hkind (Classical.not_not.mp hmem)
    | demoteAdmin peerId =>
      dsimp only [mutateDemoteAdmin]
      split
      · rintro ⟨⟩
      · rename_i hmem
        split
        · rintro ⟨⟩
        · rename_i hlast
          exact fun _ =>
            .demote hkind (Classical.not_not.mp hmem) (Bool.eq_false_iff.mpr hlast)
  · cases h

/-- What no mutation touches. -/
theorem Effect.frame (h : Effect op g g') :
    ∃ name members dist prev skdm, g' =
      { g with
        displayName := name
        members := members
        memberDistributionIds := dist
        previousMemberDistributionIds := prev
        mySkdmRecipients := skdm } := by
  cases h with
  | rotate kind =>
    rename_i dist
    obtain ⟨prev, hprev⟩ := setMemberDistId_eq g dist op.operatorIdentity
    exact ⟨g.displayName, g.members, _, prev, g.mySkdmRecipients, hprev⟩
  | readd | add | remove | rename | promote | demote => exact ⟨_, _, _, _, _, rfl⟩

/-! ## An op at the next epoch -/

/-- An op at the next epoch with a valid signature: the parent, the operator's
rights, the witnessed member set, the mutation. -/
def land (env : GroupEnv) (op : GroupOp) (opDigest : Bytes) (g : ChatGroup) :
    Option (ApplyOutcome × ChatGroup) :=
  if op.parentDigest ≠ g.lastOpDigest then some (.rejectedEquivocation op.epoch, g)
  else if ¬ g.isAuthorised op.operatorIdentity op.kind then some (.rejectedAuthorization, g)
  else
    match g.memberSetRootMismatch env op with
    | none => none
    | some (some mismatch) => some (mismatch, g)
    | some none =>
      match g.mutate op with
      | .ok g' => some (.applied op.epoch, g'.advance op.epoch opDigest)
      | .error reason => some (.rejectedMalformed reason, g)

theorem memberSetRootMismatch_eq {outcome : ApplyOutcome}
    (h : g.memberSetRootMismatch env op = some (some outcome)) :
    ∃ root, g.memberSetRoot env = some root ∧
      outcome = .rejectedMemberSetMismatch root op.priorMemberSetRoot := by
  obtain ⟨root, hroot, heq⟩ := Option.map_eq_some_iff.mp h
  refine ⟨root, hroot, ?_⟩
  split at heq
  · exact (Option.some.inj heq).symm
  · cases heq

theorem memberSetRootMismatch_none_iff :
    g.memberSetRootMismatch env op = some none ↔
      g.memberSetRoot env = some op.priorMemberSetRoot := by
  rw [memberSetRootMismatch, Option.map_eq_some_iff]
  constructor
  · rintro ⟨root, hroot, heq⟩
    split at heq
    · cases heq
    · rename_i hsame
      rw [hroot, Classical.not_not.mp hsame]
  · intro hroot
    exact ⟨_, hroot, if_neg (fun h => h rfl)⟩

/-- Outcome and group of an apply call. -/
def visible (r : ApplyOutcome × ChatGroup × ApplySideEffects) : ApplyOutcome × ChatGroup :=
  (r.1, r.2.1)

/-- `op` takes effect on `g`: it extends the chain, its operator may issue it,
its witnessed member set is the local one, and the mutation succeeds. -/
structure Lands (env : GroupEnv) (op : GroupOp) (opDigest : Bytes) (g g' : ChatGroup) : Prop where
  parent : op.parentDigest = g.lastOpDigest
  authorised : g.isAuthorised op.operatorIdentity op.kind = true
  root : g.memberSetRoot env = some op.priorMemberSetRoot
  mutated : ∃ g₁, g.mutate op = .ok g₁ ∧ g' = g₁.advance op.epoch opDigest

/-- The outcomes of an op at the next epoch that does not take effect. -/
inductive Refusal (op : GroupOp) : ApplyOutcome → Prop where
  | equivocation : Refusal op (.rejectedEquivocation op.epoch)
  | authorization : Refusal op .rejectedAuthorization
  | mismatch {root : Bytes} :
      Refusal op (.rejectedMemberSetMismatch root op.priorMemberSetRoot)
  | malformed {reason : String} : Refusal op (.rejectedMalformed reason)

/-- An op at the next epoch takes effect or changes nothing. -/
theorem land_cases {d : Bytes} {r : ApplyOutcome × ChatGroup} (h : land env op d g = some r) :
    r.1 = .applied op.epoch ∧ Lands env op d g r.2 ∨ Refusal op r.1 ∧ r.2 = g := by
  rw [land] at h
  split at h
  · cases h
    exact .inr ⟨.equivocation, rfl⟩
  · rename_i hparent
    split at h
    · cases h
      exact .inr ⟨.authorization, rfl⟩
    · rename_i hauth
      split at h
      · cases h
      · rename_i outcome hroot
        obtain ⟨root, -, rfl⟩ := memberSetRootMismatch_eq hroot
        cases h
        exact .inr ⟨.mismatch, rfl⟩
      · rename_i hroot
        split at h
        · rename_i g₁ hmutate
          cases h
          exact .inl ⟨rfl, Classical.not_not.mp hparent, Classical.not_not.mp hauth,
            memberSetRootMismatch_none_iff.mp hroot, g₁, hmutate, rfl⟩
        · cases h
          exact .inr ⟨.malformed, rfl⟩

/-- An op that can take effect does. -/
theorem Lands.land_eq {d : Bytes} (h : Lands env op d g g') :
    land env op d g = some (.applied op.epoch, g') := by
  obtain ⟨g₁, hmutate, rfl⟩ := h.mutated
  rw [land, if_neg (fun hne => hne h.parent), if_neg (fun hno => hno h.authorised),
    memberSetRootMismatch_none_iff.mpr h.root, hmutate]

/-- What an op that takes effect leaves alone, and the chain position it sets. -/
theorem Lands.frame {d : Bytes} (h : Lands env op d g g') :
    g'.id = g.id ∧ g'.currentEpoch = op.epoch ∧ g'.lastOpDigest = d ∧
      g'.pendingOps = g.pendingOps := by
  obtain ⟨g₁, hmutate, rfl⟩ := h.mutated
  obtain ⟨name, members, dist, prev, skdm, rfl⟩ := (mutate_effect hmutate).frame
  exact ⟨rfl, rfl, rfl, rfl⟩

/-! ## The group up to its queue -/

/-- The group with another queue. -/
def withPending (g : ChatGroup) (pendingOps : List Bytes) : ChatGroup :=
  { g with pendingOps := pendingOps }

@[simp] theorem withPending_pendingOps (g : ChatGroup) (p : List Bytes) :
    (g.withPending p).pendingOps = p := rfl

@[simp] theorem withPending_id (g : ChatGroup) (p : List Bytes) : (g.withPending p).id = g.id := rfl

@[simp] theorem withPending_displayName (g : ChatGroup) (p : List Bytes) :
    (g.withPending p).displayName = g.displayName := rfl

@[simp] theorem withPending_members (g : ChatGroup) (p : List Bytes) :
    (g.withPending p).members = g.members := rfl

@[simp] theorem withPending_currentEpoch (g : ChatGroup) (p : List Bytes) :
    (g.withPending p).currentEpoch = g.currentEpoch := rfl

@[simp] theorem withPending_lastOpDigest (g : ChatGroup) (p : List Bytes) :
    (g.withPending p).lastOpDigest = g.lastOpDigest := rfl

@[simp] theorem withPending_withPending (g : ChatGroup) (p p' : List Bytes) :
    (g.withPending p).withPending p' = g.withPending p' := rfl

@[simp] theorem withPending_self (g : ChatGroup) : g.withPending g.pendingOps = g := rfl

theorem mutateAddMember_withPending (g : ChatGroup) (p : List Bytes) (peerId : Bytes)
    (role : GroupRole) (name : String) (addedBy : Bytes) (epoch : UInt64) (sx : ApplySideEffects) :
    (g.withPending p).mutateAddMember peerId role name addedBy epoch sx =
      let r := g.mutateAddMember peerId role name addedBy epoch sx
      (r.1, r.2.1.withPending p, r.2.2) := by
  have hmembers : (g.withPending p).members = g.members := rfl
  have hactive : (g.withPending p).activeMembers = g.activeMembers := rfl
  simp only [mutateAddMember, hmembers, hactive]
  split
  · rfl
  · split
    · split
      · rfl
      · split <;> rfl
    · split <;> rfl

theorem mutateRemoveMember_withPending (g : ChatGroup) (p : List Bytes) (peerId : Bytes) :
    (g.withPending p).mutateRemoveMember peerId {} =
      let r := g.mutateRemoveMember peerId {}
      (r.1, r.2.1.withPending p, r.2.2) := by
  have hmember : (g.withPending p).hasMember peerId = g.hasMember peerId := rfl
  have hlast : (g.withPending p).isLastAdmin peerId = g.isLastAdmin peerId := rfl
  simp only [mutateRemoveMember, hmember, hlast]
  split
  · rfl
  · split <;> rfl

theorem setMemberDistId_withPending (g : ChatGroup) (p : List Bytes) (dist : UUID)
    (sender : Bytes) :
    (g.withPending p).setMemberDistId dist sender =
      (g.setMemberDistId dist sender).withPending p := by
  have hlookup : (g.withPending p).memberDistributionIds = g.memberDistributionIds := rfl
  have hprev : (g.withPending p).previousMemberDistributionIds =
      g.previousMemberDistributionIds := rfl
  simp only [setMemberDistId, recordSupersededDistId, hlookup, hprev]
  split
  · split
    · split <;> rfl
    · rfl
  · rfl

theorem executeMutation_withPending (g : ChatGroup) (p : List Bytes) (op : GroupOp) :
    (g.withPending p).executeMutation op {} =
      let r := g.executeMutation op {}
      (r.1, r.2.1.withPending p, r.2.2) := by
  unfold executeMutation
  cases op.kind with
  | create | rename => rfl
  | addMember => exact mutateAddMember_withPending ..
  | removeMember => exact mutateRemoveMember_withPending ..
  | rotateSenderKey dist =>
    exact congrArg (fun g' => (MutationOutcome.ok, g', _)) (setMemberDistId_withPending ..)
  | promoteAdmin peerId =>
    have hmember : (g.withPending p).hasMember peerId = g.hasMember peerId := rfl
    simp only [mutatePromoteAdmin, hmember]
    split <;> rfl
  | demoteAdmin peerId =>
    have hmember : (g.withPending p).hasMember peerId = g.hasMember peerId := rfl
    have hlast : (g.withPending p).isLastAdmin peerId = g.isLastAdmin peerId := rfl
    simp only [mutateDemoteAdmin, hmember, hlast]
    split
    · rfl
    · split <;> rfl

theorem mutate_withPending (g : ChatGroup) (p : List Bytes) (op : GroupOp) :
    (g.withPending p).mutate op = (g.mutate op).map (withPending · p) := by
  rw [mutate, mutate, executeMutation_withPending]
  cases g.executeMutation op {} with
  | mk outcome rest => cases outcome <;> rfl

/-- What an op does at the next epoch does not depend on the queue. -/
theorem land_withPending (g : ChatGroup) (p : List Bytes) (d : Bytes) :
    land env op d (g.withPending p) =
      (land env op d g).map fun r => (r.1, r.2.withPending p) := by
  have hlast : (g.withPending p).lastOpDigest = g.lastOpDigest := rfl
  have hauth : (g.withPending p).isAuthorised op.operatorIdentity op.kind =
      g.isAuthorised op.operatorIdentity op.kind := by cases op.kind <;> rfl
  have hroot : (g.withPending p).memberSetRootMismatch env op =
      g.memberSetRootMismatch env op := rfl
  simp only [land, hlast, hauth, hroot, mutate_withPending]
  split
  · rfl
  · split
    · rfl
    · split
      · rfl
      · rfl
      · cases g.mutate op <;> rfl

theorem applyAlreadyParked_land {bytes : Bytes} (hnext : nextEpoch g.currentEpoch = some op.epoch)
    (sx : ApplySideEffects) :
    (applyAlreadyParked env op bytes g sx).map visible =
      if op.verifySignature env then land env op (env.hash bytes) g
      else some (.rejectedSignature, g) := by
  obtain ⟨sx', hmutate⟩ := executeMutation_eq g op sx
  rw [applyAlreadyParked, hnext]
  simp only [ne_eq, not_true_eq_false, if_false, hmutate]
  by_cases hsig : op.verifySignature env = true
  · simp only [hsig, not_true_eq_false, if_false, if_true, land]
    split
    · rfl
    · split
      · rfl
      · cases g.memberSetRootMismatch env op with
        | none => rfl
        | some mismatch =>
          cases mismatch with
          | some outcome => rfl
          | none =>
            cases g.mutate op with
            | ok g' => rfl
            | error reason => rfl
  · simp only [hsig]
    rfl

/-- The drain loop on the group alone. -/
def drain (env : GroupEnv) : List (GroupOp × Bytes) → ChatGroup → Option (List Bytes × ChatGroup)
  | [], g => some ([], g)
  | (op, bytes) :: rest, g =>
    if op.epoch ≤ g.currentEpoch then drain env rest g
    else if nextEpoch g.currentEpoch = some op.epoch then
      if op.verifySignature env then
        (land env op (env.hash bytes) g).bind fun r => drain env rest r.2
      else drain env rest g
    else (drain env rest g).map fun r => (bytes :: r.1, r.2)

theorem drain_withPending (p : List Bytes) :
    ∀ (entries : List (GroupOp × Bytes)) (g : ChatGroup),
      drain env entries (g.withPending p) =
        (drain env entries g).map fun r => (r.1, r.2.withPending p)
  | [], g => rfl
  | (op, bytes) :: rest, g => by
    have hepoch : (g.withPending p).currentEpoch = g.currentEpoch := rfl
    simp only [drain, hepoch, land_withPending, drain_withPending p rest]
    split
    · rfl
    · split
      · split
        · cases land env op (env.hash bytes) g with
          | none => rfl
          | some r => exact drain_withPending p rest r.2
        · rfl
      · simp only [Option.map_map]
        rfl

/-- Above the current epoch there is always a next one. -/
theorem nextEpoch_of_lt {e e' : UInt64} (h : ¬ e' ≤ e) : ∃ n, nextEpoch e = some n ∧ n ≤ e' := by
  rw [UInt64.le_iff_toNat_le] at h
  have hlt : e'.toNat < 2 ^ 64 := e'.toNat_lt
  cases hnext : nextEpoch e with
  | none =>
    rw [nextEpoch_eq_none_iff] at hnext
    omega
  | some n =>
    refine ⟨n, rfl, ?_⟩
    rw [nextEpoch_eq_some_iff] at hnext
    rw [UInt64.le_iff_toNat_le]
    omega

theorem replayLoop_drain :
    ∀ (entries : List (GroupOp × Bytes)) (g : ChatGroup) (sx : ApplySideEffects),
      (replayLoop env entries g sx).map (fun r => (r.1, r.2.1)) = drain env entries g
  | [], g, sx => rfl
  | (op, bytes) :: rest, g, sx => by
    rw [replayLoop, drain]
    by_cases hpast : op.epoch ≤ g.currentEpoch
    · rw [if_pos hpast, if_pos hpast]
      exact replayLoop_drain rest g sx
    · rw [if_neg hpast, if_neg hpast]
      obtain ⟨n, hnext, -⟩ := nextEpoch_of_lt hpast
      by_cases hn : op.epoch = n
      · subst hn
        have hland : (applyAlreadyParked env op bytes g sx).map visible = _ :=
          applyAlreadyParked_land hnext sx
        simp only [hnext, if_true]
        cases hparked : applyAlreadyParked env op bytes g sx with
        | none =>
          rw [hparked] at hland
          by_cases hsig : op.verifySignature env = true
          · rw [if_pos hsig] at hland ⊢
            rw [← hland]
            rfl
          · rw [if_neg hsig] at hland
            cases hland
        | some r =>
          obtain ⟨outcome, g', sx'⟩ := r
          rw [hparked] at hland
          show (replayLoop env rest g' sx').map _ = _
          rw [replayLoop_drain rest g' sx']
          by_cases hsig : op.verifySignature env = true
          · rw [if_pos hsig] at hland ⊢
            rw [← hland]
            rfl
          · rw [if_neg hsig] at hland ⊢
            cases hland
            rfl
      · have hne : ¬ (some n = some op.epoch) := fun h => hn (Option.some.inj h).symm
        rw [hnext, if_neg hne, ← replayLoop_drain rest g sx]
        simp only [hn, if_false, Option.map_map]
        rfl

/-- `replayPending` on the group alone. -/
def replay (env : GroupEnv) (g : ChatGroup) : Option ChatGroup :=
  (drain env (sortByEpoch (decodePending g.pendingOps)) g).map fun r => r.2.withPending r.1

theorem replayPending_replay (g : ChatGroup) (sx : ApplySideEffects) :
    (replayPending env g sx).map Prod.fst = replay env g := by
  rw [replayPending, replay, ← replayLoop_drain _ g sx]
  by_cases hempty : g.pendingOps = []
  · have hsorted : sortByEpoch (decodePending g.pendingOps) = [] := by rw [hempty]; rfl
    rw [if_pos hempty, hsorted]
    show some g = some (g.withPending [])
    rw [← hempty, withPending_self]
  · rw [if_neg hempty, Option.map_map, Option.map_map]
    rfl

/-! ## `apply` without side effects -/

/-- What becomes of an op at the next epoch, parked ops included. -/
def settle (env : GroupEnv) : ApplyOutcome × ChatGroup → Option (ApplyOutcome × ChatGroup)
  | (.applied e, g) => (replay env g).map fun g' => (.applied e, g')
  | r => some r

/-- `apply` for a local user `me`, on the group alone. -/
def applyStep (env : GroupEnv) (me : Option Bytes) (op : GroupOp) (g : ChatGroup) :
    Option (ApplyOutcome × ChatGroup) :=
  if op.groupId ≠ g.id then some (.rejectedMalformed "groupId mismatch", g)
  else
    match op.encoded with
    | .error _ => some (.rejectedMalformed "could not encode op", g)
    | .ok bytes =>
      if ¬ op.verifySignature env then some (.rejectedSignature, g)
      else
        match nextEpoch g.currentEpoch with
        | none => none
        | some expected =>
          if op.epoch < expected then
            some (visible (g.applyPast op (env.hash bytes) { localIdentityPub := me }))
          else if expected < op.epoch then some (.queued op.epoch, g.queuePending bytes)
          else (land env op (env.hash bytes) g).bind (settle env)

theorem applyPast_visible (g : ChatGroup) (op : GroupOp) (d : Bytes) (sx : ApplySideEffects) :
    visible (g.applyPast op d sx) =
      visible (g.applyPast op d { localIdentityPub := sx.localIdentityPub }) := by
  have hjoined : g.localJoinedAt { localIdentityPub := sx.localIdentityPub } =
      g.localJoinedAt sx := rfl
  simp only [applyPast, hjoined]
  split
  · rfl
  · split <;> rfl

/-- `apply` is `applyStep` with side effects on the side. -/
theorem apply_applyStep (op : GroupOp) (g : ChatGroup) (sx : ApplySideEffects) :
    (apply env op g sx).map visible = applyStep env sx.localIdentityPub op g := by
  obtain ⟨sx', hmutate⟩ := executeMutation_eq g op sx
  rw [apply, applyStep]
  split
  · rfl
  · cases op.encoded with
    | error _ => rfl
    | ok bytes =>
      dsimp only
      split
      · rfl
      · cases nextEpoch g.currentEpoch with
        | none => rfl
        | some expected =>
          dsimp only
          split
          · rw [Option.map_some, applyPast_visible]
          · split
            · rfl
            · simp only [land, hmutate]
              split
              · rfl
              · split
                · rfl
                · cases hroot : g.memberSetRootMismatch env op with
                  | none => rfl
                  | some mismatch =>
                    cases mismatch with
                    | some outcome =>
                      obtain ⟨root, -, rfl⟩ := memberSetRootMismatch_eq hroot
                      rfl
                    | none =>
                      cases g.mutate op with
                      | error reason => rfl
                      | ok g' =>
                        show Option.map _ _ = Option.map _ _
                        rw [← replayPending_replay _ sx', Option.map_map, Option.map_map]
                        rfl

/-! ## Rules -/

/-- What every entry that takes effect keeps, the drain loop keeps. -/
theorem drain_invariant_of_mem (P : ChatGroup → Prop) :
    ∀ {entries : List (GroupOp × Bytes)} {g : ChatGroup} {r : List Bytes × ChatGroup},
      (∀ {op bytes g g'}, (op, bytes) ∈ entries → op.verifySignature env = true →
        nextEpoch g.currentEpoch = some op.epoch → Lands env op (env.hash bytes) g g' →
        P g → P g') →
      drain env entries g = some r → P g → P r.2
  | [], g, r, _, h, hg => by
    cases h
    exact hg
  | (op, bytes) :: rest, g, r, hkeep, h, hg => by
    have hrest : ∀ {r' : List Bytes × ChatGroup} {g₁ : ChatGroup}, drain env rest g₁ = some r' →
        P g₁ → P r'.2 :=
      drain_invariant_of_mem P fun hmem => hkeep (List.mem_cons_of_mem _ hmem)
    rw [drain] at h
    split at h
    · exact hrest h hg
    · split at h
      · rename_i hnext
        split at h
        · rename_i hsig
          obtain ⟨landed, hland, h⟩ := Option.bind_eq_some_iff.mp h
          refine hrest h ?_
          rcases land_cases hland with ⟨-, hlands⟩ | ⟨-, hsame⟩
          · exact hkeep List.mem_cons_self hsig hnext hlands hg
          · rw [hsame]
            exact hg
        · exact hrest h hg
      · obtain ⟨r', h, heq⟩ := Option.map_eq_some_iff.mp h
        rw [← heq]
        show P r'.2
        exact hrest h hg

/-- What every op that takes effect keeps, the drain loop keeps. -/
theorem drain_invariant (P : ChatGroup → Prop)
    (hkeep : ∀ {op bytes g g'}, op.verifySignature env = true →
      nextEpoch g.currentEpoch = some op.epoch → Lands env op (env.hash bytes) g g' → P g → P g')
    {entries : List (GroupOp × Bytes)} {g : ChatGroup} {r : List Bytes × ChatGroup}
    (h : drain env entries g = some r) (hg : P g) : P r.2 :=
  drain_invariant_of_mem P (fun _ => hkeep) h hg

/-- What stays parked was parked, in the order of the entries. -/
theorem drain_kept_sublist :
    ∀ {entries : List (GroupOp × Bytes)} {g : ChatGroup} {r : List Bytes × ChatGroup},
      drain env entries g = some r → r.1.Sublist (entries.map Prod.snd)
  | [], g, r, h => by
    cases h
    exact List.Sublist.refl _
  | (op, bytes) :: rest, g, r, h => by
    rw [drain] at h
    rw [List.map_cons]
    split at h
    · exact (drain_kept_sublist h).cons _
    · split at h
      · split at h
        · obtain ⟨landed, -, hrest⟩ := Option.bind_eq_some_iff.mp h
          exact (drain_kept_sublist hrest).cons _
        · exact (drain_kept_sublist h).cons _
      · obtain ⟨r', hrest, heq⟩ := Option.map_eq_some_iff.mp h
        rw [← heq]
        exact (drain_kept_sublist hrest).cons_cons _

/-- Everything a call of `apply` can do: nothing, park the op, or let it take
effect and replay the queue. -/
theorem applyStep_cases {me : Option Bytes} {r : ApplyOutcome × ChatGroup}
    (h : applyStep env me op g = some r) :
    (r.2 = g ∧ ∀ e, r.1 ≠ .applied e) ∨
      (∃ bytes, op.encoded = .ok bytes ∧ op.verifySignature env = true ∧
        r = (.queued op.epoch, g.queuePending bytes)) ∨
      ∃ bytes g₁, op.groupId = g.id ∧ op.encoded = .ok bytes ∧ op.verifySignature env = true ∧
        nextEpoch g.currentEpoch = some op.epoch ∧ Lands env op (env.hash bytes) g g₁ ∧
        r.1 = .applied op.epoch ∧ replay env g₁ = some r.2 := by
  rw [applyStep] at h
  split at h
  · cases h
    exact .inl ⟨rfl, by simp⟩
  · rename_i hid
    split at h
    · cases h
      exact .inl ⟨rfl, by simp⟩
    · rename_i bytes hencoded
      split at h
      · cases h
        exact .inl ⟨rfl, by simp⟩
      · rename_i hsig
        have hsig : op.verifySignature env = true := Classical.not_not.mp hsig
        split at h
        · cases h
        · rename_i expected hnext
          split at h
          · cases h
            left
            simp only [applyPast, visible]
            split
            · simp
            · split <;> simp
          · rename_i hlt
            split at h
            · cases h
              exact .inr (.inl ⟨bytes, hencoded, hsig, rfl⟩)
            · rename_i hgt
              have hepoch : op.epoch = expected := by
                rw [UInt64.lt_iff_toNat_lt] at hlt hgt
                exact UInt64.toNat_inj.mp (by omega)
              subst hepoch
              obtain ⟨landed, hland, hsettle⟩ := Option.bind_eq_some_iff.mp h
              obtain ⟨outcome, g₁⟩ := landed
              rcases land_cases hland with ⟨houtcome, hlands⟩ | ⟨hrefused, hsame⟩
              · cases houtcome
                obtain ⟨g₂, hreplay, rfl⟩ := Option.map_eq_some_iff.mp hsettle
                exact .inr (.inr
                  ⟨bytes, g₁, Classical.not_not.mp hid, hencoded, hsig, hnext, hlands, rfl, hreplay⟩)
              · cases hsame
                cases hrefused <;> exact .inl (by cases hsettle; exact ⟨rfl, by simp⟩)

/-- What one operator has parked, when the queue holds ops that encode. -/
theorem parkedBy_parked {waitingOps : List GroupOp} {parked : List Bytes}
    (hencodes : ∀ op ∈ waitingOps, op.encoded = .ok op.wire)
    (hperm : parked.Perm (waitingOps.map GroupOp.wire)) (operator : Bytes) :
    parkedBy parked operator =
      (waitingOps.filter fun o => o.operatorIdentity = operator).length := by
  rw [parkedBy, hperm.countP_eq, List.countP_map, ← List.countP_eq_length_filter]
  apply List.countP_congr
  intro op hop
  simp only [Function.comp, GroupOp.decode_encoded (hencodes op hop)]

/-- Parking an op appends its bytes, or does nothing. -/
theorem queuePending_cases (g : ChatGroup) (bytes : Bytes) :
    g.queuePending bytes = g ∨ g.queuePending bytes = g.withPending (g.pendingOps ++ [bytes]) := by
  rw [queuePending]
  split
  · exact .inl rfl
  · split
    · exact .inl rfl
    · split
      · split
        · exact .inl rfl
        · exact .inr rfl
      · exact .inr rfl

/-- Parking an op touches the queue only. -/
theorem queuePending_eq (g : ChatGroup) (bytes : Bytes) :
    g.queuePending bytes = g.withPending (g.queuePending bytes).pendingOps := by
  rcases queuePending_cases g bytes with h | h
  · rw [h, withPending_self]
  · rw [h]
    rfl

theorem mem_queuePending {bytes b : Bytes} (h : b ∈ g.pendingOps) :
    b ∈ (g.queuePending bytes).pendingOps := by
  rcases queuePending_cases g bytes with heq | heq
  · rw [heq]
    exact h
  · rw [heq]
    exact List.mem_append_left _ h

theorem mem_of_mem_queuePending {bytes b : Bytes} (h : b ∈ (g.queuePending bytes).pendingOps) :
    b ∈ g.pendingOps ∨ b = bytes := by
  rcases queuePending_cases g bytes with heq | heq
  · rw [heq] at h
    exact .inl h
  · rw [heq] at h
    simpa using h

theorem queuePending_of_mem {bytes : Bytes} (h : bytes ∈ g.pendingOps) :
    g.queuePending bytes = g := by
  rw [queuePending, if_pos h, ite_self]

theorem mem_sortByEpoch_decodePending {p : List Bytes} {bytes : Bytes} (hmem : bytes ∈ p)
    (hdecode : GroupOp.decode bytes = some op) :
    (op, bytes) ∈ sortByEpoch (decodePending p) := by
  rw [sortByEpoch, List.mem_insertionSort, decodePending, List.mem_filterMap]
  exact ⟨bytes, hmem, by rw [hdecode]; rfl⟩

/-- There is room: the op is appended. -/
theorem queuePending_of_room {bytes : Bytes} (hdecode : GroupOp.decode bytes = some op)
    (htotal : g.pendingOps.length < pendingOpsCap) (hnew : bytes ∉ g.pendingOps)
    (hper : parkedBy g.pendingOps op.operatorIdentity < pendingOpsPerOperatorCap) :
    g.queuePending bytes = g.withPending (g.pendingOps ++ [bytes]) := by
  rw [queuePending, if_neg (Nat.not_le.mpr htotal), if_neg hnew, hdecode]
  simp only [if_neg (Nat.not_le.mpr hper)]
  rfl

/-- A call of `apply` for an op of this group that encodes and is signed, in a
group that has a next epoch. -/
theorem applyStep_of_ok {me : Option Bytes} {bytes : Bytes} {expected : UInt64}
    (hid : op.groupId = g.id)
    (hencoded : op.encoded = .ok bytes) (hsig : op.verifySignature env = true)
    (hnext : nextEpoch g.currentEpoch = some expected) :
    applyStep env me op g =
      if op.epoch < expected then
        some (visible (g.applyPast op (env.hash bytes) { localIdentityPub := me }))
      else if expected < op.epoch then some (.queued op.epoch, g.queuePending bytes)
      else (land env op (env.hash bytes) g).bind (settle env) := by
  rw [applyStep, if_neg (fun h => h hid), hencoded]
  simp only [hsig, not_true_eq_false, if_false, hnext]

/-- In a group without a next epoch the same call traps. -/
theorem applyStep_trap {me : Option Bytes} {bytes : Bytes} (hid : op.groupId = g.id)
    (hencoded : op.encoded = .ok bytes) (hsig : op.verifySignature env = true)
    (hnext : nextEpoch g.currentEpoch = none) : applyStep env me op g = none := by
  rw [applyStep, if_neg (fun h => h hid), hencoded]
  simp only [hsig, not_true_eq_false, if_false, hnext]

/-- The ops that a call of `apply` on `g` may bring into effect: the op itself and the
parked ones. -/
def MayLand (g : ChatGroup) (op x : GroupOp) : Prop :=
  x = op ∨ ∃ bytes ∈ g.pendingOps, GroupOp.decode bytes = some x

/-- What parking keeps, and every op that a call may bring into effect, the call keeps. -/
theorem apply_invariant (P : ChatGroup → Prop) {outcome : ApplyOutcome} {sx sx' : ApplySideEffects}
    (h : apply env op g sx = some (outcome, g', sx')) (hqueue : ∀ k p, P k → P (k.withPending p))
    (hkeep : ∀ {x bytes k k'}, MayLand g op x → Lands env x (env.hash bytes) k k' → P k → P k')
    (hg : P g) : P g' := by
  have hstep : applyStep env sx.localIdentityPub op g = some (outcome, g') := by
    rw [← apply_applyStep, h]
    rfl
  obtain ⟨hsame, -⟩ | ⟨bytes, -, -, hqueued⟩ | ⟨bytes, g₁, -, -, -, -, hlands, -, hreplay⟩ :=
    applyStep_cases hstep
  · rw [show g' = g from hsame]
    exact hg
  · obtain ⟨-, rfl⟩ := Prod.mk.inj hqueued
    rw [queuePending_eq]
    exact hqueue g _ hg
  · obtain ⟨⟨kept, g₂⟩, hdrain, rfl⟩ := Option.map_eq_some_iff.mp hreplay
    refine hqueue g₂ kept (drain_invariant_of_mem P ?_ hdrain (hkeep (.inl rfl) hlands hg))
    intro x bytes k k' hmem _ _ hx
    obtain ⟨parked, hparked, hdecoded⟩ :=
      List.mem_filterMap.mp ((List.mem_insertionSort _).mp hmem)
    obtain ⟨y, hy, heq⟩ := Option.map_eq_some_iff.mp hdecoded
    cases heq
    rw [hlands.frame.2.2.2] at hparked
    exact hkeep (.inr ⟨bytes, hparked, hy⟩) hx

theorem apply_id {outcome : ApplyOutcome} {sx sx' : ApplySideEffects}
    (h : apply env op g sx = some (outcome, g', sx')) : g'.id = g.id :=
  apply_invariant (fun k => k.id = g.id) h (fun _ _ hk => hk)
    (fun _ hlands hk => hlands.frame.1.trans hk) rfl

/-! ## Sequences of calls -/

/-- A sequence of `apply` calls of the local user `me`, each with fresh side
effects: the outcomes in order and the last group, or `none` if a call traps. -/
def runOps (env : GroupEnv) (me : Option Bytes) :
    List GroupOp → ChatGroup → Option (List ApplyOutcome × ChatGroup)
  | [], g => some ([], g)
  | op :: ops, g =>
    match apply env op g { localIdentityPub := me } with
    | none => none
    | some (outcome, g', _) => (runOps env me ops g').map fun r => (outcome :: r.1, r.2)

theorem runOps_cons (me : Option Bytes) (op : GroupOp) (ops : List GroupOp) (g : ChatGroup) :
    runOps env me (op :: ops) g =
      (applyStep env me op g).bind fun s =>
        (runOps env me ops s.2).map fun r => (s.1 :: r.1, r.2) := by
  rw [runOps, ← apply_applyStep op g { localIdentityPub := me }]
  cases apply env op g { localIdentityPub := me } with
  | none => rfl
  | some r => rfl

theorem runOps_append (me : Option Bytes) (a b : List GroupOp) (g : ChatGroup) :
    runOps env me (a ++ b) g =
      (runOps env me a g).bind fun s =>
        (runOps env me b s.2).map fun r => (s.1 ++ r.1, r.2) := by
  induction a generalizing g with
  | nil =>
    show runOps env me b g = (runOps env me b g).map fun r => r
    rw [Option.map_id']
  | cons op a ih =>
    rw [List.cons_append, runOps_cons, runOps_cons]
    cases applyStep env me op g with
    | none => rfl
    | some s =>
      rw [Option.bind_some, Option.bind_some, ih]
      cases runOps env me a s.2 with
      | none => rfl
      | some s' =>
        simp only [Option.bind_some, Option.map_some, Option.map_map]
        rfl

/-- An empty queue has nothing to replay. -/
theorem replay_of_pendingOps_nil (h : g.pendingOps = []) : replay env g = some g := by
  have hsorted : sortByEpoch (decodePending g.pendingOps) = [] := by rw [h]; rfl
  rw [replay, hsorted]
  show some (g.withPending []) = some g
  rw [← h, withPending_self]

end ChatGroup

end Pizzini.Group
