import Pizzini.Group.BootstrapCheck
import Pizzini.Group.WellFormed

/-!
# Side effects of an op and of its cascade

`apply` hands one record of side effects through the op and through every parked op that it
lets in; the hooks act on what the record says in the end. `apply_sx_invariant` is the
induction over such a drain, on the group and the record together. `Flags` is what the two
flags of the record tell about the members, from the state before the drain to the state
after it.
-/

namespace Pizzini.Group

open Wire ChatGroup

variable {env : GroupEnv} {g g' : ChatGroup} {sx sx' : ApplySideEffects}

/-! ## Induction over a drain -/

/-- What a drain keeps of a property of the group and the record of side effects. -/
structure KeptByDrain (P : ChatGroup → ApplySideEffects → Prop) : Prop where
  mutation : ∀ {g : ChatGroup} {sx : ApplySideEffects} (op : GroupOp), P g sx →
    P (g.executeMutation op sx).2.1 (g.executeMutation op sx).2.2
  advance : ∀ {g : ChatGroup} {sx : ApplySideEffects} (epoch : UInt64) (digest : Bytes), P g sx →
    P (g.advance epoch digest) sx
  pending : ∀ {g : ChatGroup} {sx : ApplySideEffects} (pendingOps : List Bytes), P g sx →
    P (g.withPending pendingOps) sx
  equivocation : ∀ {g : ChatGroup} {sx : ApplySideEffects} (epoch : Option UInt64), P g sx →
    P g { sx with equivocationEpoch := epoch }

section Drain

variable {P : ChatGroup → ApplySideEffects → Prop} (hP : KeptByDrain P)
include hP

theorem applyAlreadyParked_sx {op : GroupOp} {bytes : Bytes} {outcome : ApplyOutcome}
    (h : applyAlreadyParked env op bytes g sx = some (outcome, g', sx')) (h₀ : P g sx) :
    P g' sx' := by
  rw [applyAlreadyParked] at h
  split at h
  · cases h
  split at h
  · cases h
    exact h₀
  dsimp only at h
  split at h
  · cases h
    exact h₀
  split at h
  · cases h
    exact hP.equivocation _ h₀
  split at h
  · cases h
    exact h₀
  split at h
  · cases h
  · cases h
    exact h₀
  have hmutation := hP.mutation op h₀
  split at h
  · next hexec =>
    cases h
    rw [hexec] at hmutation
    exact hP.advance _ _ hmutation
  · next hexec =>
    cases h
    rwa [hexec] at hmutation

theorem replayLoop_sx {entries : List (GroupOp × Bytes)} {kept : List Bytes}
    (h : replayLoop env entries g sx = some (kept, g', sx')) (h₀ : P g sx) : P g' sx' := by
  induction entries generalizing g sx kept with
  | nil =>
    cases h
    exact h₀
  | cons e entries ih =>
    obtain ⟨op, bytes⟩ := e
    rw [replayLoop] at h
    split at h
    · exact ih h h₀
    split at h
    · cases h
    split at h
    · split at h
      · cases h
      · next hparked => exact ih h (applyAlreadyParked_sx hP hparked h₀)
    · obtain ⟨⟨kept₁, g₁, sx₁⟩, hloop, heq⟩ := Option.map_eq_some_iff.mp h
      cases heq
      exact ih hloop h₀

theorem replayPending_sx (h : replayPending env g sx = some (g', sx')) (h₀ : P g sx) :
    P g' sx' := by
  rw [replayPending] at h
  split at h
  · cases h
    exact h₀
  · obtain ⟨⟨kept, g₁, sx₁⟩, hloop, heq⟩ := Option.map_eq_some_iff.mp h
    cases heq
    exact hP.pending kept (replayLoop_sx hP hloop h₀)

/-- What a mutation and the bookkeeping of `apply` keep, `apply` with its cascade keeps. -/
theorem apply_sx {op : GroupOp} {outcome : ApplyOutcome}
    (h : g.apply env op sx = some (outcome, g', sx')) (h₀ : P g sx) : P g' sx' := by
  rw [ChatGroup.apply] at h
  split at h
  · cases h
    exact h₀
  split at h
  · cases h
    exact h₀
  dsimp only at h
  split at h
  · cases h
    exact h₀
  split at h
  · cases h
  split at h
  · have hpast := Option.some.inj h
    rw [applyPast] at hpast
    split at hpast
    · cases hpast
      exact h₀
    split at hpast
    · cases hpast
      exact hP.equivocation _ h₀
    · cases hpast
      exact h₀
  split at h
  · cases h
    rw [queuePending_eq]
    exact hP.pending _ h₀
  split at h
  · cases h
    exact hP.equivocation _ h₀
  split at h
  · cases h
    exact h₀
  split at h
  · cases h
  · cases h
    exact h₀
  have hmutation := hP.mutation op h₀
  split at h
  · next hexec =>
    rw [hexec] at hmutation
    obtain ⟨⟨g₁, sx₁⟩, hreplay, heq⟩ := Option.map_eq_some_iff.mp h
    cases heq
    exact replayPending_sx hP hreplay (hP.advance _ _ hmutation)
  · next hexec =>
    cases h
    rwa [hexec] at hmutation

end Drain

/-! ## The two flags -/

/-- A change of the first matching row that keeps the peer and takes nobody out. -/
theorem hasMember_updateFirst {p : GroupMember → Bool} {f : GroupMember → GroupMember}
    {peer : Bytes} (hmembers : g'.members = updateFirst p f g.members)
    (hf : ∀ m, p m = true → m.peerId = peer → m.status ≠ .removed →
      (f m).peerId = peer ∧ (f m).status ≠ .removed)
    (h : g.hasMember peer = true) : g'.hasMember peer = true := by
  obtain ⟨m, hm, hpeer, hstatus⟩ := hasMember_iff.mp h
  rw [hasMember_iff, hmembers]
  cases hp : p m with
  | false => exact ⟨m, mem_updateFirst_of_not hm hp, hpeer, hstatus⟩
  | true =>
    rcases mem_updateFirst_or (p := p) (f := f) hm with hkept | hchanged
    · exact ⟨m, hkept, hpeer, hstatus⟩
    · exact ⟨f m, hchanged, hf m hp hpeer hstatus⟩

/-- What the flags tell about a drain that began at `g₀` and stands at `g`: without a clear the
local user has stayed, and without a rotation either, nobody has gone. -/
structure Flags (me : Bytes) (g₀ g : ChatGroup) (sx : ApplySideEffects) : Prop where
  localId : sx.localIdentityPub = some me
  id : g.id = g₀.id
  dist : g.myCurrentDistributionId = g₀.myCurrentDistributionId
  invited : g.pendingInvitation = g₀.pendingInvitation
  recipients : g.mySkdmRecipients ⊆ g₀.mySkdmRecipients
  stayed : sx.requestSelfChainClear = false → g₀.hasMember me = true → g.hasMember me = true
  kept : sx.requestSelfChainClear = false → sx.requestSelfRotation = false →
    g₀.hasMember me = true → ∀ peer, g₀.hasMember peer = true → g.hasMember peer = true

namespace Flags

variable {me : Bytes} {g₀ : ChatGroup}

theorem refl (me : Bytes) (g : ChatGroup) : Flags me g g { localIdentityPub := some me } where
  localId := rfl
  id := rfl
  dist := rfl
  invited := rfl
  recipients := Finset.Subset.refl _
  stayed _ h := h
  kept _ _ _ _ h := h

/-- A change that takes nobody out. -/
theorem keep (h : Flags me g₀ g sx) (hlocal : sx'.localIdentityPub = sx.localIdentityPub)
    (hclear : sx'.requestSelfChainClear = sx.requestSelfChainClear)
    (hrotate : sx'.requestSelfRotation = sx.requestSelfRotation) (hid : g'.id = g.id)
    (hdist : g'.myCurrentDistributionId = g.myCurrentDistributionId)
    (hinvited : g'.pendingInvitation = g.pendingInvitation)
    (hrecipients : g'.mySkdmRecipients = g.mySkdmRecipients)
    (hmembers : ∀ peer, g.hasMember peer = true → g'.hasMember peer = true) :
    Flags me g₀ g' sx' where
  localId := hlocal.trans h.localId
  id := hid.trans h.id
  dist := hdist.trans h.dist
  invited := hinvited.trans h.invited
  recipients := hrecipients ▸ h.recipients
  stayed hno hmem := hmembers me (h.stayed (hclear ▸ hno) hmem)
  kept hno hno' hmem peer hpeer :=
    hmembers peer (h.kept (hclear ▸ hno) (hrotate ▸ hno') hmem peer hpeer)

theorem addMember (h : Flags me g₀ g sx) (peerId : Bytes) (role : GroupRole) (name : String)
    (addedBy : Bytes) (epoch : UInt64) :
    Flags me g₀ (g.mutateAddMember peerId role name addedBy epoch sx).2.1
      (g.mutateAddMember peerId role name addedBy epoch sx).2.2 := by
  have hjoined : (sx.joined peerId).localIdentityPub = sx.localIdentityPub ∧
      (sx.joined peerId).requestSelfChainClear = sx.requestSelfChainClear ∧
      (sx.joined peerId).requestSelfRotation = sx.requestSelfRotation := by
    rw [ApplySideEffects.joined]
    split <;> exact ⟨rfl, rfl, rfl⟩
  obtain ⟨hlocal, hclear, hrotate⟩ := hjoined
  rw [mutateAddMember]
  split
  · exact h
  dsimp only
  split
  · split
    · exact h
    split
    · exact h
    · refine h.keep hlocal hclear hrotate rfl rfl rfl rfl fun peer => ?_
      refine hasMember_updateFirst rfl fun m hp hpeer _ => ⟨?_, by rintro ⟨⟩⟩
      exact (of_decide_eq_true hp).symm.trans hpeer
  · split
    · exact h
    · refine h.keep hlocal hclear hrotate rfl rfl rfl rfl fun peer hpeer => ?_
      obtain ⟨m, hm, hrow⟩ := hasMember_iff.mp hpeer
      exact hasMember_iff.mpr ⟨m, List.mem_append_left _ hm, hrow⟩

/-- A removal sets one of the flags, or the local user was not there. -/
theorem removeMember (h : Flags me g₀ g sx) (peerId : Bytes) :
    Flags me g₀ (g.mutateRemoveMember peerId sx).2.1 (g.mutateRemoveMember peerId sx).2.2 := by
  rw [mutateRemoveMember]
  split
  · exact h
  split
  · exact h
  dsimp only
  rw [h.localId]
  dsimp only
  generalize hrows : updateFirst (fun m => m.peerId = peerId && m.status ≠ .removed)
    (fun m => { m with status := .removed }) g.members = rows
  -- everybody but the removed peer is still there
  have hothers : ∀ (dists : Dict Bytes UUID) (previous : Dict Bytes (List UUID))
      (recipients : Finset Bytes) (peer : Bytes), peer ≠ peerId → g.hasMember peer = true →
      ChatGroup.hasMember
        { g with
          members := rows
          memberDistributionIds := dists
          previousMemberDistributionIds := previous
          mySkdmRecipients := recipients } peer = true := by
    intro dists previous recipients peer hne
    refine hasMember_updateFirst hrows.symm fun m hp hpeer _ => absurd ?_ hne
    exact hpeer.symm.trans (of_decide_eq_true (Bool.and_eq_true_iff.mp hp).1)
  have hrecipients : g.mySkdmRecipients.erase peerId ⊆ g₀.mySkdmRecipients :=
    (Finset.erase_subset _ _).trans h.recipients
  split
  · exact ⟨rfl, h.id, h.dist, h.invited, hrecipients, by rintro ⟨⟩, by rintro ⟨⟩⟩
  · next hne =>
    split
    · next hmem =>
      exact ⟨rfl, h.id, h.dist, h.invited, hrecipients, fun _ _ => hmem, by rintro _ ⟨⟩⟩
    · next hgone =>
      have hstays : g.hasMember me = true → False := fun hmem =>
        hgone (hothers _ _ _ me (Ne.symm hne) hmem)
      exact ⟨h.localId, h.id, h.dist, h.invited, hrecipients,
        fun hno hmem => (hstays (h.stayed hno hmem)).elim,
        fun hno _ hmem => (hstays (h.stayed hno hmem)).elim⟩

/-- The invariant of a drain. -/
theorem keptByDrain (me : Bytes) (g₀ : ChatGroup) : KeptByDrain (Flags me g₀) where
  mutation {g sx} op h := by
    rw [executeMutation]
    have hroles : ∀ (p : GroupMember → Bool) (role : GroupRole) (sx' : ApplySideEffects),
        sx' = { sx with rolesChanged := true } →
        Flags me g₀ { g with members := updateFirst p (fun m => { m with role := role }) g.members }
          sx' := by
      rintro p role sx' rfl
      exact h.keep rfl rfl rfl rfl rfl rfl rfl fun peer =>
        hasMember_updateFirst rfl fun m _ hpeer hstatus => ⟨hpeer, hstatus⟩
    have hrefused : Flags me g₀ g { sx with rolesChanged := true } :=
      h.keep rfl rfl rfl rfl rfl rfl rfl fun _ hpeer => hpeer
    cases op.kind with
    | create => exact h
    | rename => exact h.keep rfl rfl rfl rfl rfl rfl rfl fun _ hpeer => hpeer
    | addMember peerId role name => exact h.addMember peerId role name _ _
    | removeMember peerId => exact h.removeMember peerId
    | promoteAdmin peerId =>
      dsimp only [mutatePromoteAdmin]
      split
      · exact hrefused
      · exact hroles _ _ _ rfl
    | demoteAdmin peerId =>
      dsimp only [mutateDemoteAdmin]
      split
      · exact hrefused
      split
      · exact hrefused
      · exact hroles _ _ _ rfl
    | rotateSenderKey dist =>
      obtain ⟨previous, heq⟩ := setMemberDistId_eq g dist op.operatorIdentity
      dsimp only
      rw [heq]
      exact h.keep rfl rfl rfl rfl rfl rfl rfl fun _ hpeer => hpeer
  advance _ _ h := h.keep rfl rfl rfl rfl rfl rfl rfl fun _ hpeer => hpeer
  pending _ h := h.keep rfl rfl rfl rfl rfl rfl rfl fun _ hpeer => hpeer
  equivocation _ h := h.keep rfl rfl rfl rfl rfl rfl rfl fun _ hpeer => hpeer

/-- What the record says after `apply`. -/
theorem of_apply {op : GroupOp} {outcome : ApplyOutcome}
    (h : g.apply env op { localIdentityPub := some me } = some (outcome, g', sx')) :
    Flags me g g' sx' :=
  apply_sx (keptByDrain me g) h (refl me g)

end Flags

end Pizzini.Group
