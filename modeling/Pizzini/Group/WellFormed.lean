import Mathlib.Data.List.Perm.Subperm
import Pizzini.Lib.Runs
import Pizzini.Group.ApplySpec
import Pizzini.Group.SampleEnv

/-!
# Groups stay well formed

`WellFormed` is the joint invariant of a group: distinct whole peer ids, an admin
that is still in, the member cap, a recorded digest for the current epoch, and
the two caps of the queue. `ChatGroup.create` establishes it and every `apply`
call keeps it, whatever op it is given; so does the step of a member from
`pendingSKDM` to `active`.

The second half says who can change a group. A call of `apply` is a chain of
`SignedChange`s, one for the op itself and one for each parked op it releases;
each is the effect of an op signed by a member that the group has at that moment.
-/

namespace Pizzini.Group

open Wire

/-! ## Rows -/

section Rows

variable {p q : GroupMember → Bool} {f : GroupMember → GroupMember} {ms : List GroupMember}

theorem updateFirst_cons (m : GroupMember) :
    updateFirst p f (m :: ms) = if p m then f m :: ms else m :: updateFirst p f ms := rfl

theorem map_updateFirst {β : Type} {k : GroupMember → β} (hk : ∀ m, p m = true → k (f m) = k m) :
    ∀ ms : List GroupMember, (updateFirst p f ms).map k = ms.map k
  | [] => rfl
  | m :: ms => by
    rw [updateFirst_cons]
    split
    · rename_i hp
      rw [List.map_cons, List.map_cons, hk m hp]
    · rw [List.map_cons, List.map_cons, map_updateFirst hk ms]

/-- A row of the updated table is an old one or the changed one. -/
theorem mem_updateFirst {x : GroupMember} (h : x ∈ updateFirst p f ms) :
    x ∈ ms ∨ ∃ m ∈ ms, p m = true ∧ x = f m := by
  induction ms with
  | nil => cases h
  | cons m ms ih =>
    rw [updateFirst_cons] at h
    split at h
    · rename_i hp
      rcases List.mem_cons.mp h with rfl | hx
      · exact .inr ⟨m, List.mem_cons_self, hp, rfl⟩
      · exact .inl (List.mem_cons_of_mem _ hx)
    · rcases List.mem_cons.mp h with rfl | hx
      · exact .inl List.mem_cons_self
      · rcases ih hx with hx | ⟨m', hm', hp, rfl⟩
        · exact .inl (List.mem_cons_of_mem _ hx)
        · exact .inr ⟨m', List.mem_cons_of_mem _ hm', hp, rfl⟩

/-- A row that is not up for the change stays. -/
theorem mem_updateFirst_of_not {x : GroupMember} (hx : x ∈ ms) (hp : p x = false) :
    x ∈ updateFirst p f ms := by
  induction ms with
  | nil => cases hx
  | cons m ms ih =>
    rw [updateFirst_cons]
    rcases List.mem_cons.mp hx with rfl | hx
    · rw [if_neg (by rw [hp]; exact Bool.false_ne_true)]
      exact List.mem_cons_self
    · split
      · exact List.mem_cons_of_mem _ hx
      · exact List.mem_cons_of_mem _ (ih hx)

theorem mem_updateFirst_or {x : GroupMember} (hx : x ∈ ms) :
    x ∈ updateFirst p f ms ∨ f x ∈ updateFirst p f ms := by
  induction ms with
  | nil => cases hx
  | cons m ms ih =>
    rw [updateFirst_cons]
    rcases List.mem_cons.mp hx with rfl | hx
    · split
      · exact .inr List.mem_cons_self
      · exact .inl List.mem_cons_self
    · split
      · exact .inl (List.mem_cons_of_mem _ hx)
      · exact (ih hx).imp (List.mem_cons_of_mem _) (List.mem_cons_of_mem _)

/-- One row more, at most, passes a test after the change. -/
theorem countP_updateFirst_le : (updateFirst p f ms).countP q ≤ ms.countP q + 1 := by
  induction ms with
  | nil => exact Nat.zero_le _
  | cons m ms ih =>
    rw [updateFirst_cons]
    split
    · rw [List.countP_cons, List.countP_cons]
      split <;> split <;> omega
    · rw [List.countP_cons, List.countP_cons]
      omega

theorem countP_updateFirst_le_of_imp (hq : ∀ m, p m = true → q (f m) = true → q m = true) :
    (updateFirst p f ms).countP q ≤ ms.countP q := by
  induction ms with
  | nil => exact Nat.le_refl _
  | cons m ms ih =>
    rw [updateFirst_cons]
    split
    · rename_i hp
      rw [List.countP_cons, List.countP_cons]
      by_cases hm : q (f m) = true
      · rw [if_pos hm, if_pos (hq m hp hm)]
      · rw [if_neg hm]
        omega
    · rw [List.countP_cons, List.countP_cons]
      omega

end Rows

/-- Rows with one peer id are one row. -/
theorem eq_of_peerId_eq {ms : List GroupMember} (hdistinct : (ms.map GroupMember.peerId).Nodup)
    {a b : GroupMember} (ha : a ∈ ms) (hb : b ∈ ms) (h : a.peerId = b.peerId) : a = b :=
  List.inj_on_of_nodup_map hdistinct ha hb h

/-! ## The member table -/

/-- What the member table of a group always is. -/
structure MembersOk (ms : List GroupMember) : Prop where
  distinct : (ms.map GroupMember.peerId).Nodup
  sized : ∀ m ∈ ms, m.peerId.length = identityKeySize
  admin : ∃ m ∈ ms, m.role = .admin ∧ m.status ≠ .removed
  cap : ms.countP (fun m => m.status ≠ .removed) ≤ maxMembers

namespace ChatGroup

variable {env : GroupEnv} {op : GroupOp} {g g' : ChatGroup}

theorem length_activeMembers (g : ChatGroup) :
    g.activeMembers.length = g.members.countP fun m => m.status ≠ .removed :=
  List.countP_eq_length_filter.symm

/-- When `peerId` is not the last admin there is another one. -/
theorem exists_other_admin (hok : MembersOk g.members) {peerId : Bytes}
    (hspare : g.isLastAdmin peerId = false) :
    ∃ m ∈ g.members, m.role = .admin ∧ m.status ≠ .removed ∧ m.peerId ≠ peerId := by
  by_contra hnone
  have hall : ∀ m ∈ g.members, m.role = .admin → m.status ≠ .removed → m.peerId = peerId := by
    intro m hm hrole hstatus
    by_contra hne
    exact hnone ⟨m, hm, hrole, hstatus, hne⟩
  have hsub : g.activeAdmins.Sublist g.members :=
    List.filter_sublist.trans List.filter_sublist
  have hadmins : ∀ m ∈ g.activeAdmins, m.peerId = peerId := by
    intro m hm
    have hrole := List.mem_filter.mp hm
    have hstatus := List.mem_filter.mp hrole.1
    exact hall m hstatus.1 (of_decide_eq_true hrole.2) (of_decide_eq_true hstatus.2)
  have hnodup : (g.activeAdmins.map GroupMember.peerId).Nodup :=
    hok.distinct.sublist (hsub.map _)
  obtain ⟨a, ha, hrole, hstatus⟩ := hok.admin
  have hmem : a ∈ g.activeAdmins :=
    List.mem_filter.mpr ⟨List.mem_filter.mpr ⟨ha, decide_eq_true hstatus⟩, decide_eq_true hrole⟩
  -- all of them have the one peer id, and peer ids are distinct: there is only one
  rw [isLastAdmin] at hspare
  cases hadm : g.activeAdmins with
  | nil => rw [hadm] at hmem; cases hmem
  | cons x xs =>
    rw [hadm] at hspare hnodup hadmins
    cases xs with
    | nil => exact of_decide_eq_false hspare (hadmins x List.mem_cons_self)
    | cons y ys =>
      have hx := hadmins x List.mem_cons_self
      have hy := hadmins y (List.mem_cons_of_mem _ List.mem_cons_self)
      rw [List.map_cons, List.map_cons, List.nodup_cons] at hnodup
      exact hnodup.1 (by rw [hx, hy]; exact List.mem_cons_self)

/-- Changing status or role of the row of `peerId` keeps the table in order if an
admin other than `peerId` remains or the change makes an admin. -/
theorem membersOk_updateFirst {ms : List GroupMember} {p : GroupMember → Bool}
    {f : GroupMember → GroupMember} (hok : MembersOk ms) (hpeer : ∀ m, (f m).peerId = m.peerId)
    (hstatus : ∀ m, p m = true → (f m).status ≠ .removed → m.status ≠ .removed)
    (hadmin : ∃ m ∈ updateFirst p f ms, m.role = .admin ∧ m.status ≠ .removed) :
    MembersOk (updateFirst p f ms) where
  distinct := by
    rw [map_updateFirst fun m _ => hpeer m]
    exact hok.distinct
  sized := by
    intro m hm
    rcases mem_updateFirst hm with hm | ⟨m', hm', -, rfl⟩
    · exact hok.sized m hm
    · rw [hpeer]
      exact hok.sized m' hm'
  admin := hadmin
  cap := by
    refine Nat.le_trans (countP_updateFirst_le_of_imp fun m hp hm => ?_) hok.cap
    exact decide_eq_true (hstatus m hp (of_decide_eq_true hm))

/-- Every effect keeps the member table in order. -/
theorem Effect.membersOk (h : Effect op g g') (hok : MembersOk g.members) :
    MembersOk g'.members := by
  have hactive := length_activeMembers g
  cases h with
  | readd kind size found removed cap =>
    rename_i peerId role name old
    have hold := List.mem_of_find?_eq_some found
    have hold_id : old.peerId = peerId := by simpa using List.find?_some found
    refine ⟨?_, ?_, ?_, ?_⟩
    · rw [map_updateFirst fun m hm => (of_decide_eq_true hm).symm]
      exact hok.distinct
    · intro m hm
      rcases mem_updateFirst hm with hm | ⟨m', -, -, rfl⟩
      · exact hok.sized m hm
      · exact size
    · obtain ⟨a, ha, hrole, hstatus⟩ := hok.admin
      have hne : ¬ a.peerId = peerId := by
        intro heq
        have haold := eq_of_peerId_eq hok.distinct ha hold (heq.trans hold_id.symm)
        exact hstatus (haold ▸ removed)
      exact ⟨a, mem_updateFirst_of_not ha (decide_eq_false hne), hrole, hstatus⟩
    · exact Nat.le_trans countP_updateFirst_le (by omega)
  | add kind size absent cap =>
    rename_i peerId role name
    have hnew : ∀ m ∈ g.members, m.peerId ≠ peerId := by
      intro m hm heq
      exact absurd (decide_eq_true heq) (List.find?_eq_none.mp absent m hm)
    refine ⟨?_, ?_, ?_, ?_⟩
    · rw [List.map_append, List.nodup_append]
      refine ⟨hok.distinct, by simp, ?_⟩
      intro x hx y hy
      obtain ⟨m, hm, rfl⟩ := List.mem_map.mp hx
      rw [List.map_singleton, List.mem_singleton] at hy
      subst hy
      exact hnew m hm
    · intro m hm
      rcases List.mem_append.mp hm with hm | hm
      · exact hok.sized m hm
      · cases List.mem_singleton.mp hm
        exact size
    · obtain ⟨a, ha, hadmin⟩ := hok.admin
      exact ⟨a, List.mem_append_left _ ha, hadmin⟩
    · rw [List.countP_append, List.countP_singleton]
      split <;> omega
  | remove kind present spare =>
    obtain ⟨a, ha, hrole, hstatus, hne⟩ := exists_other_admin hok spare
    refine membersOk_updateFirst hok (fun _ => rfl) (fun _ _ h => absurd rfl h) ?_
    exact ⟨a, mem_updateFirst_of_not ha (by simp [hne]), hrole, hstatus⟩
  | rename kind => exact hok
  | promote kind present =>
    refine membersOk_updateFirst hok (fun _ => rfl) (fun _ _ h => h) ?_
    obtain ⟨a, ha, hrole, hstatus⟩ := hok.admin
    rcases mem_updateFirst_or ha with hmem | hmem
    · exact ⟨a, hmem, hrole, hstatus⟩
    · exact ⟨_, hmem, rfl, hstatus⟩
  | demote kind present spare =>
    obtain ⟨a, ha, hrole, hstatus, hne⟩ := exists_other_admin hok spare
    refine membersOk_updateFirst hok (fun _ => rfl) (fun _ _ h => h) ?_
    exact ⟨a, mem_updateFirst_of_not ha (by simp [hne]), hrole, hstatus⟩
  | rotate kind =>
    rename_i dist
    obtain ⟨prev, hprev⟩ := setMemberDistId_eq g dist op.operatorIdentity
    rw [hprev]
    exact hok

/-! ## The queue -/

/-- The two caps of the queue of parked ops. -/
structure QueueOk (pendingOps : List Bytes) : Prop where
  total : pendingOps.length ≤ pendingOpsCap
  perOperator : ∀ operatorIdentity, parkedBy pendingOps operatorIdentity ≤ pendingOpsPerOperatorCap

theorem QueueOk.of_subperm {p p' : List Bytes} (h : QueueOk p) (hsub : p'.Subperm p) :
    QueueOk p' where
  total := Nat.le_trans hsub.length_le h.total
  perOperator := fun operator => Nat.le_trans (hsub.countP_le _) (h.perOperator operator)

theorem parkedBy_snoc {bytes : Bytes} (h : GroupOp.decode bytes = some op) (p : List Bytes)
    (operator : Bytes) :
    parkedBy (p ++ [bytes]) operator =
      parkedBy p operator + if op.operatorIdentity = operator then 1 else 0 := by
  rw [parkedBy, List.countP_append, List.countP_singleton, h]
  simp [parkedBy]

theorem queueOk_queuePending (h : QueueOk g.pendingOps) (bytes : Bytes) :
    QueueOk (g.queuePending bytes).pendingOps := by
  rw [queuePending]
  split
  · exact h
  · rename_i htotal
    split
    · exact h
    · split
      · rename_i incoming hdecode
        split
        · exact h
        · rename_i hper
          constructor
          · rw [List.length_append, List.length_singleton]
            omega
          · intro operator
            have hold := h.perOperator operator
            rw [parkedBy_snoc hdecode]
            by_cases hsame : incoming.operatorIdentity = operator
            · rw [if_pos hsame, ← hsame]
              omega
            · rw [if_neg hsame]
              exact hold
      · rename_i hdecode
        constructor
        · rw [List.length_append, List.length_singleton]
          omega
        · intro operator
          rw [parkedBy, List.countP_append, List.countP_singleton, hdecode,
            if_neg Bool.false_ne_true]
          exact h.perOperator operator

theorem decodePending_sublist (p : List Bytes) :
    ((decodePending p).map Prod.snd).Sublist p := by
  induction p with
  | nil => exact List.Sublist.refl _
  | cons bytes p ih =>
    rw [decodePending, List.filterMap_cons]
    cases GroupOp.decode bytes with
    | none => exact ih.cons _
    | some op => exact ih.cons_cons _

/-- The drained queue holds nothing new. -/
theorem drain_kept_subperm {r : List Bytes × ChatGroup} {p : List Bytes}
    (h : drain env (sortByEpoch (decodePending p)) g = some r) : r.1.Subperm p := by
  have hperm : (sortByEpoch (decodePending p)).Perm (decodePending p) :=
    List.perm_insertionSort _ _
  have hsorted := (drain_kept_sublist h).subperm
  have hdecoded := (hperm.map Prod.snd).subperm
  exact (hsorted.trans hdecoded).trans (decodePending_sublist p).subperm

/-! ## The invariant -/

/-- What holds of a group in every state of every run. -/
structure WellFormed (g : ChatGroup) : Prop where
  members : MembersOk g.members
  recent : g.digest g.currentEpoch = some g.lastOpDigest
  queue : QueueOk g.pendingOps

/-- The precondition of `memberSetRoot` cannot fail in a well-formed group. -/
theorem WellFormed.memberSetRoot_isSome (h : WellFormed g) (hrows : g.members.length < 2 ^ 32) :
    (g.memberSetRoot env).isSome = true := by
  rw [memberSetRoot, memberSetRootOf, if_pos ⟨hrows, h.members.sized⟩]
  rfl

theorem Lands.wellFormed {d : Bytes} (h : Lands env op d g g') (hg : WellFormed g) :
    WellFormed g' := by
  obtain ⟨g₁, hmutate, rfl⟩ := h.mutated
  have heffect := mutate_effect hmutate
  refine ⟨heffect.membersOk hg.members, digest_recordDigest_self _ d op.epoch, ?_⟩
  obtain ⟨name, members, dist, prev, skdm, rfl⟩ := heffect.frame
  exact hg.queue

/-- A group that `create` returns for a decoded op is well formed. -/
theorem wellFormed_create {wire signedBytes : Bytes} (hdecode : GroupOp.decode wire = some op)
    (h : create env op signedBytes = some g) : WellFormed g := by
  rw [create] at h
  split at h
  · rename_i name initialMembers hkind
    split at h
    · cases h
    split at h
    · cases h
    split at h
    · cases h
    split at h
    · cases h
    rename_i hcount
    split at h
    · cases h
    rename_i hoperator
    split at h
    · cases h
    rename_i hdistinct
    cases h
    refine ⟨⟨?_, ?_, ?_, ?_⟩, ?_, ⟨Nat.zero_le _, fun _ => Nat.zero_le _⟩⟩
    · rw [List.map_map]
      exact Classical.not_not.mp hdistinct
    · intro m hm
      obtain ⟨spec, hspec, rfl⟩ := List.mem_map.mp hm
      exact (GroupOp.decode_sizes hdecode).2 hkind spec hspec
    · obtain ⟨spec, hspec, hid⟩ := List.any_eq_true.mp (Classical.not_not.mp hoperator)
      refine ⟨_, List.mem_map.mpr ⟨spec, hspec, rfl⟩, ?_, ?_⟩
      · exact if_pos (of_decide_eq_true hid)
      · exact MemberStatus.noConfusion
    · refine Nat.le_trans List.countP_le_length ?_
      rw [List.length_map]
      exact Nat.le_of_not_lt hcount
    · exact AList.lookup_insert _
  · cases h

/-- A member's step from `pendingSKDM` to `active`, as when its sender key
arrives (`ChatStoreGroups.swift:1773`). -/
def flipActive (g : ChatGroup) (peerId : Bytes) : ChatGroup :=
  { g with
    members := updateFirst (fun m => m.peerId = peerId && m.status = .pendingSKDM)
      (fun m => { m with status := .active }) g.members }

theorem wellFormed_flipActive (h : WellFormed g) (peerId : Bytes) :
    WellFormed (g.flipActive peerId) := by
  refine ⟨membersOk_updateFirst h.members (fun _ => rfl) ?_ ?_, h.recent, h.queue⟩
  · intro m hp _ hremoved
    simp [hremoved] at hp
  · obtain ⟨a, ha, hrole, hstatus⟩ := h.members.admin
    rcases mem_updateFirst_or ha with hmem | hmem
    · exact ⟨a, hmem, hrole, hstatus⟩
    · exact ⟨_, hmem, hrole, MemberStatus.noConfusion⟩

/-! ## Who changes a group -/

/-- One op takes effect on the group: it is validly signed, at the next epoch, by
an identity that has a row there which is not removed. A `RotateSenderKey`
touches no distribution id but the signer's, and no row; every other kind comes
from an admin. -/
structure SignedChange (env : GroupEnv) (g g' : ChatGroup) (op : GroupOp) : Prop where
  signed : op.verifySignature env = true
  epoch : nextEpoch g.currentEpoch = some op.epoch
  lands : ∃ d, Lands env op d g g'
  member : g.hasMember op.operatorIdentity = true
  rights : g.hasAdmin op.operatorIdentity = true ∨
    (∃ dist, op.kind = .rotateSenderKey dist) ∧ g'.members = g.members ∧
      g'.displayName = g.displayName ∧
      ∀ peer ≠ op.operatorIdentity,
        g'.memberDistributionIds.lookup peer = g.memberDistributionIds.lookup peer

theorem hasMember_of_hasAdmin {peerId : Bytes} (h : g.hasAdmin peerId = true) :
    g.hasMember peerId = true := by
  obtain ⟨m, hm, hadmin⟩ := List.any_eq_true.mp h
  refine List.any_eq_true.mpr ⟨m, hm, ?_⟩
  simp only [Bool.and_eq_true] at hadmin ⊢
  exact ⟨hadmin.1.1, hadmin.2⟩

theorem Lands.signedChange {d : Bytes} (h : Lands env op d g g')
    (hsig : op.verifySignature env = true) (hnext : nextEpoch g.currentEpoch = some op.epoch) :
    SignedChange env g g' op := by
  have hauth := h.authorised
  obtain ⟨g₁, hmutate, hadvance⟩ := h.mutated
  cases hkind : op.kind with
  | rotateSenderKey dist =>
    rw [hkind] at hauth
    refine ⟨hsig, hnext, ⟨d, h⟩, hauth, .inr ⟨⟨dist, hkind⟩, ?_⟩⟩
    obtain ⟨prev, hprev⟩ := setMemberDistId_eq g dist op.operatorIdentity
    have hrotated : g₁ = g.setMemberDistId dist op.operatorIdentity := by
      cases mutate_effect hmutate with
      | rotate kind =>
        rw [hkind] at kind
        cases kind
        rfl
      | readd kind | add kind | remove kind | rename kind | promote kind | demote kind =>
        rw [hkind] at kind
        cases kind
    rw [hadvance, hrotated, hprev]
    exact ⟨rfl, rfl, fun peer hne => AList.lookup_insert_ne hne⟩
  | create =>
    rw [hkind] at hauth
    cases hauth
  | addMember | removeMember | rename | promoteAdmin | demoteAdmin =>
    rw [hkind] at hauth
    exact ⟨hsig, hnext, ⟨d, h⟩, hasMember_of_hasAdmin hauth, .inl hauth⟩

/-- The group went from `g` to `g'` by signed changes, up to its queue. -/
def SignedHistory (env : GroupEnv) (g g' : ChatGroup) : Prop :=
  Relation.ReflTransGen (fun h h' => ∃ op, SignedChange env h h' op) g
    (g'.withPending g.pendingOps)

theorem WellFormed.withPending {p : List Bytes} (h : WellFormed g) (hp : QueueOk p) :
    WellFormed (g.withPending p) :=
  ⟨h.members, h.recent, hp⟩

/-- The replay changes the group by signed changes only, and keeps it well formed. -/
theorem replay_sound {g₀ : ChatGroup} (h : replay env g = some g')
    (hhistory : SignedHistory env g₀ g) (hpending : g.pendingOps = g₀.pendingOps) :
    SignedHistory env g₀ g' ∧ (WellFormed g → WellFormed g') := by
  obtain ⟨⟨kept, g₁⟩, hdrain, rfl⟩ := Option.map_eq_some_iff.mp h
  refine ⟨?_, fun hg => ?_⟩
  · have hdrained : g₁.pendingOps = g₀.pendingOps ∧ SignedHistory env g₀ g₁ := by
      refine drain_invariant
        (fun h => h.pendingOps = g₀.pendingOps ∧ SignedHistory env g₀ h) ?_ hdrain
        ⟨hpending, hhistory⟩
      intro op bytes h h' hsig hnext hlands hh
      have hpend' : h'.pendingOps = g₀.pendingOps := hlands.frame.2.2.2.trans hh.1
      refine ⟨hpend', ?_⟩
      rw [SignedHistory, ← hpend', withPending_self]
      refine Relation.ReflTransGen.tail ?_ ⟨op, hlands.signedChange hsig hnext⟩
      rw [← withPending_self h, hh.1]
      exact hh.2
    exact hdrained.2
  · have hdrained : WellFormed g₁ :=
      drain_invariant WellFormed (fun _ _ hlands => hlands.wellFormed) hdrain hg
    exact hdrained.withPending (hg.queue.of_subperm (drain_kept_subperm hdrain))

/-- A call of `apply` changes the group by signed changes only, and keeps it well
formed. -/
theorem applyStep_sound {me : Option Bytes} {r : ApplyOutcome × ChatGroup}
    (h : applyStep env me op g = some r) :
    SignedHistory env g r.2 ∧ (WellFormed g → WellFormed r.2) := by
  rcases applyStep_cases h with ⟨hsame, -⟩ | ⟨bytes, -, -, rfl⟩ | hlanded
  · rw [hsame]
    exact ⟨.refl, fun hg => hg⟩
  · rw [queuePending_eq]
    exact ⟨.refl, fun hg => hg.withPending (queueOk_queuePending hg.queue bytes)⟩
  · obtain ⟨bytes, g₁, -, -, hsig, hnext, hlands, -, hreplay⟩ := hlanded
    have hpending := hlands.frame.2.2.2
    have hfirst : SignedHistory env g g₁ := by
      rw [SignedHistory, ← hpending, withPending_self]
      exact .single ⟨op, hlands.signedChange hsig hnext⟩
    obtain ⟨hhistory, hwell⟩ := replay_sound hreplay hfirst hpending
    exact ⟨hhistory, fun hg => hwell (hlands.wellFormed hg)⟩

/-! ## Runs -/

/-- What can happen to a group: an op is given to `apply`, with side effects
accumulated so far, or a member's sender key arrives. -/
inductive GroupEvent where
  | apply (op : GroupOp) (sx : ApplySideEffects)
  | flip (peerId : Bytes)

/-- One event. The ops are decoded ones; a call that traps ends the run. -/
def GroupStep (env : GroupEnv) (g : ChatGroup) : GroupEvent → ChatGroup → Prop
  | .apply op sx, g' =>
    (∃ wire, GroupOp.decode wire = some op) ∧
      ∃ outcome sx', ChatGroup.apply env op g sx = some (outcome, g', sx')
  | .flip peerId, g' => g' = g.flipActive peerId

/-- `g'` is `g` but for the status of its rows. -/
def SameButStatus (g g' : ChatGroup) : Prop :=
  g' = { g with members := g'.members } ∧
    g'.members.map (fun m => { m with status := .active }) =
      g.members.map fun m => { m with status := .active }

theorem sameButStatus_flipActive (g : ChatGroup) (peerId : Bytes) :
    SameButStatus g (g.flipActive peerId) := by
  refine ⟨rfl, ?_⟩
  apply map_updateFirst
  intro m _
  rfl

theorem apply_sound {outcome : ApplyOutcome} {sx sx' : ApplySideEffects}
    (h : ChatGroup.apply env op g sx = some (outcome, g', sx')) :
    SignedHistory env g g' ∧ (WellFormed g → WellFormed g') := by
  have hstep : applyStep env sx.localIdentityPub op g = some (outcome, g') := by
    rw [← apply_applyStep, h]
    rfl
  exact applyStep_sound hstep

theorem groupStep_wellFormed {e : GroupEvent} (hg : WellFormed g) (h : GroupStep env g e g') :
    WellFormed g' := by
  cases e with
  | apply op sx =>
    obtain ⟨-, outcome, sx', happly⟩ := h
    exact (apply_sound happly).2 hg
  | flip peerId =>
    rw [show g' = g.flipActive peerId from h]
    exact wellFormed_flipActive hg peerId

end ChatGroup

open ChatGroup

/-- Every group that comes from a decoded Create op by any sequence of `apply`
calls and member activations is well formed; the next event changes it by signed
changes of members that the group then has, or is an activation. -/
theorem group_wellFormed_of_run {env : GroupEnv} {wire signedBytes : Bytes} {op : GroupOp}
    {g₀ g : ChatGroup} (hdecode : GroupOp.decode wire = some op)
    (hcreate : ChatGroup.create env op signedBytes = some g₀)
    (hrun : Runs.Reach (GroupStep env) (fun _ _ => True) g₀ g) :
    WellFormed g ∧ (g.members.length < 2 ^ 32 → (g.memberSetRoot env).isSome = true) ∧
      ∀ (e : GroupEvent) (g' : ChatGroup), GroupStep env g e g' →
        match e with
        | .apply _ _ => SignedHistory env g g'
        | .flip _ => SameButStatus g g' := by
  have hwell : WellFormed g :=
    hrun.invariant WellFormed (fun hg _ hstep => groupStep_wellFormed hg hstep)
      (wellFormed_create hdecode hcreate)
  refine ⟨hwell, hwell.memberSetRoot_isSome, ?_⟩
  intro e g' hstep
  cases e with
  | apply op sx =>
    obtain ⟨-, outcome, sx', happly⟩ := hstep
    exact (apply_sound happly).1
  | flip peerId =>
    rw [show g' = g.flipActive peerId from hstep]
    exact sameButStatus_flipActive g peerId

/-- The sample group with peer 3. -/
def sampleGrown : ChatGroup :=
  ((ChatGroup.apply sampleEnv sampleAdd sampleGroup {}).get (by decide +kernel)).2.1

theorem apply_get {env : GroupEnv} {op : GroupOp} {g : ChatGroup} {sx : ApplySideEffects}
    (h : (ChatGroup.apply env op g sx).isSome = true) :
    ∃ outcome sx', ChatGroup.apply env op g sx =
      some (outcome, ((ChatGroup.apply env op g sx).get h).2.1, sx') :=
  ⟨_, _, (Option.some_get h).symm⟩

theorem group_wellFormed_of_run_grown :
    WellFormed (sampleGrown.flipActive (samplePeer 3)) ∧ sampleGrown.members.length = 3 := by
  have hadd : GroupStep sampleEnv sampleGroup (.apply sampleAdd {}) sampleGrown :=
    ⟨⟨sampleAdd.wire, by decide +kernel⟩, apply_get _⟩
  have hrun : Runs.Reach (GroupStep sampleEnv) (fun _ _ => True) sampleGroup
      (sampleGrown.flipActive (samplePeer 3)) :=
    (Runs.Reach.refl.snoc hadd trivial).snoc (e := .flip (samplePeer 3)) rfl trivial
  have hdecode : GroupOp.decode (sampleCreate [1, 2]).wire = some (sampleCreate [1, 2]) := by
    decide +kernel
  exact ⟨(group_wellFormed_of_run hdecode (Option.some_get _).symm hrun).1, by decide +kernel⟩

end Pizzini.Group
