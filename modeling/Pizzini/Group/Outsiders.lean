import Pizzini.Lib.Erased
import Pizzini.Group.WellFormed

/-!
# Ops of outsiders

An identity that never has a row in a group can still sign ops for it. Two runs
are compared: the one that gets every op, and the one from which the ops of such
outsiders are left out. They agree on everything but the queue, where the second
lacks ops of outsiders only (`Erased`), as long as

- no op of an outsider arrives at the last epoch, where any signed op traps;
- no member's op finds the queue full because outsiders' ops fill it.

The queue has one cap for all operators and a smaller one for each, and an
identity costs nothing: sixteen outsiders fill it.
-/

namespace Pizzini.Group

open Wire ChatGroup

variable {env : GroupEnv} {me : Option Bytes} {op : GroupOp} {g g' : ChatGroup} {who : Bytes}

/-! ## Rows -/

namespace ChatGroup

/-- `peerId` has a row, removed or not. -/
def hasRow (g : ChatGroup) (peerId : Bytes) : Bool := g.members.any fun m => m.peerId = peerId

theorem hasRow_iff : g.hasRow who = true ↔ who ∈ g.members.map GroupMember.peerId := by
  simp [hasRow]

theorem hasRow_of_hasMember (h : g.hasMember who = true) : g.hasRow who = true := by
  obtain ⟨m, hm, hid⟩ := List.any_eq_true.mp h
  exact List.any_eq_true.mpr ⟨m, hm, (Bool.and_eq_true_iff.mp hid).1⟩

/-- An effect adds at most one row and takes none away. -/
theorem Effect.rows (h : Effect op g g') :
    ∃ added, g'.members.map GroupMember.peerId = g.members.map GroupMember.peerId ++ added ∧
      added.length ≤ 1 ∧ ∀ peerId ∈ added, peerId.length = identityKeySize := by
  cases h with
  | readd kind size found removed cap =>
    refine ⟨[], ?_, by simp, by simp⟩
    rw [map_updateFirst fun m hm => (of_decide_eq_true hm).symm, List.append_nil]
  | add kind size absent cap =>
    refine ⟨[_], List.map_append, by simp, ?_⟩
    intro peerId hmem
    rw [List.mem_singleton] at hmem
    rw [hmem]
    exact size
  | remove | promote | demote =>
    refine ⟨[], ?_, by simp, by simp⟩
    rw [List.append_nil]
    apply map_updateFirst
    intro m _
    rfl
  | rename kind => exact ⟨[], (List.append_nil _).symm, by simp, by simp⟩
  | rotate kind =>
    rename_i dist
    obtain ⟨prev, hprev⟩ := setMemberDistId_eq g dist op.operatorIdentity
    rw [hprev]
    exact ⟨[], (List.append_nil _).symm, by simp, by simp⟩

theorem Lands.rows {d : Bytes} (h : Lands env op d g g') :
    ∃ added, g'.members.map GroupMember.peerId = g.members.map GroupMember.peerId ++ added ∧
      added.length ≤ 1 ∧ ∀ peerId ∈ added, peerId.length = identityKeySize := by
  obtain ⟨g₁, hmutate, rfl⟩ := h.mutated
  exact (mutate_effect hmutate).rows

theorem Lands.hasRow {d : Bytes} (h : Lands env op d g g') (hrow : g.hasRow who = true) :
    g'.hasRow who = true := by
  obtain ⟨added, hrows, -⟩ := h.rows
  rw [hasRow_iff] at hrow ⊢
  rw [hrows]
  exact List.mem_append_left _ hrow

theorem Lands.members_length_le {d : Bytes} (h : Lands env op d g g') :
    g'.members.length ≤ g.members.length + 1 := by
  obtain ⟨added, hrows, hone, -⟩ := h.rows
  have hlen : g'.members.length = g.members.length + added.length := by
    simpa using congrArg List.length hrows
  omega

theorem drain_hasRow {entries : List (GroupOp × Bytes)} {r : List Bytes × ChatGroup}
    (h : drain env entries g = some r) (hrow : g.hasRow who = true) : r.2.hasRow who = true :=
  drain_invariant (fun g => g.hasRow who = true) (fun _ _ hlands => Lands.hasRow hlands) h hrow

theorem hasRow_false_of_drain {entries : List (GroupOp × Bytes)} {r : List Bytes × ChatGroup}
    (h : drain env entries g = some r) (hrow : r.2.hasRow who = false) : g.hasRow who = false := by
  by_contra hyes
  rw [drain_hasRow h (by simpa using hyes)] at hrow
  cases hrow

/-! ## When `memberSetRoot` does not trap -/

/-- The table can be hashed now and after `n` more effects. -/
def Hashable (g : ChatGroup) (n : Nat) : Prop :=
  g.members.length + n < 2 ^ 32 ∧ ∀ m ∈ g.members, m.peerId.length = identityKeySize

theorem Hashable.lands {d : Bytes} {n : Nat} (h : Hashable g (n + 1)) (hlands : Lands env op d g g') :
    Hashable g' n := by
  obtain ⟨added, hrows, hone, hsize⟩ := hlands.rows
  have hlen : g'.members.length = g.members.length + added.length := by
    simpa using congrArg List.length hrows
  have hsmall := h.1
  refine ⟨by omega, fun m hm => ?_⟩
  have hmem : m.peerId ∈ g.members.map GroupMember.peerId ++ added :=
    hrows ▸ List.mem_map_of_mem hm
  rcases List.mem_append.mp hmem with hold | hnew
  · obtain ⟨m', hm', heq⟩ := List.mem_map.mp hold
    rw [← heq]
    exact h.2 m' hm'
  · exact hsize _ hnew

theorem Hashable.land_isSome {n : Nat} (h : Hashable g n) (env : GroupEnv) (op : GroupOp)
    (d : Bytes) :
    ∃ r, land env op d g = some r := by
  have hroot : ∃ root, g.memberSetRoot env = some root := by
    rw [memberSetRoot, memberSetRootOf, if_pos ⟨by have := h.1; omega, h.2⟩]
    exact ⟨_, rfl⟩
  obtain ⟨root, hroot⟩ := hroot
  rw [land, memberSetRootMismatch, hroot]
  split
  · exact ⟨_, rfl⟩
  · split
    · exact ⟨_, rfl⟩
    · rw [Option.map_some]
      split
      · rename_i hnone
        cases hnone
      · exact ⟨_, rfl⟩
      · cases g.mutate op with
        | ok g' => exact ⟨_, rfl⟩
        | error reason => exact ⟨_, rfl⟩

/-- The replay does not trap. -/
theorem Hashable.drain_isSome {entries : List (GroupOp × Bytes)}
    (h : Hashable g entries.length) : ∃ r, drain env entries g = some r := by
  induction entries generalizing g with
  | nil => exact ⟨_, rfl⟩
  | cons e entries ih =>
    obtain ⟨op, bytes⟩ := e
    have hless : Hashable g entries.length :=
      ⟨by have hlt := h.1; rw [List.length_cons] at hlt; omega, h.2⟩
    obtain ⟨r, hrest⟩ := ih hless
    rw [drain]
    split
    · exact ⟨r, hrest⟩
    · split
      · split
        · obtain ⟨⟨outcome, landed⟩, hland⟩ := h.land_isSome env op (env.hash bytes)
          rw [hland]
          rcases land_cases hland with ⟨-, hlands⟩ | ⟨-, hsame⟩
          · exact ih (h.lands hlands)
          · cases hsame
            exact ⟨r, hrest⟩
        · exact ⟨r, hrest⟩
      · rw [hrest]
        exact ⟨_, rfl⟩

end ChatGroup

/-! ## Two queues -/

section Queues

variable (out : Bytes → Bool) (parked₀ : List Bytes)

/-- The bytes of an outsider's op, parked since the start of the run. -/
def OutsiderBytes (bytes : Bytes) : Prop :=
  bytes ∉ parked₀ ∧ ∃ op, GroupOp.decode bytes = some op ∧ out op.operatorIdentity = true

/-- The entry of such an op. -/
def OutsiderEntry (e : GroupOp × Bytes) : Prop :=
  OutsiderBytes out parked₀ e.2 ∧ out e.1.operatorIdentity = true

variable {out parked₀} {pF pK : List Bytes}

theorem erased_sortByEpoch (h : List.Erased (OutsiderBytes out parked₀) pF pK) :
    List.Erased (OutsiderEntry out parked₀) (sortByEpoch (decodePending pF))
      (sortByEpoch (decodePending pK)) := by
  have htrans : IsTrans (GroupOp × Bytes) fun a b => a.1.epoch ≤ b.1.epoch :=
    ⟨fun _ _ _ hab hbc => UInt64.le_trans hab hbc⟩
  have htotal : Std.Total fun a b : GroupOp × Bytes => a.1.epoch ≤ b.1.epoch :=
    ⟨fun a b => UInt64.le_total a.1.epoch b.1.epoch⟩
  refine List.Erased.insertionSort (h.filterMap ?_)
  intro bytes e houtsider hdecode
  obtain ⟨op, hop, rfl⟩ := Option.map_eq_some_iff.mp hdecode
  obtain ⟨hnew, op', hop', hout⟩ := houtsider
  cases hop.symm.trans hop'
  exact ⟨⟨hnew, op, hop, hout⟩, hout⟩

/-- Only members pass the rights check. -/
theorem land_outsider {d : Bytes} (hrow : g.hasRow op.operatorIdentity = false) :
    ∃ outcome, land env op d g = some (outcome, g) ∧ ∀ e, outcome ≠ .applied e := by
  rw [land]
  split
  · exact ⟨_, rfl, by simp⟩
  · have hno : g.isAuthorised op.operatorIdentity op.kind = false := by
      by_contra hyes
      have hyes : g.isAuthorised op.operatorIdentity op.kind = true := by simpa using hyes
      have hmember : g.hasMember op.operatorIdentity = true := by
        cases hkind : op.kind with
        | rotateSenderKey dist =>
          rw [hkind] at hyes
          exact hyes
        | create =>
          rw [hkind] at hyes
          cases hyes
        | addMember | removeMember | rename | promoteAdmin | demoteAdmin =>
          rw [hkind] at hyes
          exact hasMember_of_hasAdmin hyes
      rw [hasRow_of_hasMember hmember] at hrow
      cases hrow
    rw [if_pos (by rw [hno]; exact Bool.false_ne_true)]
    exact ⟨_, rfl, by simp⟩

/-- Replaying the queue with and without the outsiders' ops gives one group, and
related queues. -/
theorem drain_erased {eF eK : List (GroupOp × Bytes)} {r : List Bytes × ChatGroup}
    (h : List.Erased (OutsiderEntry out parked₀) eF eK) (hF : drain env eF g = some r)
    (hrows : ∀ who, out who = true → r.2.hasRow who = false) :
    ∃ keptK, drain env eK g = some (keptK, r.2) ∧
      List.Erased (OutsiderBytes out parked₀) r.1 keptK := by
  induction h generalizing g r with
  | nil =>
    cases hF
    exact ⟨[], rfl, .nil⟩
  | keep e hrest ih =>
    obtain ⟨op, bytes⟩ := e
    rw [drain] at hF ⊢
    split
    · rename_i hpast
      rw [if_pos hpast] at hF
      exact ih hF hrows
    · rename_i hpast
      rw [if_neg hpast] at hF
      split
      · rename_i hnext
        rw [if_pos hnext] at hF
        split
        · rename_i hsig
          rw [if_pos hsig] at hF
          obtain ⟨landed, hland, hF⟩ := Option.bind_eq_some_iff.mp hF
          rw [hland]
          exact ih hF hrows
        · rename_i hsig
          rw [if_neg hsig] at hF
          exact ih hF hrows
      · rename_i hnext
        rw [if_neg hnext] at hF
        obtain ⟨r', hrun, rfl⟩ := Option.map_eq_some_iff.mp hF
        obtain ⟨keptK, hK, herased⟩ := ih hrun hrows
        exact ⟨bytes :: keptK, by rw [hK]; rfl, .keep bytes herased⟩
  | drop he hrest ih =>
    rename_i e eF eK
    obtain ⟨op, bytes⟩ := e
    obtain ⟨hbytes, hout⟩ := he
    have hrow : g.hasRow op.operatorIdentity = false :=
      hasRow_false_of_drain hF (hrows _ hout)
    rw [drain] at hF
    split at hF
    · exact ih hF hrows
    · split at hF
      · split at hF
        · -- the outsider's turn: it is refused and the entry goes
          obtain ⟨outcome, hland, -⟩ := land_outsider hrow
          rw [hland] at hF
          exact ih hF hrows
        · exact ih hF hrows
      · obtain ⟨r', hrun, rfl⟩ := Option.map_eq_some_iff.mp hF
        obtain ⟨keptK, hK, herased⟩ := ih hrun hrows
        exact ⟨keptK, hK, .drop hbytes herased⟩

/-- A member's op is parked in both queues or in neither, unless outsiders' ops
are what fills the first one. -/
theorem erased_queuePending {bytes : Bytes} (h : List.Erased (OutsiderBytes out parked₀) g.pendingOps pK)
    (hdecode : GroupOp.decode bytes = some op) (hmember : out op.operatorIdentity = false)
    (hroom : pendingOpsCap ≤ g.pendingOps.length →
      (∃ b ∈ g.pendingOps, OutsiderBytes out parked₀ b) →
      bytes ∈ g.pendingOps ∨
        pendingOpsPerOperatorCap ≤ parkedBy g.pendingOps op.operatorIdentity) :
    List.Erased (OutsiderBytes out parked₀) (g.queuePending bytes).pendingOps
      ((g.withPending pK).queuePending bytes).pendingOps := by
  have hown : ¬ OutsiderBytes out parked₀ bytes := by
    rintro ⟨-, op', hop', hout⟩
    cases hdecode.symm.trans hop'
    rw [hmember] at hout
    cases hout
  have hmem : bytes ∈ g.pendingOps ↔ bytes ∈ pK := h.mem_iff hown
  have hcount : parkedBy g.pendingOps op.operatorIdentity = parkedBy pK op.operatorIdentity := by
    refine h.countP_eq ?_
    rintro b ⟨-, op', hop', hout⟩
    rw [hop']
    refine decide_eq_false fun hsame => ?_
    rw [hsame, hmember] at hout
    cases hout
  have hlen : pK.length ≤ g.pendingOps.length := h.sublist.length_le
  simp only [queuePending, withPending_pendingOps, hdecode, ← hcount]
  by_cases hdup : bytes ∈ g.pendingOps
  · rw [if_pos hdup, if_pos (hmem.mp hdup), ite_self, ite_self]
    exact h
  · rw [if_neg hdup, if_neg (fun hin => hdup (hmem.mpr hin))]
    by_cases hper : pendingOpsPerOperatorCap ≤ parkedBy g.pendingOps op.operatorIdentity
    · simp only [if_pos hper, ite_self]
      exact h
    · simp only [if_neg hper]
      by_cases hfull : pendingOpsCap ≤ g.pendingOps.length
      · -- the queue is full of members' ops: nothing was left out
        have hsame : pK = g.pendingOps := by
          refine h.eq_of_forall fun b hb houtsider => ?_
          rcases hroom hfull ⟨b, hb, houtsider⟩ with hin | hcap
          · exact hdup hin
          · exact hper hcap
        rw [if_pos hfull, hsame, if_pos hfull]
        exact List.Erased.refl _
      · rw [if_neg hfull, if_neg (by omega)]
        exact h.append_both [bytes]

/-- What was parked at the start of the run and is no longer parked cannot be
parked again: its epoch has come. -/
def Gone (parked₀ : List Bytes) (g : ChatGroup) : Prop :=
  ∀ bytes ∈ parked₀, bytes ∈ g.pendingOps ∨
    ∀ op, GroupOp.decode bytes = some op → op.epoch.toNat ≤ g.currentEpoch.toNat + 1

/-- What an outsider parks is only in the first queue. -/
theorem erased_queuePending_outsider {bytes : Bytes}
    (h : List.Erased (OutsiderBytes out parked₀) g.pendingOps pK) (hgone : Gone parked₀ g)
    (hdecode : GroupOp.decode bytes = some op) (hout : out op.operatorIdentity = true)
    (hfuture : g.currentEpoch.toNat + 1 < op.epoch.toNat) :
    List.Erased (OutsiderBytes out parked₀) (g.queuePending bytes).pendingOps pK := by
  rw [queuePending]
  split
  · exact h
  · split
    · exact h
    · rename_i habsent
      have hnew : bytes ∉ parked₀ := by
        intro hold
        rcases hgone bytes hold with hin | hpast
        · exact habsent hin
        · have := hpast op hdecode
          omega
      simp only [hdecode]
      split
      · exact h
      · exact h.append_drop ⟨hnew, op, hdecode, hout⟩

theorem drain_epoch_le {entries : List (GroupOp × Bytes)} {r : List Bytes × ChatGroup}
    (h : drain env entries g = some r) : g.currentEpoch.toNat ≤ r.2.currentEpoch.toNat := by
  refine drain_invariant (fun g' => g.currentEpoch.toNat ≤ g'.currentEpoch.toNat) ?_ h le_rfl
  intro op bytes g₁ g₂ _ hnext hlands hle
  rw [hlands.frame.2.1, nextEpoch_eq_some_iff.mp hnext]
  omega

/-- An entry that the replay takes out has had its turn. -/
theorem drain_gone {entries : List (GroupOp × Bytes)} {r : List Bytes × ChatGroup}
    (h : drain env entries g = some r) :
    ∀ e ∈ entries, e.2 ∈ r.1 ∨ e.1.epoch.toNat ≤ r.2.currentEpoch.toNat + 1 := by
  induction entries generalizing g r with
  | nil => simp
  | cons e entries ih =>
    obtain ⟨op, bytes⟩ := e
    have hmono := drain_epoch_le h
    rw [drain] at h
    split at h
    · rename_i hpast
      rw [UInt64.le_iff_toNat_le] at hpast
      rw [List.forall_mem_cons]
      exact ⟨.inr (by show op.epoch.toNat ≤ _; omega), ih h⟩
    · split at h
      · rename_i hnext
        rw [nextEpoch_eq_some_iff] at hnext
        rw [List.forall_mem_cons]
        refine ⟨.inr (by show op.epoch.toNat ≤ _; omega), ?_⟩
        split at h
        · obtain ⟨landed, -, hrest⟩ := Option.bind_eq_some_iff.mp h
          exact ih hrest
        · exact ih h
      · obtain ⟨r', hrest, rfl⟩ := Option.map_eq_some_iff.mp h
        rw [List.forall_mem_cons]
        refine ⟨.inl List.mem_cons_self, fun e he => ?_⟩
        rcases ih hrest e he with hin | hle
        · exact .inl (List.mem_cons_of_mem _ hin)
        · exact .inr hle

theorem Gone.step {r : ApplyOutcome × ChatGroup} (h : applyStep env me op g = some r)
    (hgone : Gone parked₀ g) : Gone parked₀ r.2 := by
  intro bytes hold
  rcases applyStep_cases h with ⟨hsame, -⟩ | ⟨parked, -, -, rfl⟩ |
      ⟨opBytes, g₁, -, -, -, hnext, hlands, -, hreplay⟩
  · rw [hsame]
    exact hgone bytes hold
  · rcases hgone bytes hold with hin | hpast
    · exact .inl (mem_queuePending hin)
    · right
      rw [queuePending_eq]
      exact hpast
  · obtain ⟨_, hepoch, -, hqueue⟩ := hlands.frame
    obtain ⟨drained, hdrain, heq⟩ := Option.map_eq_some_iff.mp hreplay
    rw [← heq]
    have hmono := drain_epoch_le hdrain
    have hup : g.currentEpoch.toNat ≤ g₁.currentEpoch.toNat := by
      rw [hepoch, nextEpoch_eq_some_iff.mp hnext]
      omega
    rcases hgone bytes hold with hin | hpast
    · by_cases hkept : bytes ∈ drained.1
      · exact .inl hkept
      · right
        intro op' hdecode
        rw [← hqueue] at hin
        rcases drain_gone hdrain _ (mem_sortByEpoch_decodePending hin hdecode) with hin' | hle
        · exact absurd hin' hkept
        · exact hle
    · right
      intro op' hdecode
      have hle := hpast op' hdecode
      show op'.epoch.toNat ≤ drained.2.currentEpoch.toNat + 1
      omega

/-! ## One call -/

variable (out parked₀) in
/-- What keeps an outsider from disturbing the call of `apply` with `op`:

- the member table, with what the queue can add to it, is far from 2^32 rows;
- a signed op of an outsider does not come at the last epoch;
- an op of anyone else that has to wait does not find the queue full with an
  outsider's op in it, unless it would not have been parked anyway. -/
structure Undisturbed (env : GroupEnv) (op : GroupOp) (g : ChatGroup) : Prop where
  rows : g.members.length + g.pendingOps.length + 1 < 2 ^ 32
  epoch : out op.operatorIdentity = true → op.groupId = g.id → op.verifySignature env = true →
    g.currentEpoch.toNat + 1 < 2 ^ 64
  room : out op.operatorIdentity = false → g.currentEpoch.toNat + 1 < op.epoch.toNat →
    pendingOpsCap ≤ g.pendingOps.length → (∃ b ∈ g.pendingOps, OutsiderBytes out parked₀ b) →
    op.wire ∈ g.pendingOps ∨ pendingOpsPerOperatorCap ≤ parkedBy g.pendingOps op.operatorIdentity

/-- An outsider's op changes the queue at most. -/
theorem applyStep_outsider (me : Option Bytes) (hout : out op.operatorIdentity = true)
    (hrow : g.hasRow op.operatorIdentity = false)
    (hcalm : Undisturbed out parked₀ env op g) (hgone : Gone parked₀ g)
    (herased : List.Erased (OutsiderBytes out parked₀) g.pendingOps pK) :
    ∃ outcome p, applyStep env me op g = some (outcome, g.withPending p) ∧
      List.Erased (OutsiderBytes out parked₀) p pK := by
  have hstays : ∀ outcome : ApplyOutcome, ∃ outcome' p, some (outcome, g) = some (outcome', g.withPending p) ∧
      List.Erased (OutsiderBytes out parked₀) p pK :=
    fun outcome => ⟨outcome, g.pendingOps, rfl, herased⟩
  rw [applyStep]
  split
  · exact hstays _
  · rename_i hid
    split
    · exact hstays _
    · rename_i bytes hencoded
      split
      · exact hstays _
      · rename_i hsig
        have hlast := hcalm.epoch hout (Classical.not_not.mp hid) (Classical.not_not.mp hsig)
        split
        · rename_i hnone
          rw [nextEpoch_eq_none_iff] at hnone
          omega
        · rename_i expected hnext
          rw [nextEpoch_eq_some_iff] at hnext
          split
          · simp only [applyPast, visible]
            split
            · exact hstays _
            · split <;> exact hstays _
          · split
            · rename_i hfuture
              rw [UInt64.lt_iff_toNat_lt] at hfuture
              refine ⟨_, (g.queuePending bytes).pendingOps, by rw [← queuePending_eq], ?_⟩
              exact erased_queuePending_outsider herased hgone (GroupOp.decode_encoded hencoded)
                hout (by omega)
            · obtain ⟨outcome, hland, hrefused⟩ :
                  ∃ outcome, land env op (env.hash bytes) g = some (outcome, g) ∧
                    ∀ e, outcome ≠ .applied e := land_outsider hrow
              rw [hland, Option.bind_some]
              cases outcome with
              | applied e => exact absurd rfl (hrefused e)
              | _ => exact hstays _

/-- The replay of related queues. -/
theorem replay_erased {d : Bytes} {g₁ : ChatGroup} (hlands : Lands env op d g g₁)
    (hsmall : g.members.length + g.pendingOps.length + 1 < 2 ^ 32)
    (herased : List.Erased (OutsiderBytes out parked₀) g.pendingOps pK)
    (hrows : ∀ g', replay env g₁ = some g' → ∀ who, out who = true → g'.hasRow who = false) :
    ∃ g' p, replay env g₁ = some g' ∧ replay env (g₁.withPending pK) = some (g'.withPending p) ∧
      List.Erased (OutsiderBytes out parked₀) g'.pendingOps p := by
  have hqueue : g₁.pendingOps = g.pendingOps := hlands.frame.2.2.2
  have hentries : (sortByEpoch (decodePending g₁.pendingOps)).length ≤ g.pendingOps.length := by
    rw [sortByEpoch, List.length_insertionSort, decodePending, hqueue]
    exact List.length_filterMap_le _ _
  have hhash : Hashable g (g.pendingOps.length + 1) := by
    have hroot := hlands.root
    rw [memberSetRoot, memberSetRootOf] at hroot
    split at hroot
    · rename_i htable
      exact ⟨by omega, htable.2⟩
    · cases hroot
  have hhash₁ := hhash.lands hlands
  obtain ⟨drained, hdrain⟩ :
      ∃ drained, drain env (sortByEpoch (decodePending g₁.pendingOps)) g₁ = some drained :=
    Hashable.drain_isSome ⟨by have := hhash₁.1; omega, hhash₁.2⟩
  have hF : replay env g₁ = some (drained.2.withPending drained.1) := by
    rw [replay, hdrain]
    rfl
  have hsorted := erased_sortByEpoch herased
  rw [← hqueue] at hsorted
  obtain ⟨keptK, hK, hkept⟩ := drain_erased hsorted hdrain fun who hout => hrows _ hF who hout
  refine ⟨_, keptK, hF, ?_, hkept⟩
  rw [replay, withPending_pendingOps, drain_withPending, hK]
  rfl

/-- Any other op does the same with and without the outsiders' ops in the queue. -/
theorem applyStep_member (me : Option Bytes) (hmember : out op.operatorIdentity = false)
    (hcalm : Undisturbed out parked₀ env op g)
    (herased : List.Erased (OutsiderBytes out parked₀) g.pendingOps pK)
    (hrows : ∀ r, applyStep env me op g = some r →
      ∀ who, out who = true → r.2.hasRow who = false) :
    (applyStep env me op g = none ∧ applyStep env me op (g.withPending pK) = none) ∨
      ∃ outcome g' p, applyStep env me op g = some (outcome, g') ∧
        applyStep env me op (g.withPending pK) = some (outcome, g'.withPending p) ∧
        List.Erased (OutsiderBytes out parked₀) g'.pendingOps p := by
  have hid : (g.withPending pK).id = g.id := rfl
  have hepoch : (g.withPending pK).currentEpoch = g.currentEpoch := rfl
  have hstays : ∀ outcome : ApplyOutcome, ∃ outcome' g' p,
      some (outcome, g) = some (outcome', g') ∧
        some (outcome, g.withPending pK) = some (outcome', g'.withPending p) ∧
        List.Erased (OutsiderBytes out parked₀) g'.pendingOps p :=
    fun outcome => ⟨outcome, g, pK, rfl, rfl, herased⟩
  revert hrows
  simp only [applyStep, hid, hepoch]
  split
  · exact fun _ => .inr (hstays _)
  · split
    · exact fun _ => .inr (hstays _)
    · rename_i bytes hencoded
      split
      · exact fun _ => .inr (hstays _)
      · split
        · exact fun _ => .inl ⟨rfl, rfl⟩
        · rename_i expected hnext
          rw [nextEpoch_eq_some_iff] at hnext
          split
          · have hpast : (g.withPending pK).applyPast op (env.hash bytes) { localIdentityPub := me } =
                let r := g.applyPast op (env.hash bytes) { localIdentityPub := me }
                (r.1, r.2.1.withPending pK, r.2.2) := by
              have hjoined : ∀ sx, (g.withPending pK).localJoinedAt sx = g.localJoinedAt sx :=
                fun _ => rfl
              have hdigest : ∀ e, (g.withPending pK).digest e = g.digest e := fun _ => rfl
              simp only [applyPast, hjoined, hdigest]
              split
              · rfl
              · split <;> rfl
            rw [hpast]
            simp only [applyPast, visible]
            split
            · exact fun _ => .inr (hstays _)
            · split <;> exact fun _ => .inr (hstays _)
          · split
            · rename_i hfuture
              rw [UInt64.lt_iff_toNat_lt] at hfuture
              intro _
              refine .inr ⟨_, _, ((g.withPending pK).queuePending bytes).pendingOps, rfl, ?_, ?_⟩
              · rw [queuePending_eq (g.withPending pK), withPending_withPending, queuePending_eq g]
                rfl
              · refine erased_queuePending herased (GroupOp.decode_encoded hencoded) hmember ?_
                rw [← GroupOp.wire_eq hencoded]
                exact hcalm.room hmember (by omega)
            · rw [land_withPending]
              cases hland : land env op (env.hash bytes) g with
              | none => exact fun _ => .inl ⟨rfl, rfl⟩
              | some landed =>
                obtain ⟨outcome, g₁⟩ := landed
                intro hrows
                rcases land_cases hland with ⟨houtcome, hlands⟩ | ⟨hrefused, hsame⟩
                · cases houtcome
                  obtain ⟨g', p, hF, hK, hrest⟩ := replay_erased hlands hcalm.rows herased (by
                    intro g' hreplay
                    exact hrows (.applied op.epoch, g') (by
                      show Option.map _ _ = _
                      rw [hreplay]
                      rfl))
                  refine .inr ⟨.applied op.epoch, g', p, ?_, ?_, hrest⟩
                  · show Option.map _ _ = _
                    rw [hF]
                    rfl
                  · show Option.map _ _ = _
                    rw [hK]
                    rfl
                · cases hsame
                  cases hrefused <;> exact .inr (hstays _)

end Queues

end Pizzini.Group
