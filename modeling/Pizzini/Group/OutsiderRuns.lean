import Mathlib.Data.List.ProdSigma
import Pizzini.Group.Outsiders

/-!
# Runs with and without outsiders

`outsiders_do_not_interfere` compares a run of `apply` with the same run from
which the ops of outsiders are left out. It needs every call to be `Undisturbed`.
A run that is short compared with the queue always is (`undisturbedRun_of_short`);
a run that starts with a thousand ops of sixteen outsiders is not
(`flooded_queue_loses_rename`).
-/

namespace Pizzini.Group

open Wire ChatGroup

variable {env : GroupEnv} {me : Option Bytes} {op : GroupOp} {g g' : ChatGroup} {who : Bytes}

/-! ## Runs -/

/-- `who` has a row in some state of the run of `ops` from `g`. -/
def everRow (env : GroupEnv) (me : Option Bytes) (who : Bytes) : List GroupOp → ChatGroup → Bool
  | [], g => g.hasRow who
  | op :: ops, g =>
    g.hasRow who ||
      match apply env op g { localIdentityPub := me } with
      | none => false
      | some (_, g', _) => everRow env me who ops g'

/-- Every call of the run of `ops` from `g` is undisturbed. -/
def UndisturbedRun (out : Bytes → Bool) (parked₀ : List Bytes) (env : GroupEnv)
    (me : Option Bytes) : List GroupOp → ChatGroup → Prop
  | [], _ => True
  | op :: ops, g =>
    Undisturbed out parked₀ env op g ∧
      ∀ r, applyStep env me op g = some r → UndisturbedRun out parked₀ env me ops r.2

/-- The outcomes of the ops that are not an outsider's. -/
def keptOutcomes (out : Bytes → Bool) (ops : List GroupOp) (outcomes : List ApplyOutcome) :
    List ApplyOutcome :=
  ((ops.zip outcomes).filter fun e => !out e.1.operatorIdentity).map Prod.snd

variable {ops : List GroupOp}

theorem hasRow_of_everRow (h : everRow env me who ops g = false) : g.hasRow who = false := by
  cases ops with
  | nil => exact h
  | cons op ops => exact (Bool.or_eq_false_iff.mp h).1

theorem everRow_step {r : ApplyOutcome × ChatGroup} (h : everRow env me who (op :: ops) g = false)
    (hstep : applyStep env me op g = some r) : everRow env me who ops r.2 = false := by
  have hrest := (Bool.or_eq_false_iff.mp h).2
  rw [← apply_applyStep op g { localIdentityPub := me }] at hstep
  obtain ⟨⟨outcome, g', sx⟩, happly, rfl⟩ := Option.map_eq_some_iff.mp hstep
  rw [happly] at hrest
  exact hrest

section

variable {out : Bytes → Bool} {parked₀ pK : List Bytes}

/-- The run with and the run without the outsiders' ops, from related queues. -/
theorem runOps_erased (hcalm : UndisturbedRun out parked₀ env me ops g)
    (hout : ∀ who, out who = true → everRow env me who ops g = false)
    (hgone : Gone parked₀ g) (herased : List.Erased (OutsiderBytes out parked₀) g.pendingOps pK) :
    (runOps env me ops g).map (fun r => (r.2.withPending [], keptOutcomes out ops r.1)) =
      (runOps env me (ops.filter fun op => !out op.operatorIdentity) (g.withPending pK)).map
        fun r => (r.2.withPending [], r.1) := by
  induction ops generalizing g pK with
  | nil => rfl
  | cons op ops ih =>
    obtain ⟨hnow, hlater⟩ := hcalm
    rw [runOps_cons]
    cases hop : out op.operatorIdentity with
    | true =>
      obtain ⟨outcome, p, hstep, hp⟩ :=
        applyStep_outsider me hop (hasRow_of_everRow (hout _ hop)) hnow hgone herased
      have hrest := ih (hlater _ hstep) (fun who hwho => everRow_step (hout who hwho) hstep)
        (hgone.step hstep) hp
      rw [List.filter_cons_of_neg (by simp [hop]), hstep, Option.bind_some, Option.map_map]
      rw [withPending_withPending] at hrest
      rw [← hrest]
      refine congrArg (Option.map · _) (funext fun r => ?_)
      simp [keptOutcomes, hop]
    | false =>
      rw [List.filter_cons_of_pos (by simp [hop]), runOps_cons]
      rcases applyStep_member me hop hnow herased
          (fun r hstep who hwho => hasRow_of_everRow (everRow_step (hout who hwho) hstep)) with
        ⟨hF, hK⟩ | ⟨outcome, g', p, hF, hK, hp⟩
      · rw [hF, hK]
        rfl
      · have hrest := ih (hlater _ hF) (fun who hwho => everRow_step (hout who hwho) hF)
          (hgone.step hF) hp
        rw [hF, hK, Option.bind_some, Option.bind_some, Option.map_map, Option.map_map]
        have hpush := congrArg (Option.map fun x => (x.1, outcome :: x.2)) hrest
        rw [Option.map_map, Option.map_map] at hpush
        refine Eq.trans ?_ hpush
        refine congrArg (Option.map · _) (funext fun r => ?_)
        simp [keptOutcomes, hop]

end

/-! ## Short runs -/

/-- Every entry that the replay takes out adds a row and an epoch at most. -/
theorem drain_size {entries : List (GroupOp × Bytes)} {r : List Bytes × ChatGroup}
    (h : drain env entries g = some r) :
    r.2.members.length + r.1.length ≤ g.members.length + entries.length ∧
      r.2.currentEpoch.toNat + r.1.length ≤ g.currentEpoch.toNat + entries.length := by
  induction entries generalizing g r with
  | nil =>
    cases h
    exact ⟨le_rfl, le_rfl⟩
  | cons e entries ih =>
    obtain ⟨op, bytes⟩ := e
    rw [List.length_cons]
    rw [drain] at h
    split at h
    · have := ih h
      omega
    · split at h
      · rename_i hnext
        split at h
        · obtain ⟨landed, hland, hrest⟩ := Option.bind_eq_some_iff.mp h
          have hbound := ih hrest
          rcases land_cases hland with ⟨-, hlands⟩ | ⟨-, hsame⟩
          · have hrows := hlands.members_length_le
            rw [nextEpoch_eq_some_iff, ← hlands.frame.2.1] at hnext
            omega
          · rw [hsame] at hbound
            omega
        · have := ih h
          omega
      · obtain ⟨r', hrest, rfl⟩ := Option.map_eq_some_iff.mp h
        have hbound := ih hrest
        simp only [List.length_cons]
        omega

theorem queuePending_length_le (bytes : Bytes) :
    (g.queuePending bytes).pendingOps.length ≤ g.pendingOps.length + 1 := by
  rcases queuePending_cases g bytes with heq | heq
  · rw [heq]
    exact Nat.le_succ _
  · rw [heq]
    exact List.length_append.le

/-- A call adds one to the rows, the epoch and the queue, taken together. -/
theorem applyStep_size {r : ApplyOutcome × ChatGroup} (h : applyStep env me op g = some r) :
    r.2.members.length + r.2.pendingOps.length ≤ g.members.length + g.pendingOps.length + 1 ∧
      r.2.currentEpoch.toNat + r.2.pendingOps.length ≤
        g.currentEpoch.toNat + g.pendingOps.length + 1 := by
  rcases applyStep_cases h with ⟨hsame, -⟩ | ⟨parked, -, -, rfl⟩ |
      ⟨opBytes, g₁, -, -, -, hnext, hlands, -, hreplay⟩
  · rw [hsame]
    omega
  · have hlen : (g.queuePending parked).pendingOps.length ≤ g.pendingOps.length + 1 :=
      queuePending_length_le parked
    rw [queuePending_eq, withPending_pendingOps]
    show g.members.length + _ ≤ _ ∧ g.currentEpoch.toNat + _ ≤ _
    omega
  · obtain ⟨-, hepoch, -, hqueue⟩ := hlands.frame
    obtain ⟨drained, hdrain, heq⟩ := Option.map_eq_some_iff.mp hreplay
    have hsize := drain_size hdrain
    have hentries : (sortByEpoch (decodePending g₁.pendingOps)).length ≤ g.pendingOps.length := by
      rw [sortByEpoch, List.length_insertionSort, decodePending, hqueue]
      exact List.length_filterMap_le _ _
    have hrows := hlands.members_length_le
    rw [nextEpoch_eq_some_iff, ← hepoch] at hnext
    rw [← heq]
    show drained.2.members.length + drained.1.length ≤ _ ∧
      drained.2.currentEpoch.toNat + drained.1.length ≤ _
    omega

/-- A run too short to fill the queue or to reach the last epoch. -/
theorem undisturbedRun_of_short (out : Bytes → Bool) (parked₀ : List Bytes)
    (hqueue : g.members.length + g.pendingOps.length + ops.length < pendingOpsCap)
    (hepoch : g.currentEpoch.toNat + g.pendingOps.length + ops.length < 2 ^ 64) :
    UndisturbedRun out parked₀ env me ops g := by
  induction ops generalizing g with
  | nil => trivial
  | cons op ops ih =>
    rw [List.length_cons, pendingOpsCap] at hqueue
    rw [List.length_cons] at hepoch
    constructor
    · constructor
      · omega
      · intro _ _ _
        omega
      · intro _ _ hfull
        rw [pendingOpsCap] at hfull
        omega
    · intro r hstep
      have hsize := applyStep_size hstep
      refine ih ?_ ?_
      · rw [pendingOpsCap]
        omega
      · omega

/-! ## Outsiders do not interfere -/

/-- Outsiders have no influence: with `out` the identities that have no row in
any state of the run, leaving their ops out gives the same group up to its queue,
and the same outcome for every other op. -/
theorem outsiders_do_not_interfere (env : GroupEnv) (me : Option Bytes) (seq : List GroupOp)
    (g : ChatGroup)
    (h : UndisturbedRun (fun who => !everRow env me who seq g) g.pendingOps env me seq g) :
    (runOps env me seq g).map (fun r =>
        (r.2.withPending [], keptOutcomes (fun who => !everRow env me who seq g) seq r.1)) =
      (runOps env me (seq.filter fun op => everRow env me op.operatorIdentity seq g) g).map
        fun r => (r.2.withPending [], r.1) := by
  have hrun := runOps_erased h (fun who hwho => by simpa using hwho)
    (fun bytes hold => .inl hold) (List.Erased.refl g.pendingOps)
  simpa using hrun

/-- Peer 9 has no row in the sample group; it parks a renaming at epoch 2. -/
def outsiderRename : GroupOp :=
  sampleSigned { sampleRename with operatorIdentity := samplePeer 9, kind := .rename "mine" }

theorem outsiders_do_not_interfere_renamed :
    [outsiderRename, sampleRename, sampleAdd].filter (fun op => everRow sampleEnv none
        op.operatorIdentity [outsiderRename, sampleRename, sampleAdd] sampleGroup) =
      [sampleRename, sampleAdd] ∧
    (runOps sampleEnv none [outsiderRename, sampleRename, sampleAdd] sampleGroup).map
        (fun r => (r.2.withPending [], keptOutcomes (fun who => !everRow sampleEnv none who
          [outsiderRename, sampleRename, sampleAdd] sampleGroup)
          [outsiderRename, sampleRename, sampleAdd] r.1)) =
      (runOps sampleEnv none [sampleRename, sampleAdd] sampleGroup).map
        fun r => (r.2.withPending [], r.1) := by
  have hkept : [outsiderRename, sampleRename, sampleAdd].filter (fun op => everRow sampleEnv none
        op.operatorIdentity [outsiderRename, sampleRename, sampleAdd] sampleGroup) =
      [sampleRename, sampleAdd] := by decide +kernel
  have hsame := outsiders_do_not_interfere sampleEnv none
    [outsiderRename, sampleRename, sampleAdd] sampleGroup
    (undisturbedRun_of_short _ _ (by decide +kernel) (by decide +kernel))
  rw [hkept] at hsame
  exact ⟨hkept, hsame⟩

/-! ## A flooded queue -/

/-- Distinct ops of the group's future that the caps allow are all parked. -/
theorem runOps_parked (env : GroupEnv) (me : Option Bytes) (ops : List GroupOp) (g : ChatGroup)
    (hops : ∀ op ∈ ops, op.groupId = g.id ∧ op.encoded = .ok op.wire ∧
      op.verifySignature env = true ∧ g.currentEpoch.toNat + 1 < op.epoch.toNat)
    (hnodup : (g.pendingOps ++ ops.map GroupOp.wire).Nodup)
    (hcaps : QueueOk (g.pendingOps ++ ops.map GroupOp.wire)) :
    ∃ outs, runOps env me ops g =
      some (outs, g.withPending (g.pendingOps ++ ops.map GroupOp.wire)) := by
  induction ops generalizing g with
  | nil => exact ⟨[], by rw [List.map_nil, List.append_nil, withPending_self]; rfl⟩
  | cons op ops ih =>
    obtain ⟨⟨hid, hencoded, hsig, hfuture⟩, hrest⟩ := List.forall_mem_cons.mp hops
    rw [List.map_cons, List.append_cons] at hnodup hcaps ⊢
    have hdecode := GroupOp.decode_encoded hencoded
    have hsub : (g.pendingOps ++ [op.wire]).Sublist
        (g.pendingOps ++ [op.wire] ++ ops.map GroupOp.wire) := List.sublist_append_left _ _
    have hparked : g.queuePending op.wire = g.withPending (g.pendingOps ++ [op.wire]) := by
      refine queuePending_of_room hdecode ?_ ?_ ?_
      · have hlen := Nat.le_trans hsub.length_le hcaps.total
        rw [List.length_append, List.length_singleton] at hlen
        omega
      · intro hmem
        exact (List.nodup_append.mp (hnodup.sublist hsub)).2.2 _ hmem _ (by simp) rfl
      · have hper := (hcaps.of_subperm hsub.subperm).perOperator op.operatorIdentity
        rw [parkedBy_snoc hdecode, if_pos rfl] at hper
        omega
    have hstep : applyStep env me op g =
        some (.queued op.epoch, g.withPending (g.pendingOps ++ [op.wire])) := by
      have hlt := op.epoch.toNat_lt
      have hnext : nextEpoch g.currentEpoch = some (g.currentEpoch + 1) := by
        rw [nextEpoch, if_pos (by omega)]
      have hexpected := nextEpoch_eq_some_iff.mp hnext
      rw [applyStep_of_ok hid hencoded hsig hnext, if_neg, if_pos, hparked]
      · rw [UInt64.lt_iff_toNat_lt]
        omega
      · rw [UInt64.lt_iff_toNat_lt]
        omega
    obtain ⟨outs, hrun⟩ := ih (g.withPending (g.pendingOps ++ [op.wire])) hrest hnodup hcaps
    refine ⟨.queued op.epoch :: outs, ?_⟩
    rw [runOps_cons, hstep, Option.bind_some, hrun]
    rfl

/-- Ops that still wait stay in the queue. -/
theorem drain_waiting {entries : List (GroupOp × Bytes)}
    (h : ∀ e ∈ entries, g.currentEpoch.toNat + 1 < e.1.epoch.toNat) :
    drain env entries g = some (entries.map Prod.snd, g) := by
  induction entries with
  | nil => rfl
  | cons e entries ih =>
    obtain ⟨op, bytes⟩ := e
    obtain ⟨hfuture, hrest⟩ := List.forall_mem_cons.mp h
    have hfuture : g.currentEpoch.toNat + 1 < op.epoch.toNat := hfuture
    rw [drain, if_neg, if_neg, ih hrest]
    · rfl
    · rw [nextEpoch_eq_some_iff]
      omega
    · rw [UInt64.le_iff_toNat_le]
      omega

theorem applyStep_hasRow {r : ApplyOutcome × ChatGroup} (h : applyStep env me op g = some r)
    (hrow : g.hasRow who = true) : r.2.hasRow who = true := by
  rcases applyStep_cases h with ⟨hsame, -⟩ | ⟨parked, -, -, rfl⟩ |
      ⟨opBytes, g₁, -, -, -, -, hlands, -, hreplay⟩
  · rw [hsame]
    exact hrow
  · rw [queuePending_eq]
    exact hrow
  · obtain ⟨drained, hdrain, heq⟩ := Option.map_eq_some_iff.mp hreplay
    rw [← heq]
    exact drain_hasRow hdrain (hlands.hasRow hrow)

/-- A row stays: whoever has one at some time has one at the end. -/
theorem everRow_eq {r : List ApplyOutcome × ChatGroup} (h : runOps env me ops g = some r) :
    everRow env me who ops g = r.2.hasRow who := by
  induction ops generalizing g r with
  | nil =>
    cases h
    rfl
  | cons op ops ih =>
    rw [runOps_cons] at h
    obtain ⟨s, hstep, hrest⟩ := Option.bind_eq_some_iff.mp h
    obtain ⟨r', hrun, rfl⟩ := Option.map_eq_some_iff.mp hrest
    have hlater : everRow env me who ops s.2 = r'.2.hasRow who := ih hrun
    have hcons : everRow env me who (op :: ops) g =
        (g.hasRow who || everRow env me who ops s.2) := by
      rw [← apply_applyStep op g { localIdentityPub := me }] at hstep
      obtain ⟨⟨outcome, g', sx⟩, happly, rfl⟩ := Option.map_eq_some_iff.mp hstep
      rw [everRow, happly]
      rfl
    rw [hcons]
    show _ = r'.2.hasRow who
    rw [← hlater]
    cases hrow : g.hasRow who with
    | false => rfl
    | true =>
      by_contra hno
      have hnone : everRow env me who ops s.2 = false := by simpa using hno
      have hgone := hasRow_of_everRow hnone
      rw [applyStep_hasRow hstep hrow] at hgone
      cases hgone

/-- Op `j` of outsider `i`: any op of a far epoch will do. -/
def floodOp (i j : Nat) : GroupOp :=
  sampleSigned
    { groupId := sampleGroupId
      epoch := 100
      parentDigest := GroupOp.zeroParentDigest
      operatorIdentity := samplePeer (UInt8.ofNat (10 + i))
      timestampMillis := UInt64.ofNat j
      priorMemberSetRoot := List.replicate memberSetRootSize 0
      kind := .removeMember (samplePeer 2)
      signature := [] }

/-- Sixty-four ops of each of sixteen outsiders. -/
def flood : List GroupOp := (List.range 16 ×ˢ List.range 64).map fun ij => floodOp ij.1 ij.2

theorem sampleSigned_fields (op : GroupOp) :
    (sampleSigned op).groupId = op.groupId ∧ (sampleSigned op).epoch = op.epoch ∧
      (sampleSigned op).operatorIdentity = op.operatorIdentity ∧
      (sampleSigned op).timestampMillis = op.timestampMillis := by
  rw [sampleSigned]
  split <;> exact ⟨rfl, rfl, rfl, rfl⟩

theorem floodOp_ok (i j : Nat) :
    (floodOp i j).encoded = .ok (floodOp i j).wire ∧
      (floodOp i j).verifySignature sampleEnv = true :=
  sampleSigned_ok rfl

theorem floodOp_fields (i j : Nat) :
    (floodOp i j).groupId = sampleGroupId ∧ (floodOp i j).epoch = 100 ∧
      (floodOp i j).operatorIdentity = samplePeer (UInt8.ofNat (10 + i)) ∧
      (floodOp i j).timestampMillis = UInt64.ofNat j :=
  sampleSigned_fields _

theorem samplePeer_inj {a b : UInt8} (h : samplePeer a = samplePeer b) : a = b :=
  (List.replicate_inj.mp h).2.resolve_left (by decide)

theorem floodOp_inj {i j i' j' : Nat} (hi : i < 16) (hi' : i' < 16) (hj : j < 64) (hj' : j' < 64)
    (h : floodOp i j = floodOp i' j') : i = i' ∧ j = j' := by
  have hoperator := congrArg GroupOp.operatorIdentity h
  have htime := congrArg GroupOp.timestampMillis h
  rw [(floodOp_fields i j).2.2.1, (floodOp_fields i' j').2.2.1] at hoperator
  rw [(floodOp_fields i j).2.2.2, (floodOp_fields i' j').2.2.2] at htime
  have hbyte := congrArg UInt8.toNat (samplePeer_inj hoperator)
  have htime := congrArg UInt64.toNat htime
  rw [UInt8.toNat_ofNat', UInt8.toNat_ofNat'] at hbyte
  rw [UInt64.toNat_ofNat', UInt64.toNat_ofNat'] at htime
  omega

theorem flood_spec : ∀ op ∈ flood, op.groupId = sampleGroupId ∧ op.encoded = .ok op.wire ∧
    op.verifySignature sampleEnv = true ∧ op.epoch = 100 := by
  intro op hop
  obtain ⟨⟨i, j⟩, -, rfl⟩ := List.mem_map.mp hop
  exact ⟨(floodOp_fields i j).1, (floodOp_ok i j).1, (floodOp_ok i j).2, (floodOp_fields i j).2.1⟩

theorem flood_nodup : flood.Nodup := by
  refine List.Nodup.map_on ?_ (List.nodup_range.product List.nodup_range)
  intro ij hij ij' hij' hop
  rw [List.mem_product, List.mem_range, List.mem_range] at hij hij'
  obtain ⟨hi, hj⟩ := floodOp_inj hij.1 hij'.1 hij.2 hij'.2 hop
  exact Prod.ext hi hj

theorem flood_wires_nodup : (flood.map GroupOp.wire).Nodup := by
  refine List.Nodup.map_on (fun op hop op' hop' hwire => ?_) flood_nodup
  have hencoded := (flood_spec op' hop').2.1
  rw [← hwire] at hencoded
  exact GroupOp.encoded_inj (flood_spec op hop).2.1 hencoded

/-- How many ops of the flood are of one operator. -/
theorem flood_operator_le (who : Bytes) :
    (flood.filter fun op => op.operatorIdentity = who).length ≤ pendingOpsPerOperatorCap := by
  have hpairs : (flood.filter fun op => op.operatorIdentity = who).length =
      (List.range 16 ×ˢ List.range 64).countP
        fun ij => samplePeer (UInt8.ofNat (10 + ij.1)) = who := by
    rw [← List.countP_eq_length_filter, flood, List.countP_map]
    refine List.countP_congr fun ij _ => ?_
    simp only [Function.comp, (floodOp_fields ij.1 ij.2).2.2.1]
  rw [hpairs]
  by_cases hsome : ∃ k < 16, samplePeer (UInt8.ofNat (10 + k)) = who
  · obtain ⟨k, hk, rfl⟩ := hsome
    -- only the pairs of outsider `k` count
    have hcongr : (List.range 16 ×ˢ List.range 64).countP
          (fun ij => samplePeer (UInt8.ofNat (10 + ij.1)) = samplePeer (UInt8.ofNat (10 + k))) =
        (List.range 16 ×ˢ List.range 64).countP fun ij => ij.1 = k := by
      refine List.countP_congr fun ij hij => ?_
      obtain ⟨i, j⟩ := ij
      rw [List.mem_product, List.mem_range] at hij
      rw [decide_eq_true_iff, decide_eq_true_iff]
      constructor
      · intro hsame
        have hbyte := congrArg UInt8.toNat (samplePeer_inj hsame)
        rw [UInt8.toNat_ofNat', UInt8.toNat_ofNat'] at hbyte
        show i = k
        omega
      · rintro rfl
        rfl
    rw [hcongr]
    have hcounts : ∀ k < 16, (List.range 16 ×ˢ List.range 64).countP (fun ij => ij.1 = k) ≤
        pendingOpsPerOperatorCap := by decide +kernel
    exact hcounts k hk
  · rw [List.countP_eq_zero.mpr]
    · exact Nat.zero_le _
    · rintro ⟨i, j⟩ hij
      rw [List.mem_product, List.mem_range] at hij
      rw [decide_eq_true_iff]
      exact fun hsame => hsome ⟨i, hij.1, hsame⟩

theorem flood_queueOk : QueueOk (flood.map GroupOp.wire) := by
  constructor
  · rw [List.length_map, flood, List.length_map, List.length_product, List.length_range,
      List.length_range]
    decide
  · intro who
    rw [parkedBy_parked (fun op hop => (flood_spec op hop).2.1) (List.Perm.refl _)]
    exact flood_operator_le who

/-- The sample group right after the addition of peer 3 took effect. -/
def sampleLanded : ChatGroup :=
  ((land sampleEnv sampleAdd (sampleEnv.hash sampleAdd.wire) sampleGroup).get
    (by decide +kernel)).2

theorem land_sampleAdd :
    land sampleEnv sampleAdd (sampleEnv.hash sampleAdd.wire) sampleGroup =
      some (.applied 1, sampleLanded) := by
  have houtcome : (land sampleEnv sampleAdd (sampleEnv.hash sampleAdd.wire) sampleGroup).map
      Prod.fst = some (.applied 1) := by decide +kernel
  obtain ⟨⟨outcome, g⟩, hland, rfl⟩ := Option.map_eq_some_iff.mp houtcome
  rw [sampleLanded]
  simp only [hland, Option.get_some]

/-- The flood fills the queue, the renaming finds no place in it, the addition
takes effect: the group is left without its renaming. -/
theorem runOps_flooded :
    ∃ outs kept, runOps sampleEnv none (flood ++ [sampleRename, sampleAdd]) sampleGroup =
      some (outs, sampleLanded.withPending kept) := by
  have hempty : sampleGroup.pendingOps = [] := by decide +kernel
  have hid : sampleGroup.id = sampleGroupId := by decide +kernel
  have hzero : sampleGroup.currentEpoch = 0 := by decide +kernel
  have hone : sampleLanded.currentEpoch = 1 := by decide +kernel
  obtain ⟨wires, hwires⟩ : ∃ wires, wires = flood.map GroupOp.wire := ⟨_, rfl⟩
  have hnext : nextEpoch (sampleGroup.withPending wires).currentEpoch = some 1 := by
    rw [withPending_currentEpoch]
    decide +kernel
  obtain ⟨outs, hflood⟩ : ∃ outs, runOps sampleEnv none flood sampleGroup =
      some (outs, sampleGroup.withPending wires) := by
    have hspec : ∀ op ∈ flood, op.groupId = sampleGroup.id ∧ op.encoded = .ok op.wire ∧
        op.verifySignature sampleEnv = true ∧
        sampleGroup.currentEpoch.toNat + 1 < op.epoch.toNat := by
      intro op hop
      obtain ⟨hgroup, hencoded, hsig, hepoch⟩ := flood_spec op hop
      refine ⟨hgroup.trans hid.symm, hencoded, hsig, ?_⟩
      rw [hzero, hepoch]
      decide
    have hparked := runOps_parked sampleEnv none flood sampleGroup hspec
    rw [hempty, List.nil_append, ← hwires] at hparked
    refine hparked ?_ ?_
    · rw [hwires]
      exact flood_wires_nodup
    · rw [hwires]
      exact flood_queueOk
  have hfull : wires.length = pendingOpsCap := by
    rw [hwires, List.length_map, flood, List.length_map, List.length_product, List.length_range,
      List.length_range]
    rfl
  have hrename : applyStep sampleEnv none sampleRename (sampleGroup.withPending wires) =
      some (.queued 2, sampleGroup.withPending wires) := by
    have hepoch : sampleRename.epoch = 2 := by decide +kernel
    have hsame : sampleRename.groupId = (sampleGroup.withPending wires).id := by
      rw [withPending_id]
      decide +kernel
    have hsig : sampleRename.verifySignature sampleEnv = true := by decide +kernel
    have hencoded : sampleRename.encoded = .ok sampleRename.wire :=
      GroupOp.encoded_of_isOk (by decide +kernel)
    rw [applyStep_of_ok hsame hencoded hsig hnext, hepoch, if_neg (by decide),
      if_pos (by decide), queuePending, withPending_pendingOps, if_pos hfull.ge]
  obtain ⟨kept, hadd⟩ : ∃ kept, applyStep sampleEnv none sampleAdd (sampleGroup.withPending wires) =
      some (.applied 1, sampleLanded.withPending kept) := by
    have hepoch : sampleAdd.epoch = 1 := by decide +kernel
    have hsame : sampleAdd.groupId = (sampleGroup.withPending wires).id := by
      rw [withPending_id]
      decide +kernel
    have hsig : sampleAdd.verifySignature sampleEnv = true := by decide +kernel
    have hencoded : sampleAdd.encoded = .ok sampleAdd.wire :=
      GroupOp.encoded_of_isOk (by decide +kernel)
    -- nothing in the queue is due, so the replay changes nothing
    have hwaits : ∀ e ∈ sortByEpoch (decodePending wires),
        sampleLanded.currentEpoch.toNat + 1 < e.1.epoch.toNat := by
      intro e he
      rw [sortByEpoch, List.mem_insertionSort, decodePending, List.mem_filterMap] at he
      obtain ⟨bytes, hbytes, hdecode⟩ := he
      rw [hwires] at hbytes
      obtain ⟨op, hop, rfl⟩ := List.mem_map.mp hbytes
      obtain ⟨-, hencodes, -, hfar⟩ := flood_spec op hop
      rw [GroupOp.decode_encoded hencodes] at hdecode
      cases hdecode
      rw [hone, hfar]
      decide
    rw [applyStep_of_ok hsame hencoded hsig hnext, hepoch, if_neg (by decide),
      if_neg (by decide), land_withPending, land_sampleAdd]
    refine ⟨(sortByEpoch (decodePending wires)).map Prod.snd, ?_⟩
    have hreplay : replay sampleEnv (sampleLanded.withPending wires) =
        some (sampleLanded.withPending ((sortByEpoch (decodePending wires)).map Prod.snd)) := by
      rw [replay, withPending_pendingOps, drain_withPending, drain_waiting hwaits, Option.map_some,
        Option.map_some, withPending_withPending]
    rw [Option.map_some, Option.bind_some, settle, hreplay, Option.map_some]
  refine ⟨outs ++ [.queued 2, .applied 1], kept, ?_⟩
  rw [runOps_append, hflood, Option.bind_some, runOps_cons, hrename, Option.bind_some, runOps_cons,
    hadd]
  rfl

/-- Leaving the outsiders' ops out leaves the two ops of peer 1. -/
theorem flooded_kept :
    (flood ++ [sampleRename, sampleAdd]).filter (fun op => everRow sampleEnv none
        op.operatorIdentity (flood ++ [sampleRename, sampleAdd]) sampleGroup) =
      [sampleRename, sampleAdd] := by
  obtain ⟨outs, kept, hrun⟩ := runOps_flooded
  have hever : ∀ who, everRow sampleEnv none who (flood ++ [sampleRename, sampleAdd]) sampleGroup =
      sampleLanded.hasRow who := by
    intro who
    rw [everRow_eq hrun, hasRow, hasRow, withPending_members]
  have houtside : ∀ i < 16, sampleLanded.hasRow (samplePeer (UInt8.ofNat (10 + i))) = false := by
    decide +kernel
  have hinside : sampleLanded.hasRow sampleRename.operatorIdentity = true ∧
      sampleLanded.hasRow sampleAdd.operatorIdentity = true := by decide +kernel
  simp only [hever]
  rw [List.filter_append, List.filter_eq_nil_iff.mpr, List.nil_append, List.filter_eq_self]
  · rw [List.forall_mem_cons, List.forall_mem_singleton]
    exact hinside
  · intro op hop
    obtain ⟨⟨i, j⟩, hij, rfl⟩ := List.mem_map.mp hop
    rw [List.mem_product, List.mem_range] at hij
    rw [(floodOp_fields i j).2.2.1, houtside i hij.1]
    exact Bool.false_ne_true

/-- Sixteen outsiders make a group miss its administrator's renaming: the full
run ends at epoch 1, the run without them at epoch 2 under the new name. -/
theorem flooded_queue_loses_rename :
    ∃ outs g outs' g',
      runOps sampleEnv none (flood ++ [sampleRename, sampleAdd]) sampleGroup = some (outs, g) ∧
      runOps sampleEnv none ((flood ++ [sampleRename, sampleAdd]).filter fun op =>
        everRow sampleEnv none op.operatorIdentity (flood ++ [sampleRename, sampleAdd])
          sampleGroup) sampleGroup = some (outs', g') ∧
      g.currentEpoch = 1 ∧ g.displayName = "trip" ∧
      g'.currentEpoch = 2 ∧ g'.displayName = "hike" := by
  obtain ⟨outs, kept, hrun⟩ := runOps_flooded
  have hend : sampleLanded.currentEpoch = 1 ∧ sampleLanded.displayName = "trip" := by
    decide +kernel
  have hcalm : (runOps sampleEnv none [sampleRename, sampleAdd] sampleGroup).map
      (fun r => (r.2.currentEpoch, r.2.displayName)) = some (2, "hike") := by decide +kernel
  obtain ⟨⟨outs', g'⟩, hrun', heq⟩ := Option.map_eq_some_iff.mp hcalm
  obtain ⟨hepoch, hname⟩ := Prod.mk.inj heq
  rw [flooded_kept]
  refine ⟨outs, _, outs', g', hrun, hrun', ?_, ?_, hepoch, hname⟩
  · rw [withPending_currentEpoch, hend.1]
  · rw [withPending_displayName, hend.2]

end Pizzini.Group
