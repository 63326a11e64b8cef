import Pizzini.Group.DeliveryOrder

/-!
# Which forks a receiver notices

Two ops of one epoch on one parent are a fork. A receiver that has applied one of
them and is handed the other compares digests (`applyPast`) and reports
`rejectedEquivocation`. The cascade over the parked ops does not: an entry at an
epoch that is already taken is dropped unread (GroupApply.swift:308–312). So a fork
goes unseen when one of the two arrives while the other is still parked.

- `Follows`: between two calls the group is an in-order group of delivered ops, with
  delivered ops parked;
- `Reached`: the first op of the fork is parked, or its epoch is taken;
- `fork_noticed`: if neither op arrives while the other is parked, and the first one
  takes effect when its turn comes, some call of the run reports the fork.
-/

namespace Pizzini.Group

open Wire ChatGroup

variable {env : GroupEnv} {me : Option Bytes} {op x : GroupOp} {ops delivered : List GroupOp}
variable {g g' g₀ mid : ChatGroup}

/-! ## Digests in the window -/

theorem Lands.digest_keeps {d : Bytes} (h : Lands env op d g g') {e : UInt64}
    (hne : e ≠ op.epoch) (hwindow : op.epoch.toNat < e.toNat + recentOpDigestsWindow)
    {known : Bytes} (hknown : g.digest e = some known) : g'.digest e = some known := by
  obtain ⟨g₁, hmutate, rfl⟩ := h.mutated
  obtain ⟨name, members, dist, prev, skdm, rfl⟩ := (mutate_effect hmutate).frame
  exact digest_recordDigest_keeps hne hwindow hknown

theorem InOrder.digest_keeps (h : InOrder env g ops g') {e : UInt64}
    (he : e.toNat ≤ g.currentEpoch.toNat)
    (hwindow : g'.currentEpoch.toNat < e.toNat + recentOpDigestsWindow) {known : Bytes}
    (hknown : g.digest e = some known) : g'.digest e = some known := by
  induction h with
  | nil => exact hknown
  | cons _ _ _ next lands rest ih =>
    have hepoch := nextEpoch_eq_some_iff.mp next
    have hcurrent := congrArg UInt64.toNat lands.frame.2.1
    have hend := rest.currentEpoch_eq
    refine ih (by omega) hwindow (Lands.digest_keeps lands ?_ (by omega) hknown)
    rintro rfl
    omega

/-- The group knows the digest of every op of the run that is still in the window. -/
theorem InOrder.digest_recent (h : InOrder env g ops g') {e : UInt64}
    (hlow : g.currentEpoch.toNat < e.toNat) (hhigh : e.toNat ≤ g'.currentEpoch.toNat)
    (hwindow : g'.currentEpoch.toNat < e.toNat + recentOpDigestsWindow) :
    ∃ x ∈ ops, g'.digest e = some (env.hash x.wire) := by
  induction h with
  | nil => omega
  | @cons g g₁ g' op ops _ _ _ next lands rest ih =>
    have hepoch := nextEpoch_eq_some_iff.mp next
    have hcurrent := congrArg UInt64.toNat lands.frame.2.1
    by_cases hfirst : e = op.epoch
    · subst hfirst
      exact ⟨op, List.mem_cons_self,
        rest.digest_keeps (by omega) hwindow (Lands.digest_self lands)⟩
    · have hne : e.toNat ≠ op.epoch.toNat := fun heq => hfirst (UInt64.toNat_inj.mp heq)
      obtain ⟨x, hx, hdigest⟩ := ih (by omega) hhigh hwindow
      exact ⟨x, List.mem_cons_of_mem _ hx, hdigest⟩

/-! ## The group between two calls -/

/-- The group is an in-order group of delivered ops, with some queue. -/
def OnChain (env : GroupEnv) (g₀ : ChatGroup) (delivered : List GroupOp) (g : ChatGroup) : Prop :=
  ∃ done mid, InOrder env g₀ done mid ∧ (∀ x ∈ done, x ∈ delivered) ∧
    g = mid.withPending g.pendingOps

/-- An op of this group that was delivered, with its bytes. -/
def Arrived (g₀ : ChatGroup) (delivered : List GroupOp) (op : GroupOp) (bytes : Bytes) : Prop :=
  op ∈ delivered ∧ op.groupId = g₀.id ∧ op.encoded = .ok bytes

/-- Between two calls: the group is on the chain, and what is parked has arrived. -/
structure Follows (env : GroupEnv) (g₀ : ChatGroup) (delivered : List GroupOp)
    (g : ChatGroup) : Prop where
  onChain : OnChain env g₀ delivered g
  parked : ∀ bytes ∈ g.pendingOps, ∃ x, Arrived g₀ delivered x bytes

theorem OnChain.id_eq (h : OnChain env g₀ delivered g) : g.id = g₀.id := by
  obtain ⟨done, mid, hrun, -, heq⟩ := h
  rw [heq]
  exact hrun.id_eq

theorem OnChain.withPending (h : OnChain env g₀ delivered g) (p : List Bytes) :
    OnChain env g₀ delivered (g.withPending p) := by
  obtain ⟨done, mid, hrun, hdone, heq⟩ := h
  refine ⟨done, mid, hrun, hdone, ?_⟩
  rw [heq]
  rfl

theorem OnChain.mono (h : OnChain env g₀ delivered g) (hsub : ∀ x ∈ delivered, x ∈ ops) :
    OnChain env g₀ ops g := by
  obtain ⟨done, mid, hrun, hdone, heq⟩ := h
  exact ⟨done, mid, hrun, fun x hx => hsub x (hdone x hx), heq⟩

/-- Taking effect does not depend on the queue. -/
theorem Lands.of_withPending {d : Bytes} {p : List Bytes}
    (h : Lands env op d (g.withPending p) g') :
    ∃ g₁, Lands env op d g g₁ ∧ g' = g₁.withPending p := by
  have hland := h.land_eq
  rw [land_withPending] at hland
  obtain ⟨⟨outcome, g₁⟩, hland₁, heq⟩ := Option.map_eq_some_iff.mp hland
  obtain ⟨rfl, rfl⟩ := Prod.mk.inj heq
  rcases land_cases hland₁ with ⟨-, hlands⟩ | ⟨hrefused, -⟩
  · exact ⟨g₁, hlands, rfl⟩
  · cases hrefused

/-- An arrived op that takes effect leaves the group on the chain. -/
theorem OnChain.lands {bytes : Bytes} (h : OnChain env g₀ delivered g)
    (hop : Arrived g₀ delivered op bytes) (hsig : op.verifySignature env = true)
    (hnext : nextEpoch g.currentEpoch = some op.epoch)
    (hlands : Lands env op (env.hash bytes) g g') : OnChain env g₀ delivered g' := by
  obtain ⟨done, mid, hrun, hdone, heq⟩ := h
  obtain ⟨hmem, hid, hencoded⟩ := hop
  obtain rfl := GroupOp.wire_eq hencoded
  rw [heq] at hnext hlands
  obtain ⟨mid', hlands', rfl⟩ := Lands.of_withPending hlands
  refine ⟨done ++ [op], mid', hrun.append ?_, ?_, rfl⟩
  · exact .cons (hid.trans hrun.id_eq.symm) hencoded hsig hnext hlands' (.nil mid')
  · intro x hx
    rcases List.mem_append.mp hx with hx | hx
    · exact hdone x hx
    · rw [List.mem_singleton.mp hx]
      exact hmem

/-! ## The first op of a fork -/

/-- Wherever the receiver may stand when the op's turn comes, the op takes effect: at the end
of any chain of delivered ops up to it, so with several forks also of one that the receiver
does not follow. -/
def TakesEffect (env : GroupEnv) (g₀ : ChatGroup) (ops : List GroupOp) (op : GroupOp) : Prop :=
  ∀ done mid, InOrder env g₀ done mid → (∀ x ∈ done, x ∈ ops) →
    nextEpoch mid.currentEpoch = some op.epoch → ∃ mid', Lands env op (env.hash op.wire) mid mid'

/-- The op is parked, or its epoch is taken. -/
def Reached (op : GroupOp) (g : ChatGroup) : Prop :=
  op.wire ∈ g.pendingOps ∨ op.epoch ≤ g.currentEpoch

/-- On the chain, an op that takes effect lands when it is next. -/
theorem TakesEffect.land_eq (hop : TakesEffect env g₀ ops op) (h : OnChain env g₀ delivered g)
    (hsub : ∀ x ∈ delivered, x ∈ ops) (hnext : nextEpoch g.currentEpoch = some op.epoch) :
    ∃ g', land env op (env.hash op.wire) g = some (.applied op.epoch, g') ∧
      g'.currentEpoch = op.epoch := by
  obtain ⟨done, mid, hrun, hdone, heq⟩ := h
  rw [heq] at hnext ⊢
  obtain ⟨mid', hlands⟩ := hop done mid hrun (fun x hx => hsub x (hdone x hx)) hnext
  refine ⟨mid'.withPending g.pendingOps, ?_, hlands.frame.2.1⟩
  rw [land_withPending, hlands.land_eq]
  rfl

/-- The cascade over arrived ops stays on the chain; an op that takes effect stays
parked, or its epoch is taken. -/
theorem drain_follows (hsub : ∀ x ∈ delivered, x ∈ ops) :
    ∀ {entries : List (GroupOp × Bytes)} {g : ChatGroup} {r : List Bytes × ChatGroup},
      (∀ e ∈ entries, Arrived g₀ delivered e.1 e.2) → OnChain env g₀ delivered g →
      drain env entries g = some r →
      OnChain env g₀ delivered r.2 ∧ g.currentEpoch ≤ r.2.currentEpoch ∧
        ∀ op, TakesEffect env g₀ ops op → op.verifySignature env = true →
          (op, op.wire) ∈ entries → op.wire ∈ r.1 ∨ op.epoch ≤ r.2.currentEpoch
  | [], g, r, _, hchain, h => by
    cases h
    exact ⟨hchain, UInt64.le_refl _, fun op _ _ hmem => by cases hmem⟩
  | (op, bytes) :: rest, g, r, harrived, hchain, h => by
    have hrest : ∀ e ∈ rest, Arrived g₀ delivered e.1 e.2 :=
      fun e he => harrived e (List.mem_cons_of_mem _ he)
    have hop := harrived (op, bytes) List.mem_cons_self
    rw [drain] at h
    split at h
    · -- superseded: dropped without a look at its digest
      rename_i hpast
      obtain ⟨hend, hle, hreached⟩ := drain_follows hsub hrest hchain h
      refine ⟨hend, hle, fun x hx hsig hmem => ?_⟩
      rcases List.mem_cons.mp hmem with heq | hmem
      · obtain ⟨rfl, -⟩ := Prod.mk.inj heq
        exact .inr (UInt64.le_trans hpast hle)
      · exact hreached x hx hsig hmem
    · split at h
      · rename_i hnext
        split at h
        · rename_i hsig
          obtain ⟨⟨outcome, g₁⟩, hland, h⟩ := Option.bind_eq_some_iff.mp h
          have hstep : OnChain env g₀ delivered g₁ ∧ g.currentEpoch ≤ g₁.currentEpoch := by
            rcases land_cases hland with ⟨-, hlands⟩ | ⟨-, hsame⟩
            · refine ⟨hchain.lands hop hsig hnext hlands, ?_⟩
              rw [hlands.frame.2.1, UInt64.le_iff_toNat_le, nextEpoch_eq_some_iff.mp hnext]
              omega
            · rw [show g₁ = g from hsame]
              exact ⟨hchain, UInt64.le_refl _⟩
          obtain ⟨hend, hle, hreached⟩ := drain_follows hsub hrest hstep.1 h
          refine ⟨hend, UInt64.le_trans hstep.2 hle, fun x hx hsigx hmem => ?_⟩
          rcases List.mem_cons.mp hmem with heq | hmem
          · -- its turn: it takes effect
            obtain ⟨rfl, rfl⟩ := Prod.mk.inj heq
            obtain ⟨g₂, hland₂, hepoch⟩ := hx.land_eq hchain hsub hnext
            rw [hland₂] at hland
            cases hland
            exact .inr (hepoch ▸ hle)
          · exact hreached x hx hsigx hmem
        · rename_i hsig
          obtain ⟨hend, hle, hreached⟩ := drain_follows hsub hrest hchain h
          refine ⟨hend, hle, fun x hx hsigx hmem => ?_⟩
          rcases List.mem_cons.mp hmem with heq | hmem
          · obtain ⟨rfl, -⟩ := Prod.mk.inj heq
            exact absurd hsigx hsig
          · exact hreached x hx hsigx hmem
      · obtain ⟨⟨kept, g₁⟩, hdrain, heq⟩ := Option.map_eq_some_iff.mp h
        cases heq
        obtain ⟨hend, hle, hreached⟩ := drain_follows hsub hrest hchain hdrain
        refine ⟨hend, hle, fun x hx hsigx hmem => ?_⟩
        rcases List.mem_cons.mp hmem with heq | hmem
        · obtain ⟨-, rfl⟩ := Prod.mk.inj heq
          exact .inl List.mem_cons_self
        · exact (hreached x hx hsigx hmem).imp_left (List.mem_cons_of_mem _)

/-! ## One call -/

theorem applyStep_queued_group {e : UInt64} (h : applyStep env me op g = some (.queued e, g')) :
    op.groupId = g.id := by
  by_contra hid
  rw [applyStep, if_pos hid] at h
  cases h

/-- The entries of the cascade have arrived. -/
theorem Follows.entries (h : Follows env g₀ delivered g) :
    ∀ e ∈ sortByEpoch (decodePending g.pendingOps), Arrived g₀ delivered e.1 e.2 := by
  intro e he
  obtain ⟨bytes, hbytes, hdecoded⟩ := List.mem_filterMap.mp ((List.mem_insertionSort _).mp he)
  obtain ⟨y, hy⟩ := h.parked bytes hbytes
  rw [GroupOp.decode_encoded hy.2.2] at hdecoded
  cases hdecoded
  exact hy

/-- The cascade keeps `Follows`, and keeps an op that takes effect reached. -/
theorem Follows.replay (h : Follows env g₀ delivered g) (hsub : ∀ x ∈ delivered, x ∈ ops)
    (hreplay : ChatGroup.replay env g = some g') :
    Follows env g₀ delivered g' ∧
      ∀ op, TakesEffect env g₀ ops op → op.encoded = .ok op.wire →
        op.verifySignature env = true → Reached op g → Reached op g' := by
  obtain ⟨⟨kept, g₁⟩, hdrain, rfl⟩ := Option.map_eq_some_iff.mp hreplay
  obtain ⟨hchain, hle, hreached⟩ := drain_follows hsub h.entries h.onChain hdrain
  constructor
  · refine ⟨hchain.withPending kept, fun bytes hbytes => ?_⟩
    obtain ⟨e, he, rfl⟩ := List.mem_map.mp ((drain_kept_sublist hdrain).subset hbytes)
    exact ⟨e.1, h.entries e he⟩
  · intro op hop hencoded hsig hbefore
    rcases hbefore with hparked | hpast
    · exact hreached op hop hsig
        (mem_sortByEpoch_decodePending hparked (GroupOp.decode_encoded hencoded))
    · exact .inr (UInt64.le_trans hpast hle)

theorem Follows.mono (h : Follows env g₀ delivered g) (hsub : ∀ x ∈ delivered, x ∈ ops) :
    Follows env g₀ ops g := by
  refine ⟨h.onChain.mono hsub, fun bytes hbytes => ?_⟩
  obtain ⟨y, hmem, hrest⟩ := h.parked bytes hbytes
  exact ⟨y, hsub y hmem, hrest⟩

/-- One call keeps `Follows`, and keeps an op that takes effect reached. -/
theorem Follows.step {outcome : ApplyOutcome} (h : Follows env g₀ delivered g)
    (hsub : ∀ y ∈ delivered ++ [x], y ∈ ops)
    (hstep : applyStep env me x g = some (outcome, g')) :
    Follows env g₀ (delivered ++ [x]) g' ∧
      ∀ op, TakesEffect env g₀ ops op → op.encoded = .ok op.wire →
        op.verifySignature env = true → Reached op g → Reached op g' := by
  have hgrown : Follows env g₀ (delivered ++ [x]) g :=
    h.mono fun y hy => List.mem_append_left _ hy
  rcases applyStep_cases hstep with ⟨hsame, -⟩ | ⟨bytes, hencoded, -, hqueued⟩ | hlanded
  · rw [show g' = g from hsame]
    exact ⟨hgrown, fun _ _ _ _ hreached => hreached⟩
  · obtain ⟨rfl, rfl⟩ := Prod.mk.inj hqueued
    have hid := (applyStep_queued_group hstep).trans h.onChain.id_eq
    constructor
    · constructor
      · rw [queuePending_eq]
        exact hgrown.onChain.withPending _
      · intro b hb
        rcases mem_of_mem_queuePending hb with hb | rfl
        · exact hgrown.parked b hb
        · exact ⟨x, List.mem_append_right _ List.mem_cons_self, hid, hencoded⟩
    · intro op _ _ _ hreached
      refine hreached.imp mem_queuePending fun hpast => ?_
      rw [queuePending_eq]
      exact hpast
  · obtain ⟨bytes, g₁, hid, hencoded, hsig, hnext, hlands, -, hreplay⟩ := hlanded
    have harrived : Arrived g₀ (delivered ++ [x]) x bytes :=
      ⟨List.mem_append_right _ List.mem_cons_self, hid.trans h.onChain.id_eq, hencoded⟩
    have hmid : Follows env g₀ (delivered ++ [x]) g₁ := by
      refine ⟨hgrown.onChain.lands harrived hsig hnext hlands, ?_⟩
      rw [hlands.frame.2.2.2]
      exact hgrown.parked
    obtain ⟨hend, hreached⟩ := hmid.replay hsub hreplay
    refine ⟨hend, fun op hop hencodes hsigned hbefore => ?_⟩
    refine hreached op hop hencodes hsigned (hbefore.imp ?_ fun hpast => ?_)
    · intro hparked
      rw [hlands.frame.2.2.2]
      exact hparked
    · refine UInt64.le_trans hpast ?_
      rw [hlands.frame.2.1, UInt64.le_iff_toNat_le, nextEpoch_eq_some_iff.mp hnext]
      omega

/-- Before the first call. -/
theorem Follows.start (h : g₀.pendingOps = []) : Follows env g₀ [] g₀ := by
  refine ⟨⟨[], g₀, .nil g₀, nofun, rfl⟩, ?_⟩
  rw [h]
  nofun

/-- A run of calls. -/
theorem Follows.runOps {pre : List GroupOp} {outs : List ApplyOutcome}
    (h : Follows env g₀ delivered g) (hsub : ∀ y ∈ delivered ++ pre, y ∈ ops)
    (hrun : ChatGroup.runOps env me pre g = some (outs, g')) :
    Follows env g₀ (delivered ++ pre) g' ∧
      ∀ op, TakesEffect env g₀ ops op → op.encoded = .ok op.wire →
        op.verifySignature env = true → Reached op g → Reached op g' := by
  induction pre generalizing delivered g outs with
  | nil =>
    cases hrun
    rw [List.append_nil]
    exact ⟨h, fun _ _ _ _ hreached => hreached⟩
  | cons x pre ih =>
    rw [runOps_cons] at hrun
    obtain ⟨⟨outcome, g₁⟩, hstep, hrun⟩ := Option.bind_eq_some_iff.mp hrun
    obtain ⟨⟨outs', g₂⟩, hrest, heq⟩ := Option.map_eq_some_iff.mp hrun
    cases heq
    have hassoc : delivered ++ x :: pre = delivered ++ [x] ++ pre := by simp
    rw [hassoc] at hsub ⊢
    obtain ⟨hone, hkeep⟩ := h.step (fun y hy => hsub y (List.mem_append_left _ hy)) hstep
    obtain ⟨hend, hkeep'⟩ := ih hone hsub hrest
    exact ⟨hend, fun op hop hencodes hsig hreached =>
      hkeep' op hop hencodes hsig (hkeep op hop hencodes hsig hreached)⟩

/-! ## Delivering the two ops -/

/-- How a delivery of one of the two finds the receiver: not before the receiver's
own join, with the epoch in the digest window, and with room in the queue if the op
has to wait. -/
structure Timely (me : Option Bytes) (op : GroupOp) (g : ChatGroup) : Prop where
  joined : ∀ joinedAt ∈ g.localJoinedAt { localIdentityPub := me }, joinedAt ≤ op.epoch
  window : g.currentEpoch.toNat < op.epoch.toNat + recentOpDigestsWindow
  room : g.currentEpoch.toNat + 1 < op.epoch.toNat →
    op.wire ∈ g.pendingOps ∨ g.pendingOps.length < pendingOpsCap ∧
      parkedBy g.pendingOps op.operatorIdentity < pendingOpsPerOperatorCap

/-- A call that does not trap finds a next epoch. -/
theorem nextEpoch_of_applyStep {r : ApplyOutcome × ChatGroup} (hid : op.groupId = g.id)
    (hencoded : op.encoded = .ok op.wire) (hsig : op.verifySignature env = true)
    (h : applyStep env me op g = some r) : ∃ expected, nextEpoch g.currentEpoch = some expected := by
  refine Option.ne_none_iff_exists'.mp fun hnone => ?_
  rw [applyStep_trap hid hencoded hsig hnone] at h
  cases h

/-- An op that takes effect is parked by its own delivery, or its epoch is taken. -/
theorem reached_of_delivery {outcome : ApplyOutcome} (h : Follows env g₀ delivered g)
    (hsub : ∀ y ∈ delivered ++ [op], y ∈ ops) (hop : TakesEffect env g₀ ops op)
    (hid : op.groupId = g₀.id) (hencoded : op.encoded = .ok op.wire)
    (hsig : op.verifySignature env = true) (htimely : Timely me op g)
    (hstep : applyStep env me op g = some (outcome, g')) : Reached op g' := by
  have hidg : op.groupId = g.id := hid.trans h.onChain.id_eq.symm
  obtain ⟨expected, hnext⟩ := nextEpoch_of_applyStep hidg hencoded hsig hstep
  have hexpected := nextEpoch_eq_some_iff.mp hnext
  have hkeep := (h.step hsub hstep).2 op hop hencoded hsig
  by_cases hpast : op.epoch ≤ g.currentEpoch
  · exact hkeep (.inr hpast)
  have hnot : ¬ op.epoch < expected := by
    rw [UInt64.le_iff_toNat_le] at hpast
    rw [UInt64.lt_iff_toNat_lt]
    omega
  have happly : applyStep env me op g = _ := applyStep_of_ok hidg hencoded hsig hnext
  rw [hstep, if_neg hnot] at happly
  by_cases hearly : expected < op.epoch
  · -- it is parked
    rw [if_pos hearly] at happly
    obtain ⟨-, rfl⟩ := Prod.mk.inj (Option.some.inj happly)
    rw [UInt64.lt_iff_toNat_lt, hexpected] at hearly
    by_cases hmem : op.wire ∈ g.pendingOps
    · exact .inl (mem_queuePending hmem)
    · obtain ⟨htotal, hper⟩ := (htimely.room hearly).resolve_left hmem
      left
      rw [queuePending_of_room (GroupOp.decode_encoded hencoded) htotal hmem hper]
      exact List.mem_append_right _ List.mem_cons_self
  · -- its turn
    have hepoch : expected = op.epoch := by
      rw [UInt64.lt_iff_toNat_lt] at hearly hnot
      exact UInt64.toNat_inj.mp (by omega)
    subst hepoch
    have hchain := h.onChain.mono fun y hy => hsub y (List.mem_append_left _ hy)
    obtain ⟨g₁, hland, hcurrent⟩ := hop.land_eq hchain (fun _ hy => hy) hnext
    rw [if_neg hearly, hland] at happly
    obtain ⟨g₂, hreplay, heq⟩ := Option.map_eq_some_iff.mp (happly.symm :
      (ChatGroup.replay env g₁).map (fun g' => (ApplyOutcome.applied op.epoch, g')) =
        some (outcome, g'))
    obtain ⟨-, rfl⟩ := Prod.mk.inj heq
    obtain ⟨⟨kept, g₃⟩, hdrain, rfl⟩ := Option.map_eq_some_iff.mp hreplay
    right
    show op.epoch ≤ g₃.currentEpoch
    refine drain_invariant (fun h => op.epoch ≤ h.currentEpoch) ?_ hdrain ?_
    · intro y _ h h' _ hnext' hlands hle
      refine UInt64.le_trans hle ?_
      rw [hlands.frame.2.1, UInt64.le_iff_toNat_le, nextEpoch_eq_some_iff.mp hnext']
      omega
    · rw [hcurrent]
      exact UInt64.le_refl _

/-- An op at an epoch that another delivered op has taken is answered with
`rejectedEquivocation`. -/
theorem applyStep_equivocation {r : ApplyOutcome × ChatGroup} (h : Follows env g₀ delivered g)
    (hid : op.groupId = g₀.id) (hencoded : op.encoded = .ok op.wire)
    (hsig : op.verifySignature env = true) (htimely : Timely me op g)
    (hlow : g₀.currentEpoch.toNat < op.epoch.toNat) (hpast : op.epoch ≤ g.currentEpoch)
    (hother : ∀ y ∈ delivered, y.encoded = .ok y.wire → env.hash y.wire ≠ env.hash op.wire)
    (hstep : applyStep env me op g = some r) : r.1 = .rejectedEquivocation op.epoch := by
  have hidg : op.groupId = g.id := hid.trans h.onChain.id_eq.symm
  obtain ⟨expected, hnext⟩ := nextEpoch_of_applyStep hidg hencoded hsig hstep
  rw [UInt64.le_iff_toNat_le] at hpast
  have hlt : op.epoch < expected := by
    rw [UInt64.lt_iff_toNat_lt, nextEpoch_eq_some_iff.mp hnext]
    omega
  obtain ⟨done, mid, hrun, hdone, heq⟩ := h.onChain
  have hcurrent : mid.currentEpoch = g.currentEpoch := by
    rw [heq]
    rfl
  have hwindow := htimely.window
  obtain ⟨y, hy, hknown⟩ := hrun.digest_recent hlow (by rw [hcurrent]; exact hpast)
    (by rw [hcurrent]; exact hwindow)
  have hdigest : g.digest op.epoch = some (env.hash y.wire) := by
    rw [heq]
    exact hknown
  have hjoined : ¬ (g.localJoinedAt { localIdentityPub := me }).any
      (fun joinedAt => decide (op.epoch < joinedAt)) = true := by
    intro hany
    obtain ⟨joinedAt, hlookup, hbefore⟩ := Option.any_eq_true _ _ |>.mp hany
    exact UInt64.not_lt.mpr (htimely.joined joinedAt hlookup) (of_decide_eq_true hbefore)
  have hdiffers : (g.digest op.epoch).any
      (fun known => decide (known ≠ env.hash op.wire)) = true := by
    rw [hdigest]
    exact decide_eq_true (hother y (hdone y hy) (hrun.op_ok hy).2.1)
  rw [applyStep_of_ok hidg hencoded hsig hnext, if_pos hlt, applyPast, if_neg hjoined,
    if_pos hdiffers] at hstep
  cases hstep
  rfl

/-! ## Runs that deliver both -/

/-- What each call of a run reports to `handleGroupOp`: its outcome, and the
`equivocationEpoch` it leaves in the side effects. -/
def reports (env : GroupEnv) (me : Option Bytes) :
    List GroupOp → ChatGroup → Option (List (ApplyOutcome × Option UInt64))
  | [], _ => some []
  | op :: ops, g =>
    match ChatGroup.apply env op g { localIdentityPub := me } with
    | none => none
    | some (outcome, g', sx) =>
      (reports env me ops g').map fun rs => (outcome, sx.equivocationEpoch) :: rs

/-- In the run of `ops` from `g₀`, the group is `g` when `x` is delivered. -/
def DeliveredAt (env : GroupEnv) (me : Option Bytes) (g₀ : ChatGroup) (ops : List GroupOp)
    (x : GroupOp) (g : ChatGroup) : Prop :=
  ∃ pre post outs, ops = pre ++ x :: post ∧ runOps env me pre g₀ = some (outs, g)

/-- Each delivery of a run that does not trap has its report. -/
theorem mem_reports {pre post : List GroupOp} {rs : List (ApplyOutcome × Option UInt64)}
    (h : reports env me (pre ++ x :: post) g = some rs) :
    ∃ outs g₁ outcome g₂, runOps env me pre g = some (outs, g₁) ∧
      applyStep env me x g₁ = some (outcome, g₂) ∧ ∃ r ∈ rs, r.1 = outcome := by
  induction pre generalizing g rs with
  | nil =>
    rw [List.nil_append, reports] at h
    split at h
    · cases h
    · rename_i outcome g₂ sx happly
      obtain ⟨rest, -, rfl⟩ := Option.map_eq_some_iff.mp h
      refine ⟨[], g, outcome, g₂, rfl, ?_, _, List.mem_cons_self, rfl⟩
      rw [← apply_applyStep x g { localIdentityPub := me }, happly]
      rfl
  | cons y pre ih =>
    rw [List.cons_append, reports] at h
    split at h
    · cases h
    · rename_i outcome g₂ sx happly
      obtain ⟨rest, hrest, rfl⟩ := Option.map_eq_some_iff.mp h
      obtain ⟨outs, g₁, last, g₃, hrun, hlast, r, hr, hout⟩ := ih hrest
      refine ⟨outcome :: outs, g₁, last, g₃, ?_, hlast, r, List.mem_cons_of_mem _ hr, hout⟩
      rw [runOps, happly]
      show (runOps env me pre g₂).map _ = _
      rw [hrun]
      rfl

/-- Two ops of a list, the one that comes first and the first occurrence of the other. -/
theorem exists_first_second {a b : GroupOp} (hne : a ≠ b) (ha : a ∈ ops) (hb : b ∈ ops) :
    ∃ first second pre between post, (first = a ∧ second = b ∨ first = b ∧ second = a) ∧
      ops = pre ++ first :: (between ++ second :: post) ∧
      second ∉ pre ++ first :: between ∧ first ∉ pre := by
  obtain ⟨pre, post, rfl, hpre⟩ := List.eq_append_cons_of_mem hb
  by_cases hbefore : a ∈ pre
  · obtain ⟨pre₁, pre₂, rfl, hpre₁⟩ := List.eq_append_cons_of_mem hbefore
    refine ⟨a, b, pre₁, pre₂, post, .inl ⟨rfl, rfl⟩, by simp, hpre, hpre₁⟩
  · have hafter : a ∈ post := by
      rcases List.mem_append.mp ha with ha | ha
      · exact absurd ha hbefore
      · exact (List.mem_cons.mp ha).resolve_left hne
    obtain ⟨post₁, post₂, rfl, hpost₁⟩ := List.eq_append_cons_of_mem hafter
    refine ⟨b, a, pre, post₁, post₂, .inr ⟨rfl, rfl⟩, rfl, ?_, hpre⟩
    intro hmem
    rcases List.mem_append.mp hmem with hmem | hmem
    · exact hbefore hmem
    · exact (List.mem_cons.mp hmem).elim hne hpost₁

/-- An op of this group that encodes and is signed. -/
structure SignedOp (env : GroupEnv) (g₀ : ChatGroup) (op : GroupOp) : Prop where
  group : op.groupId = g₀.id
  encodes : op.encoded = .ok op.wire
  signed : op.verifySignature env = true

/-- Two different signed ops of one epoch. -/
structure Fork (env : GroupEnv) (g₀ : ChatGroup) (a b : GroupOp) : Prop where
  different : a ≠ b
  epoch : b.epoch = a.epoch
  later : g₀.currentEpoch < a.epoch
  left : SignedOp env g₀ a
  right : SignedOp env g₀ b

theorem Fork.symm {a b : GroupOp} (h : Fork env g₀ a b) : Fork env g₀ b a :=
  ⟨h.different.symm, h.epoch.symm, h.epoch ▸ h.later, h.right, h.left⟩

/-- Neither of the two arrives while the other is parked. -/
def NeverBothWaiting (env : GroupEnv) (me : Option Bytes) (g₀ : ChatGroup) (ops : List GroupOp)
    (a b : GroupOp) : Prop :=
  ∀ g, (DeliveredAt env me g₀ ops a g → b.wire ∉ g.pendingOps) ∧
    (DeliveredAt env me g₀ ops b g → a.wire ∉ g.pendingOps)

/-- A fork whose second op arrives after the first one was reached. -/
theorem second_noticed {first second : GroupOp} {pre between post : List GroupOp}
    {rs : List (ApplyOutcome × Option UInt64)} (hempty : g₀.pendingOps = [])
    (hfork : Fork env g₀ first second)
    (hops : ops = pre ++ first :: (between ++ second :: post))
    (hnew : second ∉ pre ++ first :: between)
    (hhash : ∀ x ∈ ops, ∀ y ∈ ops, env.hash x.wire = env.hash y.wire → x.wire = y.wire)
    (htimely : ∀ x g, (x = first ∨ x = second) → DeliveredAt env me g₀ ops x g → Timely me x g)
    (heffect : TakesEffect env g₀ ops first)
    (hwaiting : NeverBothWaiting env me g₀ ops first second)
    (hrun : reports env me ops g₀ = some rs) :
    ∃ r ∈ rs, r.1 = .rejectedEquivocation first.epoch := by
  subst hops
  have hassoc : pre ++ first :: (between ++ second :: post) =
      (pre ++ first :: between) ++ second :: post := by simp
  -- the first op is reached by its own delivery
  obtain ⟨outs₁, g₁, outcome₁, g₂, hrun₁, hstep₁, -⟩ := mem_reports hrun
  have hfollows₁ : Follows env g₀ ([] ++ pre) g₁ :=
    ((Follows.start hempty).runOps (fun _ hy => hy) hrun₁).1
  have hsub₁ : ∀ y ∈ [] ++ pre ++ [first], y ∈ pre ++ first :: (between ++ second :: post) := by
    intro y hy
    simp only [List.nil_append, List.mem_append, List.mem_cons, List.not_mem_nil, or_false] at hy ⊢
    tauto
  have hreached₁ : Reached first g₂ :=
    reached_of_delivery hfollows₁ hsub₁ heffect hfork.left.group hfork.left.encodes
      hfork.left.signed (htimely first g₁ (.inl rfl) ⟨pre, _, outs₁, rfl, hrun₁⟩) hstep₁
  -- and stays reached until the second one arrives
  have hrun' := hrun
  rw [hassoc] at hrun'
  obtain ⟨outs₂, g₃, outcome₂, g₄, hrun₂, hstep₂, r, hr, hout⟩ := mem_reports hrun'
  have hsplit := hrun₂
  rw [runOps_append, hrun₁] at hsplit
  obtain ⟨⟨outs₃, g₅⟩, hrun₃, heq⟩ := Option.map_eq_some_iff.mp hsplit
  obtain ⟨-, rfl⟩ := Prod.mk.inj heq
  have hsub₂ : ∀ y ∈ [] ++ pre ++ first :: between,
      y ∈ pre ++ first :: (between ++ second :: post) := by
    intro y hy
    rw [hassoc]
    exact List.mem_append_left _ hy
  rw [runOps_cons, hstep₁] at hrun₃
  obtain ⟨⟨outs₄, g₆⟩, hrun₄, heq⟩ := Option.map_eq_some_iff.mp hrun₃
  obtain ⟨-, rfl⟩ := Prod.mk.inj heq
  obtain ⟨hfollows₂, -⟩ := hfollows₁.step hsub₁ hstep₁
  have hshape : [] ++ pre ++ [first] ++ between = pre ++ first :: between := by simp
  obtain ⟨hfollows₃, hkeep⟩ := hfollows₂.runOps (by rw [hshape]; exact hsub₂) hrun₄
  rw [hshape] at hfollows₃
  have hreached := hkeep first heffect hfork.left.encodes hfork.left.signed hreached₁
  have hdelivered : DeliveredAt env me g₀ (pre ++ first :: (between ++ second :: post)) second g₆ :=
    ⟨_, post, outs₂, hassoc, hrun₂⟩
  have hpast := hreached.resolve_left ((hwaiting g₆).2 hdelivered)
  refine ⟨r, hr, ?_⟩
  rw [hout, ← hfork.epoch]
  refine applyStep_equivocation hfollows₃ hfork.right.group hfork.right.encodes
    hfork.right.signed (htimely second g₆ (.inr rfl) hdelivered) ?_ ?_ ?_ hstep₂
  · rw [hfork.epoch]
    exact UInt64.lt_iff_toNat_lt.mp hfork.later
  · rw [hfork.epoch]
    exact hpast
  · intro y hy hencoded hcollision
    have hsecond : second ∈ pre ++ first :: (between ++ second :: post) := by simp
    have hwire := hhash y (hsub₂ y hy) second hsecond hcollision
    have hsame : y = second := GroupOp.encoded_inj hencoded (hwire ▸ hfork.right.encodes)
    exact hnew (hsame ▸ hy)

/-- The group `create` makes is at epoch 0 and has nothing parked. -/
theorem create_pendingOps {bytes : Bytes} (h : ChatGroup.create env op bytes = some g) :
    g.pendingOps = [] :=
  FreshGroup.pendingOps_nil (.inl ⟨op, bytes, h⟩)

/-- A fork is noticed in every run that delivers both ops, if neither arrives while
the other is parked and the one that arrives first takes effect when its turn comes.
Digests do not collide on the ops of the run. -/
theorem fork_noticed {create a b : GroupOp} {createBytes : Bytes}
    {rs : List (ApplyOutcome × Option UInt64)}
    (hcreate : ChatGroup.create env create createBytes = some g₀)
    (hfork : Fork env g₀ a b) (ha : a ∈ ops) (hb : b ∈ ops)
    (hhash : ∀ x ∈ ops, ∀ y ∈ ops, env.hash x.wire = env.hash y.wire → x.wire = y.wire)
    (htimely : ∀ x g, (x = a ∨ x = b) → DeliveredAt env me g₀ ops x g → Timely me x g)
    (hfirst : ∀ x ∈ ops.find? (fun x => x = a ∨ x = b), TakesEffect env g₀ ops x)
    (hwaiting : NeverBothWaiting env me g₀ ops a b)
    (hrun : reports env me ops g₀ = some rs) :
    ∃ r ∈ rs, r.1 = .rejectedEquivocation a.epoch ∨ r.2 = some a.epoch := by
  have hempty := create_pendingOps hcreate
  obtain ⟨first, second, pre, between, post, hnames, hops, hnew, hpre⟩ :=
    exists_first_second hfork.different ha hb
  have hfind : ops.find? (fun x => x = a ∨ x = b) = some first := by
    have hnone : pre.find? (fun x => decide (x = a ∨ x = b)) = none := by
      refine List.find?_eq_none.mpr fun x hx hhit => ?_
      have hsecond : second ∉ pre := fun hmem => hnew (List.mem_append_left _ hmem)
      rcases hnames with ⟨rfl, rfl⟩ | ⟨rfl, rfl⟩
      · rcases of_decide_eq_true hhit with rfl | rfl
        · exact hpre hx
        · exact hsecond hx
      · rcases of_decide_eq_true hhit with rfl | rfl
        · exact hsecond hx
        · exact hpre hx
    have hhit : decide (first = a ∨ first = b) = true := by
      rcases hnames with ⟨rfl, -⟩ | ⟨rfl, -⟩
      · exact decide_eq_true (.inl rfl)
      · exact decide_eq_true (.inr rfl)
    rw [hops, List.find?_append, hnone,
      List.find?_cons_of_pos (p := fun x => decide (x = a ∨ x = b)) hhit]
    rfl
  have heffect := hfirst first hfind
  rcases hnames with ⟨rfl, rfl⟩ | ⟨rfl, rfl⟩
  · obtain ⟨r, hr, hout⟩ :=
      second_noticed hempty hfork hops hnew hhash htimely heffect hwaiting hrun
    exact ⟨r, hr, .inl hout⟩
  · obtain ⟨r, hr, hout⟩ :=
      second_noticed hempty hfork.symm hops hnew hhash
        (fun x g hx => htimely x g hx.symm) heffect (fun g => (hwaiting g).symm) hrun
    rw [hfork.epoch] at hout
    exact ⟨r, hr, .inl hout⟩

/-! ## A fork that is noticed, and one that is not -/

/-- Peer 1 renames the sample group. -/
def hikeRename : GroupOp := sampleNext sampleGroup 1 (.rename "hike")

/-- Peer 1 renames the sample group otherwise, at the same epoch. -/
def swimRename : GroupOp := sampleNext sampleGroup 1 (.rename "swim")

/-- `Fork` from one conjunction, so that a fixed pair is evaluated once. -/
theorem Fork.intro {a b : GroupOp}
    (h : (a ≠ b ∧ b.epoch = a.epoch ∧ g₀.currentEpoch < a.epoch) ∧
      (a.groupId = g₀.id ∧ a.encoded = .ok a.wire ∧ a.verifySignature env = true) ∧
      b.groupId = g₀.id ∧ b.encoded = .ok b.wire ∧ b.verifySignature env = true) :
    Fork env g₀ a b :=
  ⟨h.1.1, h.1.2.1, h.1.2.2, ⟨h.2.1.1, h.2.1.2.1, h.2.1.2.2⟩, ⟨h.2.2.1, h.2.2.2.1, h.2.2.2.2⟩⟩

theorem rename_fork : Fork sampleEnv sampleGroup hikeRename swimRename :=
  .intro (by decide +kernel)

/-- The two renamings take effect on the sample group itself. -/
theorem hikeRename_takesEffect (ops : List GroupOp) :
    TakesEffect sampleEnv sampleGroup ops hikeRename := by
  intro done mid hrun _ hnext
  have hlength := hrun.currentEpoch_eq
  have hstart : sampleGroup.currentEpoch.toNat = 0 := by decide +kernel
  have hepoch : hikeRename.epoch.toNat = 1 := by decide +kernel
  have hbefore := nextEpoch_eq_some_iff.mp hnext
  have hnil : done = [] := List.length_eq_zero_iff.mp (by omega)
  subst hnil
  cases hrun
  have hland : ∃ r, land sampleEnv hikeRename (sampleEnv.hash hikeRename.wire) sampleGroup = some r ∧
      r.1 = .applied 1 := by
    refine ⟨(land sampleEnv hikeRename (sampleEnv.hash hikeRename.wire) sampleGroup).get
      (by decide +kernel), (Option.some_get _).symm, by decide +kernel⟩
  obtain ⟨r, hr, hout⟩ := hland
  rcases land_cases hr with ⟨-, hlands⟩ | ⟨hrefused, -⟩
  · exact ⟨r.2, hlands⟩
  · rw [hout] at hrefused
    cases hrefused

/-- The two renamings arrive one after the other. -/
theorem deliveredAt_renames {x : GroupOp} {g : ChatGroup} {me : Option Bytes}
    (h : DeliveredAt sampleEnv me sampleGroup [hikeRename, swimRename] x g) :
    x = hikeRename ∧ g = sampleGroup ∨
      x = swimRename ∧ ∃ outs, runOps sampleEnv me [hikeRename] sampleGroup = some (outs, g) := by
  obtain ⟨pre, post, outs, hops, hrun⟩ := h
  match pre, hops, hrun with
  | [], hops, hrun =>
    cases hrun
    exact .inl ⟨(List.cons.inj hops).1.symm, rfl⟩
  | [y], hops, hrun =>
    obtain ⟨hhead, hrest⟩ := List.cons.inj hops
    subst hhead
    exact .inr ⟨(List.cons.inj hrest).1.symm, outs, hrun⟩
  | y :: z :: pre, hops, _ =>
    have hlength := congrArg List.length hops
    simp at hlength

/-- The sample group after the first renaming, at peer 2. -/
def hiked : ChatGroup :=
  ((runOps sampleEnv (some (samplePeer 2)) [hikeRename] sampleGroup).get (by decide +kernel)).2

theorem hiked_eq {outs : List ApplyOutcome} {g : ChatGroup}
    (h : runOps sampleEnv (some (samplePeer 2)) [hikeRename] sampleGroup = some (outs, g)) :
    g = hiked := by
  simp only [hiked, h, Option.get_some]

theorem timely_start : Timely (some (samplePeer 2)) hikeRename sampleGroup := by
  have hjoin : sampleGroup.localJoinedAt { localIdentityPub := some (samplePeer 2) } = some 0 := by
    decide +kernel
  refine ⟨?_, by decide +kernel, fun _ => .inr ⟨by decide +kernel, by decide +kernel⟩⟩
  intro joinedAt hmem
  rw [hjoin] at hmem
  cases hmem
  exact UInt64.zero_le

theorem timely_hiked : Timely (some (samplePeer 2)) swimRename hiked := by
  have hjoin : hiked.localJoinedAt { localIdentityPub := some (samplePeer 2) } = some 0 := by
    decide +kernel
  refine ⟨?_, by decide +kernel, fun _ => .inr ⟨by decide +kernel, by decide +kernel⟩⟩
  intro joinedAt hmem
  rw [hjoin] at hmem
  cases hmem
  exact UInt64.zero_le

/-- Peer 2 notices that peer 1 signed two renamings. -/
theorem rename_fork_noticed :
    ∃ rs, reports sampleEnv (some (samplePeer 2)) [hikeRename, swimRename] sampleGroup = some rs ∧
      ∃ r ∈ rs, r.1 = .rejectedEquivocation hikeRename.epoch ∨ r.2 = some hikeRename.epoch := by
  have hcreate : ChatGroup.create sampleEnv (sampleCreate [1, 2]) (sampleCreate [1, 2]).wire =
      some sampleGroup := (Option.some_get _).symm
  have hrun : reports sampleEnv (some (samplePeer 2)) [hikeRename, swimRename] sampleGroup =
      some ((reports sampleEnv (some (samplePeer 2)) [hikeRename, swimRename] sampleGroup).get
        (by decide +kernel)) := (Option.some_get _).symm
  have hhash : ∀ x ∈ [hikeRename, swimRename], ∀ y ∈ [hikeRename, swimRename],
      sampleEnv.hash x.wire = sampleEnv.hash y.wire → x.wire = y.wire := by decide +kernel
  refine ⟨_, hrun, fork_noticed hcreate rename_fork (by simp) (by simp) hhash ?_ ?_ ?_ hrun⟩
  · intro x g _ hdelivered
    rcases deliveredAt_renames hdelivered with ⟨rfl, rfl⟩ | ⟨rfl, outs, hrun⟩
    · exact timely_start
    · rw [hiked_eq hrun]
      exact timely_hiked
  · intro x hx
    have hfirst : [hikeRename, swimRename].find? (fun x => x = hikeRename ∨ x = swimRename) =
        some hikeRename := by decide +kernel
    rw [hfirst] at hx
    cases hx
    exact hikeRename_takesEffect _
  · intro g
    constructor <;> intro hdelivered
    · rcases deliveredAt_renames hdelivered with ⟨-, rfl⟩ | ⟨heq, -⟩
      · decide +kernel
      · exact absurd heq rename_fork.different
    · rcases deliveredAt_renames hdelivered with ⟨heq, -⟩ | ⟨-, outs, hrun⟩
      · exact absurd heq.symm rename_fork.different
      · rw [hiked_eq hrun]
        decide +kernel

/-- The sample group with peer 3. -/
def addedGroup : ChatGroup := sampleApplied sampleAdd sampleGroup

/-- Another renaming of that group, at the epoch of `sampleRename`. -/
def otherRename : GroupOp := sampleNext addedGroup 1 (.rename "swim")

/-- The two renamings wait for the addition before them. Peer 1 is an admin and
signed both, on the digest of the addition; when the addition arrives, the cascade
applies one and drops the other, and no call reports a fork. -/
theorem parked_fork_unnoticed :
    Fork sampleEnv sampleGroup sampleRename otherRename ∧
      sampleRename.epoch = addedGroup.currentEpoch + 1 ∧
      sampleRename.parentDigest = addedGroup.lastOpDigest ∧
      otherRename.parentDigest = addedGroup.lastOpDigest ∧
      addedGroup.hasAdmin sampleRename.operatorIdentity = true ∧
      addedGroup.hasAdmin otherRename.operatorIdentity = true ∧
      sampleGroup.localJoinedAt { localIdentityPub := some (samplePeer 2) } = some 0 ∧
      reports sampleEnv (some (samplePeer 2)) [sampleRename, otherRename, sampleAdd] sampleGroup =
        some [(.queued 2, none), (.queued 2, none), (.applied 1, none)] ∧
      (runOps sampleEnv (some (samplePeer 2)) [sampleRename, otherRename, sampleAdd]
          sampleGroup).map (fun r => (r.2.currentEpoch, r.2.lastOpDigest, r.2.pendingOps)) =
        some (2, sampleEnv.hash sampleRename.wire, []) := by
  refine ⟨.intro (by decide +kernel), ?_⟩
  decide +kernel

end Pizzini.Group
