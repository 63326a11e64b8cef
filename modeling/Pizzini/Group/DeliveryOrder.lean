import Mathlib.Data.List.Infix
import Pizzini.Group.ApplySpec
import Pizzini.Group.GroupBootstrap
import Pizzini.Group.SampleEnv

/-!
# Delivery order does not matter

Ops `o₁ … oₙ` that apply one after the other to a fresh group may arrive in any
order and any number of times. The ops that arrive early wait in the queue; the
group is always the in-order group of the longest prefix that has arrived
whole, with the waiting ops parked (`Delivered`).

- `InOrder`: the in-order run, op by op, without the queue;
- `drain_inOrder`: replaying waiting ops carries an in-order run on as far as it
  goes, and keeps the rest;
- `applyStep_delivered`: one delivery keeps `Delivered`.

The one exception is the last epoch. A group at epoch `2⁶⁴ - 1` traps on every
further validly signed op, a repetition included.
-/

namespace Pizzini.Group

open Wire ChatGroup

variable {env : GroupEnv} {me : Option Bytes} {op : GroupOp} {ops : List GroupOp}
variable {g g' : ChatGroup}

/-! ## In-order runs -/

/-- The ops take effect one after the other. -/
inductive InOrder (env : GroupEnv) : ChatGroup → List GroupOp → ChatGroup → Prop where
  | nil (g : ChatGroup) : InOrder env g [] g
  | cons {g g₁ g' : ChatGroup} {op : GroupOp} {ops : List GroupOp} (group : op.groupId = g.id)
      (encodes : op.encoded = .ok op.wire) (signed : op.verifySignature env = true)
      (next : nextEpoch g.currentEpoch = some op.epoch)
      (lands : Lands env op (env.hash op.wire) g g₁) (rest : InOrder env g₁ ops g') :
      InOrder env g (op :: ops) g'

namespace InOrder

theorem id_eq (h : InOrder env g ops g') : g'.id = g.id := by
  induction h with
  | nil => rfl
  | cons _ _ _ _ lands _ ih => exact ih.trans lands.frame.1

theorem pendingOps_eq (h : InOrder env g ops g') : g'.pendingOps = g.pendingOps := by
  induction h with
  | nil => rfl
  | cons _ _ _ _ lands _ ih => exact ih.trans lands.frame.2.2.2

/-- Every op of the run is for this group, encodes and is signed. -/
theorem op_ok (h : InOrder env g ops g') (hop : op ∈ ops) :
    op.groupId = g.id ∧ op.encoded = .ok op.wire ∧ op.verifySignature env = true := by
  induction h with
  | nil => cases hop
  | cons group encodes signed _ lands _ ih =>
    rcases List.mem_cons.mp hop with rfl | hop
    · exact ⟨group, encodes, signed⟩
    · obtain ⟨hid, hrest⟩ := ih hop
      exact ⟨hid.trans lands.frame.1, hrest⟩

/-- One epoch per op. -/
theorem currentEpoch_eq (h : InOrder env g ops g') :
    g'.currentEpoch.toNat = g.currentEpoch.toNat + ops.length := by
  induction h with
  | nil => rfl
  | cons _ _ _ next lands _ ih =>
    have hepoch := nextEpoch_eq_some_iff.mp next
    have hcurrent := congrArg UInt64.toNat lands.frame.2.1
    rw [List.length_cons]
    omega

/-- The ops lie above the start, and their epochs increase. -/
theorem epochs (h : InOrder env g ops g') :
    (∀ op ∈ ops, g.currentEpoch.toNat < op.epoch.toNat) ∧
      ops.Pairwise fun a b => a.epoch.toNat < b.epoch.toNat := by
  induction h with
  | nil => exact ⟨by simp, List.Pairwise.nil⟩
  | cons _ _ _ next lands _ ih =>
    have hepoch := nextEpoch_eq_some_iff.mp next
    have hcurrent := congrArg UInt64.toNat lands.frame.2.1
    constructor
    · intro x hx
      rcases List.mem_cons.mp hx with rfl | hx
      · omega
      · have := ih.1 x hx
        omega
    · refine List.pairwise_cons.mpr ⟨fun x hx => ?_, ih.2⟩
      have := ih.1 x hx
      omega

/-- The ops of the run are not above its end. -/
theorem epoch_le_end (h : InOrder env g ops g') (hop : op ∈ ops) :
    op.epoch.toNat ≤ g'.currentEpoch.toNat := by
  induction h with
  | nil => cases hop
  | cons _ _ _ _ lands rest ih =>
    rcases List.mem_cons.mp hop with rfl | hop
    · rw [rest.currentEpoch_eq, lands.frame.2.1]
      exact Nat.le_add_right _ _
    · exact ih hop

theorem append {ops' : List GroupOp} {g'' : ChatGroup} (h : InOrder env g ops g')
    (h' : InOrder env g' ops' g'') : InOrder env g (ops ++ ops') g'' := by
  induction h with
  | nil => exact h'
  | cons group encodes signed next lands _ ih =>
    exact .cons group encodes signed next lands (ih h')

end InOrder

/-- Taking effect changes no digest but that of the new epoch. -/
theorem Lands.digest_of_ne {d : Bytes} (h : Lands env op d g g') {e : UInt64}
    (hne : e ≠ op.epoch) {known : Bytes} (hknown : g'.digest e = some known) :
    g.digest e = some known := by
  obtain ⟨g₁, hmutate, rfl⟩ := h.mutated
  obtain ⟨name, members, dist, prev, skdm, rfl⟩ := (mutate_effect hmutate).frame
  exact digest_recordDigest_of_ne hne hknown

theorem Lands.digest_self {d : Bytes} (h : Lands env op d g g') :
    g'.digest op.epoch = some d := by
  obtain ⟨g₁, -, rfl⟩ := h.mutated
  exact digest_recordDigest_self _ d op.epoch

theorem InOrder.digest_old (h : InOrder env g ops g') {e : UInt64}
    (he : e.toNat ≤ g.currentEpoch.toNat) {known : Bytes} (hknown : g'.digest e = some known) :
    g.digest e = some known := by
  induction h with
  | nil => exact hknown
  | cons _ _ _ next lands _ ih =>
    have hepoch := nextEpoch_eq_some_iff.mp next
    have hcurrent := congrArg UInt64.toNat lands.frame.2.1
    refine Lands.digest_of_ne lands ?_ (ih (by omega) hknown)
    rintro rfl
    omega

/-- What the group still knows of an applied op's epoch is that op's digest. -/
theorem InOrder.digest_eq (h : InOrder env g ops g') (hop : op ∈ ops) {known : Bytes}
    (hknown : g'.digest op.epoch = some known) : known = env.hash op.wire := by
  induction h with
  | nil => cases hop
  | cons _ _ _ _ lands rest ih =>
    rcases List.mem_cons.mp hop with rfl | hop
    · have hcurrent := congrArg UInt64.toNat lands.frame.2.1
      have hold := rest.digest_old (by omega) hknown
      rw [Lands.digest_self lands] at hold
      exact (Option.some.inj hold).symm
    · exact ih hop hknown

/-- A run of `apply` calls that are all applied, on a group without parked ops, is
an in-order run. -/
theorem inOrder_of_runOps :
    ∀ {ops : List GroupOp} {g : ChatGroup} {outs : List ApplyOutcome} {g' : ChatGroup},
      g.pendingOps = [] → runOps env me ops g = some (outs, g') →
      (∀ o ∈ outs, ∃ e, o = .applied e) → InOrder env g ops g' := by
  intro ops
  induction ops with
  | nil =>
    intro g outs g' _ h _
    cases h
    exact .nil g
  | cons op ops ih =>
    intro g outs g' hpending h happlied
    rw [runOps_cons] at h
    obtain ⟨⟨outcome, g₁⟩, hstep, h⟩ := Option.bind_eq_some_iff.mp h
    obtain ⟨⟨outs', g₂⟩, hrest, heq⟩ := Option.map_eq_some_iff.mp h
    cases heq
    obtain ⟨e, rfl⟩ := happlied outcome List.mem_cons_self
    rcases applyStep_cases hstep with ⟨-, hnot⟩ | ⟨_, _, _, heq⟩ | hlanded
    · exact absurd rfl (hnot e)
    · cases heq
    · obtain ⟨bytes, landed, hid, hencoded, hsig, hnext, hlands, -, hreplay⟩ := hlanded
      have hempty : landed.pendingOps = [] := hlands.frame.2.2.2.trans hpending
      rw [replay_of_pendingOps_nil hempty] at hreplay
      cases hreplay
      have hwire := GroupOp.wire_eq hencoded
      refine .cons hid (hwire ▸ hencoded) hsig hnext (hwire ▸ hlands) ?_
      exact ih hempty hrest fun o ho => happlied o (List.mem_cons_of_mem _ ho)

/-! ## Replaying waiting ops -/

/-- An op with the bytes it is parked as. -/
def parkedEntry (op : GroupOp) : GroupOp × Bytes := (op, op.wire)

/-- Entries beyond the next epoch all stay parked. -/
theorem drain_of_gap {entries : List (GroupOp × Bytes)}
    (h : ∀ e ∈ entries, g.currentEpoch.toNat + 1 < e.1.epoch.toNat) :
    drain env entries g = some (entries.map Prod.snd, g) := by
  induction entries with
  | nil => rfl
  | cons e entries ih =>
    obtain ⟨op, bytes⟩ := e
    have hgap := h (op, bytes) List.mem_cons_self
    have hpast : ¬ op.epoch ≤ g.currentEpoch := by
      rw [UInt64.le_iff_toNat_le]
      show ¬ op.epoch.toNat ≤ _
      dsimp only at hgap
      omega
    have hnext : nextEpoch g.currentEpoch ≠ some op.epoch := by
      intro hnext
      rw [nextEpoch_eq_some_iff] at hnext
      dsimp only at hgap
      omega
    rw [drain, if_neg hpast, if_neg hnext, ih fun e he => h e (List.mem_cons_of_mem _ he)]
    rfl

/-- Replaying the arrived ops of an in-order run carries the run on to the first
op that has not arrived; the arrived ones behind it stay parked. -/
theorem drain_inOrder (arrived : GroupOp → Bool) (h : InOrder env g ops g') :
    ∃ done rest mid, ops = done ++ rest ∧ (∀ x ∈ done, arrived x = true) ∧
      (∀ x ∈ rest.head?, arrived x = false) ∧ InOrder env g done mid ∧ InOrder env mid rest g' ∧
      drain env ((ops.filter arrived).map parkedEntry) g =
        some ((rest.filter arrived).map GroupOp.wire, mid) := by
  induction h with
  | nil g => exact ⟨[], [], g, rfl, by simp, by simp, .nil g, .nil g, rfl⟩
  | cons group encodes signed next lands rest ih =>
    rename_i g g₁ g' op ops
    by_cases hop : arrived op = true
    · obtain ⟨done, later, mid, hsplit, hdone, hhead, hbefore, hafter, hdrain⟩ := ih
      refine ⟨op :: done, later, mid, by rw [hsplit]; rfl, ?_, hhead,
        .cons group encodes signed next lands hbefore, hafter, ?_⟩
      · intro x hx
        rcases List.mem_cons.mp hx with rfl | hx
        · exact hop
        · exact hdone x hx
      · have hpast : ¬ op.epoch ≤ g.currentEpoch := by
          rw [UInt64.le_iff_toNat_le, nextEpoch_eq_some_iff.mp next]
          omega
        rw [List.filter_cons_of_pos hop, List.map_cons, parkedEntry, drain, if_neg hpast,
          if_pos next, if_pos signed, lands.land_eq]
        exact hdrain
    · have hnot : arrived op = false := Bool.eq_false_iff.mpr hop
      have hwhole : InOrder env g (op :: ops) g' := .cons group encodes signed next lands rest
      refine ⟨[], op :: ops, g, rfl, by simp, by simpa using hnot, .nil g, hwhole, ?_⟩
      rw [List.filter_cons_of_neg hop]
      have hgap : ∀ e ∈ (ops.filter arrived).map parkedEntry,
          g.currentEpoch.toNat + 1 < e.1.epoch.toNat := by
        intro e he
        obtain ⟨x, hx, rfl⟩ := List.mem_map.mp he
        have hx := rest.epochs.1 x (List.mem_of_mem_filter hx)
        rw [lands.frame.2.1, nextEpoch_eq_some_iff.mp next] at hx
        exact hx
      rw [drain_of_gap hgap, List.map_map]
      rfl

/-! ## The group in the middle of a delivery -/

/-- The group after some ops of an in-order run have arrived: the in-order group
of the longest prefix that has arrived whole, with the other arrived ops parked in
some order. -/
structure Delivered (env : GroupEnv) (g₀ : ChatGroup) (ops : List GroupOp) (gEnd : ChatGroup)
    (arrived : GroupOp → Bool) (g : ChatGroup) : Prop where
  split : ∃ done rest mid parked, ops = done ++ rest ∧ (∀ x ∈ done, arrived x = true) ∧
    (∀ x ∈ rest.head?, arrived x = false) ∧ InOrder env g₀ done mid ∧
    InOrder env mid rest gEnd ∧ g = mid.withPending parked ∧
    parked.Perm ((rest.filter arrived).map GroupOp.wire)

/-- The outcomes that the delivery of an op of the run can have. -/
inductive Harmless : ApplyOutcome → Prop where
  | applied {e : UInt64} : Harmless (.applied e)
  | queued {e : UInt64} : Harmless (.queued e)
  | duplicate : Harmless .rejectedDuplicate
  | preJoin {e : UInt64} : Harmless (.rejectedPreJoinHistory e)

/-- The ops that wait: arrived, with an earlier op missing. -/
def waiting (ops : List GroupOp) (arrived : GroupOp → Bool) : List GroupOp :=
  (ops.dropWhile arrived).filter arrived

/-- The queue has room for everything that waits. -/
def FitsQueue (ops : List GroupOp) (arrived : GroupOp → Bool) : Prop :=
  (waiting ops arrived).length ≤ pendingOpsCap ∧
    ∀ operator, ((waiting ops arrived).filter fun o => o.operatorIdentity = operator).length ≤
      pendingOpsPerOperatorCap

theorem waiting_append {done rest : List GroupOp} {arrived : GroupOp → Bool}
    (hdone : ∀ x ∈ done, arrived x = true) (hhead : ∀ x ∈ rest.head?, arrived x = false) :
    waiting (done ++ rest) arrived = rest.filter arrived := by
  rw [waiting, List.dropWhile_append_of_pos hdone]
  cases rest with
  | nil => rfl
  | cons x rest =>
    rw [List.dropWhile_cons_of_neg]
    rw [hhead x rfl]
    exact Bool.false_ne_true

/-- What is parked of an in-order run decodes to its ops, and sorting puts them
back in order. -/
theorem sortByEpoch_parked {waitingOps : List GroupOp} {parked : List Bytes}
    (hencodes : ∀ op ∈ waitingOps, op.encoded = .ok op.wire)
    (hepochs : waitingOps.Pairwise fun a b => a.epoch.toNat < b.epoch.toNat)
    (hperm : parked.Perm (waitingOps.map GroupOp.wire)) :
    sortByEpoch (decodePending parked) = waitingOps.map parkedEntry := by
  have hdecode : decodePending (waitingOps.map GroupOp.wire) = waitingOps.map parkedEntry := by
    clear hperm hepochs
    induction waitingOps with
    | nil => rfl
    | cons op ops ih =>
      have hop := GroupOp.decode_encoded (hencodes op List.mem_cons_self)
      rw [List.map_cons, decodePending, List.filterMap_cons, hop]
      exact congrArg _ (ih fun op hop => hencodes op (List.mem_cons_of_mem _ hop))
  have hsorted : (waitingOps.map parkedEntry).Pairwise fun a b => a.1.epoch.toNat < b.1.epoch.toNat :=
    List.pairwise_map.mpr hepochs
  have hle : (waitingOps.map parkedEntry).Pairwise fun a b => a.1.epoch ≤ b.1.epoch :=
    hsorted.imp fun h => UInt64.le_iff_toNat_le.mpr (Nat.le_of_lt h)
  have hpermuted : (decodePending parked).Perm (waitingOps.map parkedEntry) := by
    rw [← hdecode]
    exact hperm.filterMap _
  -- two sorted arrangements of entries with distinct epochs
  refine List.Perm.eq_of_pairwise ?_ (List.pairwise_insertionSort _ _) hle
    ((List.perm_insertionSort _ _).trans hpermuted)
  intro a b ha hb hab hba
  have ha := hpermuted.subset ((List.mem_insertionSort _).mp ha)
  have heq : a.1.epoch.toNat = b.1.epoch.toNat :=
    Nat.le_antisymm (UInt64.le_iff_toNat_le.mp hab) (UInt64.le_iff_toNat_le.mp hba)
  have hdistinct : ((waitingOps.map parkedEntry).map fun e => e.1.epoch.toNat).Nodup :=
    List.pairwise_map.mpr (hsorted.imp fun h => Nat.ne_of_lt h)
  exact List.inj_on_of_nodup_map hdistinct ha hb heq

/-- `op` has arrived too. -/
def alsoArrived (arrived : GroupOp → Bool) (op : GroupOp) : GroupOp → Bool :=
  fun x => arrived x || x = op

theorem alsoArrived_self {arrived : GroupOp → Bool} (h : arrived op = true) :
    alsoArrived arrived op = arrived := by
  funext x
  by_cases hx : x = op
  · simp [alsoArrived, hx, h]
  · simp [alsoArrived, hx]

theorem alsoArrived_of_ne {arrived : GroupOp → Bool} {x : GroupOp} (h : x ≠ op) :
    alsoArrived arrived op x = arrived x := by
  simp [alsoArrived, h]

theorem filter_alsoArrived_of_notMem {arrived : GroupOp → Bool} {l : List GroupOp} (h : op ∉ l) :
    l.filter (alsoArrived arrived op) = l.filter arrived := by
  refine List.filter_congr fun x hx => alsoArrived_of_ne ?_
  rintro rfl
  exact h hx

/-- One more arrival is one more op that waits. -/
theorem filter_alsoArrived_perm {arrived : GroupOp → Bool} {l : List GroupOp} (hnodup : l.Nodup)
    (hop : op ∈ l) (hnew : arrived op = false) :
    (l.filter (alsoArrived arrived op)).Perm (l.filter arrived ++ [op]) := by
  induction l with
  | nil => cases hop
  | cons x l ih =>
    rw [List.nodup_cons] at hnodup
    by_cases hx : x = op
    · subst hx
      have hself : alsoArrived arrived x x = true := by simp [alsoArrived]
      rw [List.filter_cons_of_pos hself, List.filter_cons_of_neg (by simp [hnew]),
        filter_alsoArrived_of_notMem hnodup.1]
      exact (List.perm_append_singleton _ _).symm
    · have hmem : op ∈ l := (List.mem_cons.mp hop).resolve_left fun h => hx h.symm
      have ih := ih hnodup.2 hmem
      by_cases harr : arrived x = true
      · rw [List.filter_cons_of_pos (by rw [alsoArrived_of_ne hx]; exact harr),
          List.filter_cons_of_pos harr]
        exact ih.cons x
      · rw [List.filter_cons_of_neg (by rw [alsoArrived_of_ne hx]; exact harr),
          List.filter_cons_of_neg harr]
        exact ih

/-- A queue that holds what waits has room for one more that fits. -/
theorem queuePending_waiting {arrived : GroupOp → Bool} {rest : List GroupOp} {mid : ChatGroup}
    {parked : List Bytes} (hencodes : ∀ x ∈ rest, x.encoded = .ok x.wire) (hnodup : rest.Nodup)
    (hop : op ∈ rest) (hperm : parked.Perm ((rest.filter arrived).map GroupOp.wire))
    (htotal : (rest.filter (alsoArrived arrived op)).length ≤ pendingOpsCap)
    (hper : ((rest.filter (alsoArrived arrived op)).filter
      fun o => o.operatorIdentity = op.operatorIdentity).length ≤ pendingOpsPerOperatorCap) :
    ∃ parked', (mid.withPending parked).queuePending op.wire = mid.withPending parked' ∧
      parked'.Perm ((rest.filter (alsoArrived arrived op)).map GroupOp.wire) := by
  by_cases harr : arrived op = true
  · have hmem : op.wire ∈ parked :=
      hperm.mem_iff.mpr (List.mem_map.mpr ⟨op, List.mem_filter.mpr ⟨hop, harr⟩, rfl⟩)
    refine ⟨parked, queuePending_of_mem hmem, ?_⟩
    rw [alsoArrived_self harr]
    exact hperm
  · have hnot : arrived op = false := Bool.eq_false_iff.mpr harr
    have hgrow := filter_alsoArrived_perm hnodup hop hnot
    have hwaiting : ∀ x ∈ rest.filter arrived, x.encoded = .ok x.wire :=
      fun x hx => hencodes x (List.mem_of_mem_filter hx)
    refine ⟨parked ++ [op.wire], ?_, ?_⟩
    · refine queuePending_of_room (GroupOp.decode_encoded (hencodes op hop)) ?_ ?_ ?_
      · have hlen := hgrow.length_eq
        have hparked := hperm.length_eq
        rw [List.length_append, List.length_singleton] at hlen
        rw [List.length_map] at hparked
        show parked.length < _
        omega
      · intro hmem
        obtain ⟨x, hx, hwire⟩ := List.mem_map.mp (hperm.mem_iff.mp hmem)
        have hsame : x = op :=
          GroupOp.encoded_inj (hwaiting x hx) (hwire ▸ hencodes op hop)
        rw [List.mem_filter, hsame] at hx
        exact harr hx.2
      · have hlen := (hgrow.filter fun o => o.operatorIdentity = op.operatorIdentity).length_eq
        have hone : ([op].filter fun o => o.operatorIdentity = op.operatorIdentity).length = 1 := by
          simp
        rw [List.filter_append, List.length_append, hone] at hlen
        show parkedBy parked op.operatorIdentity < _
        rw [parkedBy_parked hwaiting hperm]
        omega
    · refine (hperm.append_right [op.wire]).trans ?_
      rw [← List.map_singleton, ← List.map_append]
      exact (hgrow.map GroupOp.wire).symm

/-! ## One delivery -/

/-- An op of the run that is already applied is a duplicate, or from before the
local user joined. -/
theorem applyPast_applied {g₀ : ChatGroup} {done : List GroupOp} {parked : List Bytes}
    (h : InOrder env g₀ done g) (hop : op ∈ done) :
    ∃ outcome, visible ((g.withPending parked).applyPast op (env.hash op.wire)
        { localIdentityPub := me }) = (outcome, g.withPending parked) ∧ Harmless outcome := by
  have hknown : ¬ ((g.withPending parked).digest op.epoch).any
      (fun known => decide (known ≠ env.hash op.wire)) = true := by
    intro hany
    obtain ⟨known, hlookup, hne⟩ := Option.any_eq_true _ _ |>.mp hany
    exact of_decide_eq_true hne (h.digest_eq hop hlookup)
  rw [applyPast, if_neg hknown]
  split
  · exact ⟨_, rfl, .preJoin⟩
  · exact ⟨_, rfl, .duplicate⟩

theorem applyStep_delivered {g₀ gEnd : ChatGroup} {arrived : GroupOp → Bool}
    (h : Delivered env g₀ ops gEnd arrived g) (hop : op ∈ ops)
    (hroom : FitsQueue ops (alsoArrived arrived op))
    (hepoch : nextEpoch g.currentEpoch ≠ none ∨ ∃ x ∈ ops, arrived x = false) :
    ∃ outcome g', applyStep env me op g = some (outcome, g') ∧ Harmless outcome ∧
      Delivered env g₀ ops gEnd (alsoArrived arrived op) g' := by
  obtain ⟨done, rest, mid, parked, rfl, hdone, hhead, hbefore, hafter, rfl, hperm⟩ := h
  by_cases hpast : op ∈ done
  · -- already applied
    have harr : arrived op = true := hdone op hpast
    obtain ⟨hid, hencodes, hsig⟩ := hbefore.op_ok hpast
    obtain ⟨expected, hnext⟩ : ∃ e, nextEpoch mid.currentEpoch = some e := by
      rcases hepoch with hsome | ⟨x, hx, hmissing⟩
      · exact Option.ne_none_iff_exists'.mp hsome
      · cases hafter with
        | nil =>
          rw [List.append_nil] at hx
          rw [hdone x hx] at hmissing
          cases hmissing
        | cons _ _ _ next _ _ => exact ⟨_, next⟩
    have hlt : op.epoch < expected := by
      have hle := hbefore.epoch_le_end hpast
      rw [UInt64.lt_iff_toNat_lt, nextEpoch_eq_some_iff.mp hnext]
      omega
    obtain ⟨outcome, hresult, hharmless⟩ := applyPast_applied hbefore hpast
    refine ⟨outcome, mid.withPending parked, ?_, hharmless, ?_⟩
    · rw [applyStep_of_ok (g := mid.withPending parked) (hid.trans hbefore.id_eq.symm) hencodes
        hsig hnext, if_pos hlt, hresult]
    · rw [alsoArrived_self harr]
      exact ⟨done, rest, mid, parked, rfl, hdone, hhead, hbefore, hafter, rfl, hperm⟩
  · have hrest : op ∈ rest := (List.mem_append.mp hop).resolve_left hpast
    obtain ⟨hid, hencodes, hsig⟩ := hafter.op_ok hrest
    have hall : ∀ x ∈ rest, x.encoded = .ok x.wire := fun x hx => (hafter.op_ok hx).2.1
    have hnodup : rest.Nodup :=
      hafter.epochs.2.imp fun {a b} hlt (heq : a = b) => absurd (heq ▸ hlt) (Nat.lt_irrefl _)
    have hdone' : ∀ x ∈ done, alsoArrived arrived op x = true := by
      intro x hx
      simp [alsoArrived, hdone x hx]
    cases hafter with
    | nil => cases hrest
    | cons group encodes signed next lands tailRun =>
      rename_i g₁ head tail
      have hhead : arrived head = false := hhead head rfl
      by_cases hsame : op = head
      · -- the op that was missing: it takes effect and the queue is replayed
        subst hsame
        obtain ⟨hnew, htailNodup⟩ := List.nodup_cons.mp hnodup
        rw [List.filter_cons_of_neg (by rw [hhead]; exact Bool.false_ne_true)] at hperm
        have hsorted : sortByEpoch (decodePending parked) = (tail.filter arrived).map parkedEntry :=
          sortByEpoch_parked (fun x hx => hall x (List.mem_cons_of_mem _ (List.mem_of_mem_filter hx)))
            (tailRun.epochs.2.sublist List.filter_sublist) hperm
        obtain ⟨done₂, rest₂, mid₂, hsplit, hdone₂, hhead₂, hbefore₂, hafter₂, hdrain⟩ :=
          drain_inOrder (alsoArrived arrived op) tailRun
        rw [filter_alsoArrived_of_notMem hnew] at hdrain
        have hreplay : replay env (g₁.withPending parked) =
            some (mid₂.withPending ((rest₂.filter (alsoArrived arrived op)).map GroupOp.wire)) := by
          rw [replay, withPending_pendingOps, hsorted, drain_withPending, hdrain]
          rfl
        refine ⟨.applied op.epoch, _, ?_, .applied,
          ⟨done ++ op :: done₂, rest₂, mid₂, _, by rw [hsplit]; simp, ?_, hhead₂,
            hbefore.append (.cons group encodes signed next lands hbefore₂), hafter₂, rfl, .rfl⟩⟩
        · rw [applyStep_of_ok (g := mid.withPending parked) hid hencodes hsig next,
            if_neg (by rw [UInt64.lt_iff_toNat_lt]; omega),
            if_neg (by rw [UInt64.lt_iff_toNat_lt]; omega), land_withPending, lands.land_eq]
          show (replay env (g₁.withPending parked)).map _ = _
          rw [hreplay]
          rfl
        · intro x hx
          rcases List.mem_append.mp hx with hx | hx
          · exact hdone' x hx
          · rcases List.mem_cons.mp hx with rfl | hx
            · simp [alsoArrived]
            · exact hdone₂ x hx
      · -- still a gap: the op is parked
        have htail : op ∈ tail := (List.mem_cons.mp hrest).resolve_left hsame
        have hhead' : ∀ x ∈ (head :: tail).head?, alsoArrived arrived op x = false := by
          intro x hx
          cases Option.some.inj hx
          rw [alsoArrived_of_ne (fun heq => hsame heq.symm)]
          exact hhead
        rw [FitsQueue, waiting_append hdone' hhead'] at hroom
        obtain ⟨parked', hqueue, hperm'⟩ :=
          queuePending_waiting hall hnodup hrest hperm hroom.1 (hroom.2 _)
        have hgt : head.epoch.toNat < op.epoch.toNat := by
          have hlt := tailRun.epochs.1 op htail
          rw [lands.frame.2.1] at hlt
          exact hlt
        refine ⟨.queued op.epoch, mid.withPending parked', ?_, .queued,
          ⟨done, head :: tail, mid, parked', rfl, hdone', hhead', hbefore,
            .cons group encodes signed next lands tailRun, rfl, hperm'⟩⟩
        rw [applyStep_of_ok (g := mid.withPending parked) hid hencodes hsig next,
          if_neg (by rw [UInt64.lt_iff_toNat_lt]; omega),
          if_pos (UInt64.lt_iff_toNat_lt.mpr hgt), hqueue]

/-! ## Whole deliveries -/

/-- The ops of a list have arrived. -/
def arrivedIn (pre : List GroupOp) : GroupOp → Bool := fun x => x ∈ pre

theorem alsoArrived_arrivedIn (pre : List GroupOp) (op : GroupOp) :
    alsoArrived (arrivedIn pre) op = arrivedIn (pre ++ [op]) := by
  funext x
  simp [alsoArrived, arrivedIn]

variable {g₀ gEnd : ChatGroup} {pre post : List GroupOp}

theorem Delivered.currentEpoch_le {arrived : GroupOp → Bool}
    (h : Delivered env g₀ ops gEnd arrived g) :
    g.currentEpoch.toNat ≤ gEnd.currentEpoch.toNat := by
  obtain ⟨done, rest, mid, parked, -, -, -, -, hafter, rfl, -⟩ := h
  rw [hafter.currentEpoch_eq]
  exact Nat.le_add_right _ _

/-- When everything has arrived nothing is parked. -/
theorem Delivered.complete (h : Delivered env g₀ ops gEnd (arrivedIn pre) g)
    (hall : ∀ x ∈ ops, x ∈ pre) : g = gEnd.withPending [] := by
  obtain ⟨done, rest, mid, parked, rfl, -, hhead, -, hafter, rfl, hperm⟩ := h
  cases hafter with
  | nil => rw [List.perm_nil.mp hperm]
  | cons =>
    rename_i g₁ head tail _ _ _ _ _ _
    have hmissing := hhead head rfl
    have hmem := hall head (List.mem_append_right _ List.mem_cons_self)
    rw [arrivedIn, decide_eq_false_iff_not] at hmissing
    exact absurd hmem hmissing

/-- One delivery, as part of a sequence. -/
theorem delivered_snoc (me : Option Bytes) (h : Delivered env g₀ ops gEnd (arrivedIn pre) g) (hop : op ∈ ops)
    (hroom : FitsQueue ops (arrivedIn (pre ++ [op])))
    (hepoch : nextEpoch gEnd.currentEpoch ≠ none ∨ ∃ x ∈ ops, x ∉ pre) :
    ∃ outcome g', applyStep env me op g = some (outcome, g') ∧ Harmless outcome ∧
      Delivered env g₀ ops gEnd (arrivedIn (pre ++ [op])) g' := by
  rw [← alsoArrived_arrivedIn] at hroom ⊢
  refine applyStep_delivered h hop hroom ?_
  rcases hepoch with hsome | ⟨x, hx, hmissing⟩
  · left
    intro hnone
    have hle := h.currentEpoch_le
    have hlt : gEnd.currentEpoch.toNat < 2 ^ 64 := gEnd.currentEpoch.toNat_lt
    rw [nextEpoch_eq_none_iff] at hnone
    exact hsome (nextEpoch_eq_none_iff.mpr (by omega))
  · exact .inr ⟨x, hx, decide_eq_false hmissing⟩

theorem runOps_delivered (me : Option Bytes) (h : Delivered env g₀ ops gEnd (arrivedIn pre) g)
    (hsub : ∀ o ∈ post, o ∈ ops)
    (hroom : ∀ p, p <+: pre ++ post → FitsQueue ops (arrivedIn p))
    (hepoch : nextEpoch gEnd.currentEpoch ≠ none ∨
      ∀ a o b, post = a ++ o :: b → ∃ x ∈ ops, x ∉ pre ++ a) :
    ∃ outs g', runOps env me post g = some (outs, g') ∧ (∀ o ∈ outs, Harmless o) ∧
      Delivered env g₀ ops gEnd (arrivedIn (pre ++ post)) g' := by
  induction post generalizing pre g with
  | nil => exact ⟨[], g, rfl, by simp, by rwa [List.append_nil]⟩
  | cons op post ih =>
    have happend : pre ++ op :: post = pre ++ [op] ++ post := by simp
    obtain ⟨outcome, g', hstep, hharmless, hdelivered⟩ := delivered_snoc me h
      (hsub op List.mem_cons_self) (hroom _ (by rw [happend]; exact List.prefix_append _ _))
      (hepoch.imp (fun h => h) fun h => by simpa using h [] op post rfl)
    obtain ⟨outs, g'', hrun, houts, hend⟩ := ih hdelivered
      (fun o ho => hsub o (List.mem_cons_of_mem _ ho)) (by rw [← happend]; exact hroom)
      (hepoch.imp (fun h => h) fun h a o b hsplit => by
        simpa using h (op :: a) o b (by rw [hsplit]; rfl))
    refine ⟨outcome :: outs, g'', ?_, ?_, by rw [happend]; exact hend⟩
    · rw [runOps_cons, hstep]
      show (runOps env me post g').map _ = _
      rw [hrun]
      rfl
    · intro o ho
      rcases List.mem_cons.mp ho with rfl | ho
      · exact hharmless
      · exact houts o ho

/-- At the last epoch, whatever arrives after everything has arrived traps. -/
theorem runOps_trap (me : Option Bytes) (h : Delivered env g₀ ops gEnd (arrivedIn pre) g)
    (hsub : ∀ o ∈ post, o ∈ ops)
    (hroom : ∀ p, p <+: pre ++ post → FitsQueue ops (arrivedIn p))
    (hrun : InOrder env g₀ ops gEnd) (hlast : nextEpoch gEnd.currentEpoch = none)
    (hextra : ∃ a o b, post = a ++ o :: b ∧ ∀ x ∈ ops, x ∈ pre ++ a) :
    runOps env me post g = none := by
  induction post generalizing pre g with
  | nil =>
    obtain ⟨a, o, b, hsplit, -⟩ := hextra
    simp at hsplit
  | cons op post ih =>
    rw [runOps_cons]
    by_cases hall : ∀ x ∈ ops, x ∈ pre
    · obtain ⟨hid, hencodes, hsig⟩ := hrun.op_ok (hsub op List.mem_cons_self)
      rw [h.complete hall, applyStep_trap (g := gEnd.withPending []) (hid.trans hrun.id_eq.symm)
        hencodes hsig hlast]
      rfl
    · have happend : pre ++ op :: post = pre ++ [op] ++ post := by simp
      obtain ⟨x, hx, hmissing⟩ : ∃ x ∈ ops, x ∉ pre := by simpa using hall
      obtain ⟨outcome, g', hstep, -, hdelivered⟩ := delivered_snoc me h
        (hsub op List.mem_cons_self) (hroom _ (by rw [happend]; exact List.prefix_append _ _))
        (.inr ⟨x, hx, hmissing⟩)
      obtain ⟨a, o, b, hsplit, hcovers⟩ := hextra
      -- the prefix that covers everything is not empty, since `x` is missing
      cases a with
      | nil => exact absurd (by simpa using hcovers x hx) hmissing
      | cons o' a =>
        obtain ⟨hsame, htailSplit⟩ := List.cons.inj hsplit
        subst hsame
        have htail := ih hdelivered (fun o ho => hsub o (List.mem_cons_of_mem _ ho))
          (by rw [← happend]; exact hroom) ⟨a, o, b, htailSplit, by simpa using hcovers⟩
        rw [hstep]
        show (runOps env me post g').map _ = none
        rw [htail]
        rfl

/-! ## The theorem -/

/-- A group as `create` or `intoChatGroup` return it. -/
def FreshGroup (env : GroupEnv) (g : ChatGroup) : Prop :=
  (∃ op signedBytes, ChatGroup.create env op signedBytes = some g) ∨
    ∃ (snapshot : GroupBootstrap) (localIdentityPub : Bytes),
      snapshot.intoChatGroup localIdentityPub = some g

theorem FreshGroup.pendingOps_nil (h : FreshGroup env g) : g.pendingOps = [] := by
  rcases h with ⟨op, bytes, h⟩ | ⟨snapshot, me, h⟩
  · rw [ChatGroup.create] at h
    split at h
    · repeat
        split at h
        · cases h
      cases h
      rfl
    · cases h
  · rw [GroupBootstrap.intoChatGroup] at h
    split at h
    · cases h
    · cases h
      rfl

/-- The run of `seq` ends like the in-order run, and no call reports a fork or a
refusal. -/
def EndsInOrder (env : GroupEnv) (me : Option Bytes) (seq : List GroupOp)
    (g₀ gEnd : ChatGroup) : Prop :=
  ∃ outs g, runOps env me seq g₀ = some (outs, g) ∧
    (g.members = gEnd.members ∧ g.displayName = gEnd.displayName ∧
      g.currentEpoch = gEnd.currentEpoch ∧ g.lastOpDigest = gEnd.lastOpDigest ∧
      g.memberDistributionIds = gEnd.memberDistributionIds ∧
      g.recentOpDigests = gEnd.recentOpDigests ∧ g.pendingOps = []) ∧
    ∀ o ∈ outs, (∀ e, o ≠ .rejectedEquivocation e) ∧
      (∀ root claimed, o ≠ .rejectedMemberSetMismatch root claimed) ∧
      o ≠ .rejectedAuthorization ∧ ∀ reason, o ≠ .rejectedMalformed reason

/-- An op is delivered after all of `ops` have been. -/
def Overdelivered (ops seq : List GroupOp) : Prop :=
  ∃ a o b, seq = a ++ o :: b ∧ ∀ x ∈ ops, x ∈ a

/-- Delivery order and repetitions do not matter, unless the run ends at the last
epoch and something is delivered after that. -/
theorem endsInOrder_iff {seq : List GroupOp} {outs : List ApplyOutcome}
    (hfresh : FreshGroup env g₀) (hrun : runOps env me ops g₀ = some (outs, gEnd))
    (happlied : ∀ o ∈ outs, ∃ e, o = .applied e) (hsub : ∀ o ∈ seq, o ∈ ops)
    (hall : ∀ o ∈ ops, o ∈ seq) (hroom : ∀ p, p <+: seq → FitsQueue ops (arrivedIn p)) :
    EndsInOrder env me seq g₀ gEnd ↔
      ¬ (g₀.currentEpoch.toNat + ops.length = 2 ^ 64 - 1 ∧ Overdelivered ops seq) := by
  have hempty := hfresh.pendingOps_nil
  have hinOrder := inOrder_of_runOps hempty hrun happlied
  have hstart : Delivered env g₀ ops gEnd (arrivedIn []) g₀ := by
    refine ⟨[], ops, g₀, [], rfl, by simp, ?_, .nil g₀, hinOrder, ?_, ?_⟩
    · intro x _
      simp [arrivedIn]
    · rw [← hempty, withPending_self]
    · simp [arrivedIn]
  have hlast : nextEpoch gEnd.currentEpoch = none ↔
      g₀.currentEpoch.toNat + ops.length = 2 ^ 64 - 1 := by
    rw [nextEpoch_eq_none_iff, hinOrder.currentEpoch_eq]
    omega
  constructor
  · rintro ⟨outs', g, hseq, -⟩ ⟨hedge, a, o, b, hsplit, hcovers⟩
    have htrap := runOps_trap me hstart hsub hroom hinOrder (hlast.mpr hedge)
      ⟨a, o, b, hsplit, hcovers⟩
    rw [htrap] at hseq
    cases hseq
  · intro hcond
    obtain ⟨outs', g, hseq, hharmless, hend⟩ :=
      runOps_delivered me hstart hsub hroom (by
        by_cases hedge : nextEpoch gEnd.currentEpoch = none
        · right
          intro a o b hsplit
          by_contra hnone
          refine hcond ⟨hlast.mp hedge, a, o, b, hsplit, fun x hx => ?_⟩
          by_contra hmissing
          exact hnone ⟨x, hx, hmissing⟩
        · exact .inl hedge)
    have hdone : g = gEnd := by
      rw [hend.complete hall, ← hempty, ← hinOrder.pendingOps_eq, withPending_self]
    subst hdone
    refine ⟨outs', g, hseq, ⟨rfl, rfl, rfl, rfl, rfl, rfl, ?_⟩, fun o ho => ?_⟩
    · rw [hinOrder.pendingOps_eq, hempty]
    · cases hharmless o ho <;> simp

/-- A run of few ops never fills the queue. -/
theorem fitsQueue_of_length_le (h : ops.length ≤ pendingOpsPerOperatorCap)
    (arrived : GroupOp → Bool) : FitsQueue ops arrived := by
  have hwaiting : (waiting ops arrived).length ≤ ops.length :=
    (List.filter_sublist.trans (List.dropWhile_sublist arrived)).length_le
  refine ⟨Nat.le_trans (Nat.le_trans hwaiting h) (by decide), fun operator => ?_⟩
  exact Nat.le_trans (List.length_filter_le _ _) (Nat.le_trans hwaiting h)

/-- The outcomes and the last group of a run that does not trap. -/
theorem runOps_get {outs : List ApplyOutcome} (h : (runOps env me ops g).isSome = true)
    (houts : (runOps env me ops g).map Prod.fst = some outs) :
    runOps env me ops g = some (outs, ((runOps env me ops g).get h).2) := by
  obtain ⟨r, hr, rfl⟩ := Option.map_eq_some_iff.mp houts
  simp only [hr, Option.get_some]

/-- The sample group after the addition and the renaming, in order. -/
def sampleRenamed : ChatGroup :=
  ((runOps sampleEnv none [sampleAdd, sampleRename] sampleGroup).get (by decide +kernel)).2

/-- The renaming may come first, and again at the end. -/
theorem endsInOrder_reversed :
    EndsInOrder sampleEnv none [sampleRename, sampleAdd, sampleRename] sampleGroup
      sampleRenamed := by
  have hsame : ∀ a b : GroupOp, (∀ o ∈ [b, a, b], o ∈ [a, b]) ∧ ∀ o ∈ [a, b], o ∈ [b, a, b] := by
    intro a b
    constructor <;> intro o ho <;> simp only [List.mem_cons, List.not_mem_nil] at ho ⊢ <;> tauto
  have hfresh : FreshGroup sampleEnv sampleGroup :=
    .inl ⟨sampleCreate [1, 2], (sampleCreate [1, 2]).wire, (Option.some_get _).symm⟩
  have hrun : runOps sampleEnv none [sampleAdd, sampleRename] sampleGroup =
      some ([.applied 1, .applied 2], sampleRenamed) :=
    runOps_get _ (by decide +kernel)
  have hstart : sampleGroup.currentEpoch.toNat = 0 := by decide +kernel
  have hroom : ∀ p, p <+: [sampleRename, sampleAdd, sampleRename] →
      FitsQueue [sampleAdd, sampleRename] (arrivedIn p) :=
    fun p _ => fitsQueue_of_length_le (by decide) _
  refine (endsInOrder_iff hfresh hrun ?_ (hsame _ _).1 (hsame _ _).2 hroom).mpr ?_
  · simp
  · rw [hstart]
    rintro ⟨hedge, -⟩
    simp at hedge

/-- A snapshot two epochs before the end of the epoch counter. -/
def edgeSnapshot : GroupBootstrap where
  groupId := sampleGroupId
  displayName := "trip"
  members :=
    [⟨samplePeer 1, "", .admin, 0, .active, some (samplePeer 1)⟩,
      ⟨samplePeer 2, "bob", .member, 18446744073709551614, .pendingSKDM, some (samplePeer 1)⟩]
  currentEpoch := 18446744073709551614
  lastOpDigest := List.replicate parentDigestSize 9
  operatorIdentity := samplePeer 1
  timestampMillis := 1000
  memberSetRoot := List.replicate memberSetRootSize 0
  signature := List.replicate signatureSize 0

/-- The group that peer 2 makes of it. -/
def edgeGroup : ChatGroup := (edgeSnapshot.intoChatGroup (samplePeer 2)).get (by decide +kernel)

/-- Peer 1 renames that group, which takes the last epoch. -/
def edgeRename : GroupOp := sampleNext edgeGroup 1 (.rename "hike")

/-- The group at the last epoch. -/
def edgeEnd : ChatGroup :=
  ((runOps sampleEnv (some (samplePeer 2)) [edgeRename] edgeGroup).get (by decide +kernel)).2

/-- One op that applies in order, delivered twice: the second delivery traps. -/
theorem last_epoch_repetition_traps :
    FreshGroup sampleEnv edgeGroup ∧
      (∃ outs, runOps sampleEnv (some (samplePeer 2)) [edgeRename] edgeGroup =
        some (outs, edgeEnd) ∧ ∀ o ∈ outs, ∃ e, o = .applied e) ∧
      (∀ p, p <+: [edgeRename, edgeRename] → FitsQueue [edgeRename] (arrivedIn p)) ∧
      ¬ EndsInOrder sampleEnv (some (samplePeer 2)) [edgeRename, edgeRename] edgeGroup edgeEnd := by
  have hrun : runOps sampleEnv (some (samplePeer 2)) [edgeRename] edgeGroup =
      some ([.applied 18446744073709551615], edgeEnd) :=
    runOps_get _ (by decide +kernel)
  have htrap : (runOps sampleEnv (some (samplePeer 2)) [edgeRename, edgeRename]
      edgeGroup).isSome = false := by decide +kernel
  have hfresh : FreshGroup sampleEnv edgeGroup :=
    .inr ⟨edgeSnapshot, samplePeer 2, (Option.some_get _).symm⟩
  refine ⟨hfresh, ⟨_, hrun, ?_⟩, fun p _ => fitsQueue_of_length_le (by decide) _, ?_⟩
  · simp
  · rintro ⟨outs, g, hseq, -⟩
    rw [hseq] at htrap
    cases htrap

end Pizzini.Group
