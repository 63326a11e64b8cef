import Pizzini.Group.KeyRecipients
import Pizzini.Group.OutsiderRuns
import Pizzini.Group.RejectedOps
import Pizzini.Group.StoredDates

/-!
# What traps

Swift stops the process where an addition overflows or a conversion is out of range.
In the group code that is `currentEpoch + 1` (`nextEpoch`), the row count of
`memberSetRoot`, and the conversion of a date that `upsertGroup` binds (`bindDate`).
The numbers come from frames: the epoch and the timestamp of an op or of a snapshot
are any 64 bits.

A group that is `Tame` has a next epoch, and so has every epoch it may come to by its
parked ops; `Spare k` leaves room for `k` more ops. Each call returns on tame groups,
as long as what it is given keeps clear of the ends of these ranges, and leaves tame
groups behind.
-/

namespace Pizzini.Group

open Wire ChatGroup ChatStore

/-- The epoch that has no next one. -/
def lastEpoch : Nat := 2 ^ 64 - 1

/-- A date that `upsertGroup` binds without a trap. -/
def Storable (ms : UInt64) : Prop := (bindDate (dateOfMillis ms)).isSome = true

theorem storable_iff {ms : UInt64} : Storable ms ↔ ms.toNat < 2 ^ 63 - 512 := by
  rw [Storable, Option.isSome_iff_ne_none, ne_eq, bindDate_eq_none_iff, not_le]

/-- What a run keeps of a group. -/
structure Tame (g : ChatGroup) : Prop where
  epoch : g.currentEpoch.toNat < lastEpoch
  parked : ∀ bytes ∈ g.pendingOps, ∀ op, GroupOp.decode bytes = some op →
    op.epoch.toNat + 1 < lastEpoch
  rows : WholeIds g.members
  created : Storable g.createdAt
  rotated : Storable g.lastRotatedAt

/-- The rows, and the parked ops that may each become one. -/
def ChatGroup.load (g : ChatGroup) : Nat := g.members.length + g.pendingOps.length

/-- `k` more ops fit into a group. -/
structure Spare (k : Nat) (g : ChatGroup) : Prop where
  tame : Tame g
  epoch : g.currentEpoch.toNat + k < lastEpoch
  load : g.load + k ≤ 2 ^ 32

variable {env : GroupEnv} {amb : Ambient} {s s' : ChatStore} {g g' : ChatGroup} {me : Bytes}
  {op : GroupOp} {sx sx' : ApplySideEffects} {outcome : ApplyOutcome} {frames : List Frame}
  {groupId payload sender : Bytes}

/-! ## `apply` -/

theorem memberSetRootOf_total (env : GroupEnv) {ms : List GroupMember} (hrows : WholeIds ms)
    (hlen : ms.length < 2 ^ 32) : ∃ root, memberSetRootOf env ms = some root := by
  rw [memberSetRootOf, if_pos ⟨hlen, hrows⟩]
  exact ⟨_, rfl⟩

theorem land_total (env : GroupEnv) (op : GroupOp) (d : Bytes) (hrows : WholeIds g.members)
    (hlen : g.members.length < 2 ^ 32) : ∃ r, land env op d g = some r := by
  obtain ⟨root, hroot⟩ := memberSetRootOf_total env hrows hlen
  have hcheck : ∃ check, g.memberSetRootMismatch env op = some check := by
    rw [memberSetRootMismatch, memberSetRoot, hroot]
    exact ⟨_, rfl⟩
  obtain ⟨check, hcheck⟩ := hcheck
  rw [land]
  split
  · exact ⟨_, rfl⟩
  split
  · exact ⟨_, rfl⟩
  rw [hcheck]
  cases check with
  | some mismatch => exact ⟨_, rfl⟩
  | none =>
    dsimp only
    split
    · exact ⟨_, rfl⟩
    · exact ⟨_, rfl⟩

theorem ChatGroup.Lands.whole {d : Bytes} (h : Lands env op d g g') (hrows : WholeIds g.members) :
    WholeIds g'.members := by
  obtain ⟨g₁, hmutate, rfl⟩ := h.mutated
  have hafter := hrows.effect (mutate_effect hmutate)
  exact hafter

/-- The drain loop does not trap on epochs, as an op above the current epoch shows that there is a
next one; and every entry brings one row at most. -/
theorem drain_total {entries : List (GroupOp × Bytes)} (hrows : WholeIds g.members)
    (hlen : g.members.length + entries.length ≤ 2 ^ 32) : ∃ r, drain env entries g = some r := by
  induction entries generalizing g with
  | nil => exact ⟨_, rfl⟩
  | cons e entries ih =>
    obtain ⟨op, bytes⟩ := e
    rw [List.length_cons] at hlen
    rw [drain]
    split
    · exact ih hrows (by omega)
    split
    · split
      · obtain ⟨r, hland⟩ := land_total env op (env.hash bytes) hrows (by omega)
        rw [hland, Option.bind_some]
        rcases land_cases hland with ⟨-, hlands⟩ | ⟨-, hsame⟩
        · have hone := hlands.members_length_le
          exact ih (hlands.whole hrows) (by omega)
        · rw [hsame]
          exact ih hrows (by omega)
      · exact ih hrows (by omega)
    · obtain ⟨r, hdrain⟩ := ih hrows (by omega)
      rw [hdrain]
      exact ⟨_, rfl⟩

/-- `apply` does not trap on a group that has a next epoch and room for a row. -/
theorem apply_total (env : GroupEnv) (op : GroupOp) (sx : ApplySideEffects) (h : Tame g)
    (hload : g.load + 1 ≤ 2 ^ 32) : ∃ outcome g' sx', g.apply env op sx = some (outcome, g', sx') := by
  rw [ChatGroup.load] at hload
  have hstep : ∃ r, applyStep env sx.localIdentityPub op g = some r := by
    rw [applyStep]
    split
    · exact ⟨_, rfl⟩
    split
    · exact ⟨_, rfl⟩
    next bytes _ =>
    split
    · exact ⟨_, rfl⟩
    split
    · next hnone =>
      have hlast := nextEpoch_eq_none_iff.mp hnone
      have hepoch := h.epoch
      rw [lastEpoch] at hepoch
      omega
    split
    · exact ⟨_, rfl⟩
    split
    · exact ⟨_, rfl⟩
    obtain ⟨⟨outcome, g₁⟩, hland⟩ := land_total env op (env.hash bytes) h.rows (by omega)
    rw [hland, Option.bind_some]
    rcases land_cases hland with ⟨houtcome, hlands⟩ | ⟨hrefused, -⟩
    · cases houtcome
      have hone := hlands.members_length_le
      have hqueue := hlands.frame.2.2.2
      dsimp only at hone hqueue
      have hentries : (sortByEpoch (decodePending g₁.pendingOps)).length ≤ g.pendingOps.length := by
        rw [sortByEpoch, List.length_insertionSort, decodePending, hqueue]
        exact List.length_filterMap_le _ _
      obtain ⟨drained, hdrain⟩ : ∃ r, drain env (sortByEpoch (decodePending g₁.pendingOps)) g₁ =
          some r := drain_total (hlands.whole h.rows) (by omega)
      rw [settle, replay, hdrain]
      exact ⟨_, rfl⟩
    · cases hrefused <;> exact ⟨_, rfl⟩
  obtain ⟨r, hstep⟩ := hstep
  rw [← apply_applyStep] at hstep
  obtain ⟨⟨outcome, g', sx'⟩, happly, -⟩ := Option.map_eq_some_iff.mp hstep
  exact ⟨outcome, g', sx', happly⟩

theorem apply_load (h : g.apply env op sx = some (outcome, g', sx')) : g'.load ≤ g.load + 1 := by
  have hstep : applyStep env sx.localIdentityPub op g = some (outcome, g') := by
    rw [← apply_applyStep, h]
    rfl
  exact (applyStep_size hstep).1

/-- The epochs stay below a limit that the op and the parked ones are below. -/
theorem apply_epoch_lt {limit : Nat} (h : g.apply env op sx = some (outcome, g', sx'))
    (hepoch : g.currentEpoch.toNat < limit) (hop : op.epoch.toNat < limit)
    (hparked : ∀ bytes ∈ g.pendingOps, ∀ x, GroupOp.decode bytes = some x →
      x.epoch.toNat < limit) : g'.currentEpoch.toNat < limit := by
  refine apply_invariant (fun k => k.currentEpoch.toNat < limit) h (fun _ _ hk => hk)
    (fun hmay hlands _ => ?_) hepoch
  rw [hlands.frame.2.1]
  rcases hmay with rfl | ⟨bytes, hbytes, hdecode⟩
  · exact hop
  · exact hparked bytes hbytes _ hdecode

/-- Where the op was applied, whatever the epoch was before. -/
theorem applied_epoch_lt {limit : Nat} {e : UInt64}
    (h : g.apply env op sx = some (.applied e, g', sx')) (hop : op.epoch.toNat < limit)
    (hparked : ∀ bytes ∈ g.pendingOps, ∀ x, GroupOp.decode bytes = some x →
      x.epoch.toNat < limit) : g'.currentEpoch.toNat < limit := by
  have hnext : nextEpoch g.currentEpoch = some op.epoch := by
    obtain ⟨rfl, hnext, -⟩ := apply_leaves h
    exact hnext
  rw [nextEpoch_eq_some_iff] at hnext
  exact apply_epoch_lt h (by omega) hop hparked

theorem apply_dates (h : g.apply env op sx = some (outcome, g', sx')) :
    g'.createdAt = g.createdAt ∧ g'.lastRotatedAt = g.lastRotatedAt := by
  refine apply_invariant
    (fun k => k.createdAt = g.createdAt ∧ k.lastRotatedAt = g.lastRotatedAt) h
    (fun _ _ hk => hk) (fun _ hlands hk => ?_) ⟨rfl, rfl⟩
  obtain ⟨g₁, hmutate, rfl⟩ := hlands.mutated
  obtain ⟨_, _, _, _, _, rfl⟩ := (mutate_effect hmutate).frame
  exact hk

theorem apply_whole (h : g.apply env op sx = some (outcome, g', sx'))
    (hrows : WholeIds g.members) : WholeIds g'.members :=
  apply_invariant (fun k => WholeIds k.members) h (fun _ _ hk => hk)
    (fun _ hlands hk => hlands.whole hk) hrows

/-- An op that arrives, early enough. -/
theorem Tame.apply (h : Tame g) (happly : g.apply env op sx = some (outcome, g', sx'))
    (hop : op.epoch.toNat + 1 < lastEpoch) : Tame g' := by
  obtain ⟨hcreated, hrotated⟩ := apply_dates happly
  refine ⟨?_, ?_, apply_whole happly h.rows, hcreated ▸ h.created, hrotated ▸ h.rotated⟩
  · refine apply_epoch_lt happly h.epoch (by omega) fun bytes hbytes x hx => ?_
    have hparked := h.parked bytes hbytes x hx
    omega
  · intro bytes hbytes x hx
    by_cases happlied : ∃ e, outcome = .applied e
    · obtain ⟨e, rfl⟩ := happlied
      exact h.parked bytes (apply_unparked happly bytes hbytes) x hx
    rcases apply_refused happly (fun e he => happlied ⟨e, he⟩) with rfl | ⟨own, hencoded, -, rfl⟩
    · exact h.parked bytes hbytes x hx
    rcases mem_of_mem_queuePending hbytes with hold | rfl
    · exact h.parked bytes hold x hx
    · rw [GroupOp.decode_encoded hencoded] at hx
      cases hx
      exact hop

/-- The client's own op, of which there is one less to come. -/
theorem Spare.apply {k : Nat} (h : Spare (k + 1) g)
    (happly : g.apply env op sx = some (outcome, g', sx'))
    (hnext : nextEpoch g.currentEpoch = some op.epoch) (hk : k ≤ 1) : Spare k g' := by
  have hepoch := h.epoch
  have hparked := h.tame.parked
  rw [nextEpoch_eq_some_iff] at hnext
  have hlow : g'.currentEpoch.toNat < lastEpoch - k := by
    refine apply_epoch_lt happly (by omega) (by omega) fun bytes hbytes x hx => ?_
    have hx := hparked bytes hbytes x hx
    omega
  obtain ⟨hcreated, hrotated⟩ := apply_dates happly
  have hload := apply_load happly
  have hroom := h.load
  refine ⟨⟨by omega, fun bytes hbytes => ?_, apply_whole happly h.tame.rows,
    hcreated ▸ h.tame.created, hrotated ▸ h.tame.rotated⟩, by omega, by omega⟩
  exact hparked bytes (apply_own_unparked happly (nextEpoch_eq_some_iff.mpr hnext) bytes hbytes)

/-- An op that arrived and was applied leaves room for a rotation. -/
theorem Tame.applied {e : UInt64} (h : Tame g) (hload : g.load + 2 ≤ 2 ^ 32)
    (happly : g.apply env op sx = some (.applied e, g', sx'))
    (hop : op.epoch.toNat + 1 < lastEpoch) : Spare 1 g' := by
  have hlow : g'.currentEpoch.toNat < lastEpoch - 1 := by
    refine applied_epoch_lt happly (by omega) fun bytes hbytes x hx => ?_
    have hparked := h.parked bytes hbytes x hx
    omega
  have hgrown := apply_load happly
  exact ⟨h.apply happly hop, by omega, by omega⟩

/-! ## A group in a store -/

/-- A change that leaves the epochs and the invitation's date. -/
theorem Tame.keep (h : Tame g) (hepoch : g'.currentEpoch = g.currentEpoch)
    (hqueue : g'.pendingOps = g.pendingOps) (hrows : WholeIds g'.members)
    (hcreated : g'.createdAt = g.createdAt) (hrotated : Storable g'.lastRotatedAt) : Tame g' where
  epoch := hepoch ▸ h.epoch
  parked := hqueue ▸ h.parked
  rows := hrows
  created := hcreated ▸ h.created
  rotated := hrotated

/-- Every group of a store is tame. -/
def AllTame (groups : List ChatGroup) : Prop := ∀ g ∈ groups, Tame g

/-- The call does not trap, and each group that it leaves can be stored. -/
def Returns (r : Option (ChatStore × List Frame)) : Prop :=
  ∃ s' frames, r = some (s', frames) ∧ AllTame s'.groups

theorem returns_some (h : AllTame s'.groups) : Returns (some (s', frames)) := ⟨_, _, rfl, h⟩

theorem AllTame.setGroup (h : AllTame s.groups) (hg : Tame g) : AllTame (s.setGroup g).groups := by
  intro k hk
  rcases mem_setFirst hk with rfl | hk
  · exact hg
  · exact h k hk

theorem AllTame.found (h : AllTame s.groups) (hfind : s.findGroup groupId = some g) : Tame g :=
  h g (List.mem_of_find?_eq_some hfind)

theorem AllTame.append (h : AllTame s.groups) (hg : Tame g) : AllTame (s.groups ++ [g]) := by
  intro k hk
  rcases List.mem_append.mp hk with hold | hnew
  · exact h k hold
  · rw [List.mem_singleton.mp hnew]
    exact hg

/-- A row in the log. -/
theorem Tame.appendSystem (h : Tame g) (text : String) : Tame (g.appendSystem text) :=
  h.keep rfl rfl h.rows rfl h.rotated

theorem Tame.logged (h : Tame g) (outcome : ApplyOutcome) :
    Tame ((outcomeText outcome).elim g g.appendSystem) := by
  cases outcomeText outcome with
  | none => exact h
  | some text => exact h.appendSystem text

/-- What is found under the id of a group that was just written is this group. -/
theorem eq_of_findGroup_setGroup {k : ChatGroup} (h : (s.setGroup g).findGroup g.id = some k) :
    k = g := by
  have hfirst : ∀ groups : List ChatGroup,
      (setFirst g groups).find? (fun x => x.id = g.id) = some k → k = g := by
    intro groups hfind
    induction groups with
    | nil => cases hfind
    | cons x rest ih =>
      rw [setFirst] at hfind
      split at hfind
      · rw [List.find?_cons_of_pos (by simp)] at hfind
        cases hfind
        rfl
      · next hne =>
        rw [List.find?_cons_of_neg (by simpa using hne)] at hfind
        exact ih hfind
  exact hfirst s.groups h

theorem Tame.ship (h : Tame g) (s : ChatStore) (skdm : Bytes) (first : Bytes → List Frame)
    (peers : List Bytes) : Tame (s.shipKey skdm first peers g).1 := by
  rw [shipKey_eq]
  exact h.keep rfl rfl h.rows rfl h.rotated

theorem Spare.mono {j k : Nat} (h : Spare k g) (hjk : j ≤ k) : Spare j g := by
  have hepoch := h.epoch
  have hload := h.load
  exact ⟨h.tame, by omega, by omega⟩

theorem signNext_total (env : GroupEnv) (session : Session) (me : Bytes) (kind : GroupOpKind)
    (now : UInt64) (h : Spare 1 g) : ∃ signed, signNext env session me kind now g = some signed := by
  have hepoch := h.epoch
  have hload := h.load
  rw [lastEpoch] at hepoch
  rw [ChatGroup.load] at hload
  obtain ⟨root, hroot⟩ := memberSetRootOf_total env h.tame.rows (by omega)
  have hnext : ∃ next, nextEpoch g.currentEpoch = some next := by
    refine Option.ne_none_iff_exists'.mp fun hnone => ?_
    have hlast := nextEpoch_eq_none_iff.mp hnone
    omega
  obtain ⟨next, hnext⟩ := hnext
  rw [signNext, hnext, Option.bind_some, memberSetRoot, hroot]
  exact ⟨_, rfl⟩

/-! ## Rotations and hooks -/

theorem rotate_returns (env : GroupEnv) (hs : AllTame s.groups) (hclock : Storable amb.rotateNow)
    (hspare : ∀ g, s.findGroup groupId = some g → Spare 1 g) :
    Returns (rotateMyGroupChain env amb groupId s) := by
  rw [rotateMyGroupChain]
  split
  · next session me g _ _ hfind =>
    have hg := hspare g hfind
    split
    · exact returns_some hs
    split
    · exact returns_some hs
    obtain ⟨signed, hsign⟩ := signNext_total env session me (.rotateSenderKey amb.rotateId)
      amb.rotateNow hg
    rw [hsign]
    cases signed with
    | none => exact returns_some hs
    | some op =>
      have hload := hg.load
      obtain ⟨outcome, g', sx, happly⟩ := apply_total env op { localIdentityPub := some me } hg.tame
        (by omega)
      have hg' := (hg.apply (k := 0) happly (signNext_next hsign) (by decide)).tame
      have hrotated : Tame (g'.rotated amb me) := hg'.keep rfl rfl hg'.rows rfl hclock
      dsimp only
      rw [happly]
      cases outcome with
      | applied =>
        dsimp only
        split
        · exact returns_some (hs.setGroup hrotated)
        · exact returns_some (hs.setGroup (hrotated.ship s _ _ _))
      | _ => exact returns_some (hs.setGroup hg')
  · exact returns_some hs

theorem Tame.ensure (h : Tame g) (s : ChatStore) (session : Session) :
    Tame (s.ensureMySKDMReachesActiveMembers session g).1 := by
  rw [ensureMySKDMReachesActiveMembers]
  split
  · dsimp only
    split
    · exact h
    split
    · exact h
    · exact h.ship s _ _ _
  · exact h

/-- The hooks trap only in a rotation, and rotate only where it is asked for. -/
theorem hooks_return (env : GroupEnv) (sx : ApplySideEffects) (session : Session)
    (hs : AllTame s.groups) (hg : Tame g) (hnow : Storable amb.now) (hclock : Storable amb.rotateNow)
    (hspare : sx.requestSelfRotation = true → Spare 1 g) :
    Returns (applyPostMutationSideEffects env amb session g sx s) := by
  rw [applyPostMutationSideEffects]
  dsimp only
  generalize hactive : s.myCard.any g.hasMember = active
  -- the group whose chain is cleared where it is asked for
  generalize hcleared : (if sx.requestSelfChainClear then _ else g : ChatGroup) = g₁
  have hsame : g₁.currentEpoch = g.currentEpoch ∧ g₁.pendingOps = g.pendingOps ∧
      g₁.members = g.members ∧ g₁.createdAt = g.createdAt ∧ Storable g₁.lastRotatedAt := by
    rw [← hcleared]
    split
    · refine ⟨rfl, rfl, rfl, rfl, ?_⟩
      dsimp only
      split
      · exact hnow
      · exact hg.rotated
    · exact ⟨rfl, rfl, rfl, rfl, hg.rotated⟩
  obtain ⟨hepoch, hqueue, hmembers, hcreated, hrotated⟩ := hsame
  have hg₁ : Tame g₁ := hg.keep hepoch hqueue (hmembers ▸ hg.rows) hcreated hrotated
  split
  · exact returns_some (hs.setGroup hg₁)
  split
  · exact returns_some (hs.setGroup hg₁)
  split
  · next hrotate =>
    refine rotate_returns env (hs.setGroup hg₁) hclock fun k hk => ?_
    rw [eq_of_findGroup_setGroup hk]
    have hroom := hspare hrotate
    refine ⟨hg₁, by rw [hepoch]; exact hroom.epoch, ?_⟩
    rw [ChatGroup.load, hqueue, hmembers]
    exact hroom.load
  · have hshipped := hg₁.ensure s session
    obtain ⟨log, hlog⟩ := surfaceUnverified_eq s sx.newActiveMembers
      (s.ensureMySKDMReachesActiveMembers session g₁).1
    rw [hlog]
    exact returns_some (hs.setGroup (hshipped.keep rfl rfl hshipped.rows rfl hshipped.rotated))

/-! ## What the user does -/

theorem publish_returns (session : Session) (me : Bytes) (op : GroupOp) (sx : ApplySideEffects)
    (hs : AllTame s.groups) (hclock : Storable amb.rotateNow) (hnow : Storable amb.now)
    (hg : Spare 1 g) : Returns ((publish env amb session me op g sx s).map Prod.snd) := by
  rw [publish]
  split
  · exact returns_some (hs.setGroup hg.tame)
  · obtain ⟨s', frames, hhooks, hs'⟩ := hooks_return env sx session
      (hs.setGroup hg.tame) hg.tame hnow hclock fun _ => hg
    rw [hhooks]
    exact returns_some hs'

/-- What the calls that issue an op have in common: an op is signed and applied, and leaves room
for a rotation. -/
theorem issue_total (env : GroupEnv) (session : Session) (me : Bytes) (kind : GroupOpKind)
    (now : UInt64) (hg : Spare 2 g) :
    signNext env session me kind now g = some none ∨
      ∃ op outcome g' sx, signNext env session me kind now g = some (some op) ∧
        g.apply env op { localIdentityPub := some me } = some (outcome, g', sx) ∧ Spare 1 g' := by
  obtain ⟨signed, hsign⟩ := signNext_total env session me kind now (hg.mono (by decide))
  cases signed with
  | none => exact .inl hsign
  | some op =>
    have hload := hg.load
    obtain ⟨outcome, g', sx, happly⟩ := apply_total env op { localIdentityPub := some me } hg.tame
      (by omega)
    exact .inr ⟨op, outcome, g', sx, hsign, happly,
      hg.apply happly (signNext_next hsign) (by decide)⟩

section

variable (env : GroupEnv) (hs : AllTame s.groups) (hclock : Storable amb.rotateNow)
  (hspare : ∀ g, s.findGroup groupId = some g → Spare 2 g)

include hs hclock hspare

theorem leaveGroup_returns : Returns ((s.leaveGroup env amb groupId).map Prod.snd) := by
  have hgone : ∀ {t : ChatStore}, AllTame t.groups → AllTame (t.removeGroup groupId).groups :=
    fun ht k hk => ht k (List.mem_of_mem_eraseP hk)
  rw [leaveGroup]
  split
  · exact returns_some hs
  split
  · obtain ⟨s', frames, hrotate, hs'⟩ := rotate_returns env hs hclock fun k hk =>
      (hspare k hk).mono (by decide)
    rw [hrotate]
    exact returns_some (hgone hs')
  · exact returns_some (hgone hs)

theorem rotateBeforeSend_returns (hfind : s.findGroup groupId = some g) :
    Returns (s.rotateBeforeSend env amb g) := by
  rw [rotateBeforeSend, findGroup_id hfind]
  split
  · exact rotate_returns env hs hclock fun k hk => (hspare k hk).mono (by decide)
  · exact returns_some hs

theorem beginGroupMessage_returns (text : String) :
    Returns ((s.beginGroupMessage env amb groupId text).map fun r => (r.1, r.2.1)) := by
  rw [beginGroupMessage]
  split
  · exact returns_some hs
  split
  · next session me g _ _ hfind =>
    split
    · exact returns_some (hs.setGroup ((hs.found hfind).appendSystem _))
    split
    · exact returns_some hs
    obtain ⟨s', frames, hrotate, hs'⟩ :=
      rotateBeforeSend_returns env hs hclock hspare hfind
    rw [hrotate]
    rcases currentChain_row s' groupId with hsame | ⟨k, row, hk, hrow⟩
    · refine returns_some ?_
      rw [hsame]
      exact hs'
    · refine returns_some ?_
      rw [hrow]
      exact hs'.setGroup ((hs'.found hk).appendSystem _)
  · exact returns_some hs

theorem beginGroupAttachment_returns (safeName : String) (blocked : Bool) :
    Returns ((s.beginGroupAttachment env amb groupId safeName blocked).map Prod.snd) := by
  rw [beginGroupAttachment]
  split
  · next session me g _ _ hfind =>
    split
    · exact returns_some (hs.setGroup ((hs.found hfind).appendSystem _))
    split
    · exact returns_some hs
    split
    · exact returns_some (hs.setGroup ((hs.found hfind).appendSystem _))
    obtain ⟨s', frames, hrotate, hs'⟩ :=
      rotateBeforeSend_returns env hs hclock hspare hfind
    rw [hrotate]
    exact returns_some hs'
  · exact returns_some hs

variable (hnow : Storable amb.now)

include hnow

theorem inviteToGroup_returns (contact : Contact) :
    Returns ((s.inviteToGroup env amb groupId contact).map Prod.snd) := by
  rw [inviteToGroup]
  split
  · next session me g _ _ hfind =>
    iterate 4
      split
      · exact returns_some hs
    rcases issue_total env session me
        (.addMember contact.identityPub .member contact.displayName) amb.now (hspare g hfind) with
      hsign | ⟨op, outcome, g', sx, hsign, happly, hg'⟩
    · rw [hsign]
      exact returns_some hs
    rw [hsign]
    dsimp only
    rw [happly]
    cases outcome with
    | applied =>
      dsimp only
      split
      · exact returns_some (hs.setGroup hg'.tame)
      have hload := hg'.load
      rw [ChatGroup.load] at hload
      obtain ⟨root, hroot⟩ := memberSetRootOf_total env hg'.tame.rows (by omega)
      have hsnapshot : ∃ snapshot, signBootstrap env session g' me amb.bootstrapNow =
          some snapshot := by
        rw [signBootstrap, memberSetRoot, hroot]
        exact ⟨_, rfl⟩
      obtain ⟨snapshot, hsnapshot⟩ := hsnapshot
      obtain ⟨s', frames, hhooks, hs'⟩ := hooks_return env sx session
        (hs.setGroup hg'.tame) hg'.tame hnow hclock fun _ => hg'
      rw [hsnapshot]
      dsimp only
      rw [hhooks]
      exact returns_some hs'
    | _ => exact returns_some (hs.setGroup hg'.tame)
  · exact returns_some hs

theorem removeFromGroup_returns (peerIdentity : Bytes) :
    Returns ((s.removeFromGroup env amb groupId peerIdentity).map Prod.snd) := by
  rw [removeFromGroup]
  split
  · next session me g _ _ hfind =>
    iterate 2
      split
      · exact returns_some hs
    rcases issue_total env session me (.removeMember peerIdentity) amb.now (hspare g hfind) with
      hsign | ⟨op, outcome, g', sx, hsign, happly, hg'⟩
    · rw [hsign]
      exact returns_some hs
    rw [hsign]
    dsimp only
    rw [happly]
    cases outcome with
    | rejectedMalformed => exact returns_some (hs.setGroup (hg'.tame.appendSystem _))
    | _ => exact publish_returns session me op sx hs hclock hnow hg'
  · exact returns_some hs

theorem renameGroup_returns (newName : String) :
    Returns ((s.renameGroup env amb groupId newName).map Prod.snd) := by
  rw [renameGroup]
  split
  · next session me g _ _ hfind =>
    iterate 3
      split
      · exact returns_some hs
    rcases issue_total env session me (.rename (trimmed newName)) amb.now (hspare g hfind) with
      hsign | ⟨op, outcome, g', sx, hsign, happly, hg'⟩
    · rw [hsign]
      exact returns_some hs
    rw [hsign]
    dsimp only
    rw [happly]
    cases outcome with
    | applied => exact publish_returns session me op sx hs hclock hnow hg'
    | _ => exact returns_some (hs.setGroup hg'.tame)
  · exact returns_some hs

theorem signAndBroadcastRoleOp_returns (peerIdentity : Bytes) (kind : GroupOpKind) :
    Returns ((signAndBroadcastRoleOp env amb groupId peerIdentity kind s).map Prod.snd) := by
  rw [signAndBroadcastRoleOp]
  split
  · next session me g _ _ hfind =>
    iterate 2
      split
      · exact returns_some hs
    rcases issue_total env session me kind amb.now (hspare g hfind) with
      hsign | ⟨op, outcome, g', sx, hsign, happly, hg'⟩
    · rw [hsign]
      exact returns_some hs
    rw [hsign]
    dsimp only
    rw [happly]
    cases outcome with
    | applied => exact publish_returns session me op sx hs hclock hnow hg'
    | rejectedMalformed => exact returns_some (hs.setGroup (hg'.tame.appendSystem _))
    | _ => exact returns_some (hs.setGroup hg'.tame)
  · exact returns_some hs

end

theorem acceptGroupInvitation_tame (amb : Ambient) (groupId : Bytes) (hs : AllTame s.groups) :
    AllTame (s.acceptGroupInvitation amb groupId).2.1.groups := by
  rw [acceptGroupInvitation]
  split
  · next session me g _ _ hfind =>
    split
    · exact hs
    split
    · exact hs
    have hg := hs.found hfind
    have hopen : Tame { g with pendingInvitation := false } :=
      hg.keep rfl rfl hg.rows rfl hg.rotated
    refine hs.setGroup ?_
    rw [enrolMyChainOnFirstJoin]
    split
    · next me' _ _ =>
      split
      · exact hopen
      · have henrolled : Tame (ChatGroup.enrolled { g with pendingInvitation := false } amb me') :=
          hopen.keep rfl rfl (WholeIds.updateFirst hg.rows fun m hm => hg.rows m hm) rfl hg.rotated
        exact henrolled.ship s _ _ _
    · exact hopen
  · exact hs

theorem resendMyKeys_tame (groupId : Bytes) (hs : AllTame s.groups) :
    AllTame (s.resendMyKeys groupId).2.1.groups := by
  rw [resendMyKeys]
  split
  · next session me g _ _ hfind =>
    have hg := hs.found hfind
    split
    · exact hs
    split
    · exact hs
    split
    · exact hs
    · have hblank : Tame { g with mySkdmRecipients := ∅ } := hg.keep rfl rfl hg.rows rfl hg.rotated
      exact hs.setGroup (hblank.ship s _ _ _)
  · exact hs

theorem beginGroupChunks_tame (groupId : Bytes) (hs : AllTame s.groups) :
    AllTame (s.beginGroupChunks groupId).1.groups := by
  rw [beginGroupChunks]
  split
  · next session me g _ _ hfind =>
    split
    · exact hs.setGroup ((hs.found hfind).appendSystem _)
    split
    · exact hs
    rcases currentChain_row s groupId with hsame | ⟨k, row, hk, hrow⟩
    · rw [hsame]
      exact hs
    · rw [hrow]
      exact hs.setGroup ((hs.found hk).appendSystem _)
  · exact hs

/-! ## Groups that come in -/

/-- A group made of a `Create` op stands at epoch 0, and its dates are the op's timestamp. -/
theorem create_tame {bytes signedBytes : Bytes} (hdecode : GroupOp.decode bytes = some op)
    (hcreate : ChatGroup.create env op signedBytes = some g) (hdate : Storable op.timestampMillis) :
    Tame g := by
  have hinvited := create_invited hdecode hcreate
  have hfields : g.currentEpoch = 0 ∧ g.createdAt = op.timestampMillis ∧
      g.lastRotatedAt = op.timestampMillis := by
    rw [ChatGroup.create] at hcreate
    split at hcreate
    · iterate 6
        split at hcreate
        · cases hcreate
      cases hcreate
      exact ⟨rfl, rfl, rfl⟩
    · cases hcreate
  obtain ⟨hepoch, hcreated, hrotated⟩ := hfields
  refine ⟨by rw [hepoch]; decide, fun bytes hbytes => ?_, hinvited.rows, hcreated ▸ hdate,
    hrotated ▸ hdate⟩
  rw [hinvited.pendingOps] at hbytes
  cases hbytes

/-- A group made of a snapshot stands where the snapshot says. -/
theorem snapshot_tame {bytes : Bytes} {b : GroupBootstrap}
    (hdecode : GroupBootstrap.decode bytes = some b) (hinto : b.intoChatGroup me = some g)
    (hepoch : b.currentEpoch.toNat < lastEpoch) (hdate : Storable b.timestampMillis) : Tame g := by
  have hinvited := snapshot_invited hdecode hinto
  rw [GroupBootstrap.intoChatGroup] at hinto
  split at hinto
  · cases hinto
  · cases hinto
    exact ⟨hepoch, by simp, hinvited.rows, hdate, hdate⟩

theorem createGroup_returns (env : GroupEnv) (groupId : FixedBytes 16) (name : String)
    (initialContacts : List Contact) (hs : AllTame s.groups) (hnow : Storable amb.now) :
    Returns ((s.createGroup env amb groupId name initialContacts).map Prod.snd) := by
  have hnobody : WholeIds [] := nofun
  obtain ⟨root, hroot⟩ := memberSetRootOf_total env hnobody (by decide)
  rw [createGroup]
  split
  · next session me _ _ =>
    iterate 5
      split
      · exact returns_some hs
    dsimp only
    rw [hroot]
    dsimp only
    split
    · exact returns_some hs
    next op hsign =>
    split
    · exact returns_some hs
    next bytes hencoded =>
    split
    · exact returns_some hs
    next g hcreate =>
    split
    · exact returns_some hs
    have hdate : op.timestampMillis = amb.now := by
      rw [signOp] at hsign
      dsimp only at hsign
      split at hsign
      · cases hsign
      · obtain ⟨_, -, rfl⟩ := Option.map_eq_some_iff.mp hsign
        rfl
    have hg := create_tame (GroupOp.decode_encoded hencoded) hcreate (hdate ▸ hnow)
    have hfounded : Tame (g.founded amb me) :=
      hg.keep rfl rfl (WholeIds.updateFirst hg.rows fun m hm => hg.rows m hm) rfl hg.rotated
    exact returns_some (hs.append (hfounded.ship s _ _ _))
  · exact returns_some hs

/-- An op that keeps clear of the ends: a `Create` by its timestamp, any other by its epoch. -/
def GroupOp.Clear (op : GroupOp) : Prop :=
  match op.kind with
  | .create _ _ => op.timestampMillis.toNat < 2 ^ 63 - 512
  | _ => op.epoch.toNat + 2 < 2 ^ 64

/-- A snapshot that keeps clear of the ends. -/
structure GroupBootstrap.Clear (b : GroupBootstrap) : Prop where
  epoch : b.currentEpoch.toNat + 1 < 2 ^ 64
  date : b.timestampMillis.toNat < 2 ^ 63 - 512

theorem handleCreate_tame {bytes : Bytes} (env : GroupEnv) (me sender : Bytes)
    (hs : AllTame s.groups) (hdecode : GroupOp.decode bytes = some op)
    (hclear : op.verifySignature env = true → op.Clear) :
    AllTame (s.handleCreate env op me sender).groups := by
  rw [handleCreate]
  iterate 3
    split
    · exact hs
  split
  · exact hs
  next hsig =>
  split
  · next hkind =>
    split
    · exact hs
    split
    · exact hs
    split
    · exact hs
    · next hcreate =>
      have hdate := hclear (not_not.mp hsig)
      rw [GroupOp.Clear, hkind] at hdate
      exact hs.append (create_tame hdecode hcreate (storable_iff.mpr hdate))
  · exact hs

theorem handleGroupOp_returns (sender : Bytes) (hs : AllTame s.groups)
    (hload : ∀ g ∈ s.groups, g.load + 2 ≤ 2 ^ 32) (hnow : Storable amb.now)
    (hclock : Storable amb.rotateNow)
    (hclear : ∀ op, GroupOp.decode payload = some op → op.verifySignature env = true → op.Clear) :
    Returns (s.handleGroupOp env amb payload sender) := by
  rw [handleGroupOp]
  split
  · next session me _ _ =>
    split
    · exact returns_some hs
    split
    · exact returns_some hs
    next op hdecode =>
    split
    · exact returns_some (handleCreate_tame env me sender hs hdecode (hclear op hdecode))
    next hkind =>
    split
    · exact returns_some hs
    next g hfind =>
    have hg := hs.found hfind
    have hroom := hload g (List.mem_of_find?_eq_some hfind)
    obtain ⟨outcome, g', sx, happly⟩ := apply_total env op { localIdentityPub := some me } hg
      (by omega)
    rw [happly]
    by_cases hsig : op.verifySignature env = true
    · have hop : op.epoch.toNat + 1 < lastEpoch := by
        have hclear := hclear op hdecode hsig
        rw [GroupOp.Clear] at hclear
        split at hclear
        · next hcreate => exact absurd hcreate (hkind _ _)
        · rw [lastEpoch]
          omega
      have hg' := hg.apply happly hop
      cases outcome with
      | applied =>
        exact hooks_return env sx session (hs.setGroup hg') hg' hnow hclock fun _ =>
          hg.applied hroom happly hop
      | _ => exact returns_some (hs.setGroup (hg'.logged _))
    · -- an op without a good signature changes nothing
      have hstep : applyStep env (some me) op g = some (outcome, g') := by
        rw [← apply_applyStep op g { localIdentityPub := some me }, happly]
        rfl
      rcases applyStep_cases hstep with ⟨hsame, hnot⟩ | ⟨_, -, hgood, -⟩ | ⟨_, _, -, -, hgood, -⟩
      · dsimp only at hsame hnot
        have hg' : Tame g' := hsame ▸ hg
        cases outcome with
        | applied e => exact absurd rfl (hnot e)
        | _ => exact returns_some (hs.setGroup (hg'.logged _))
      · exact absurd hgood hsig
      · exact absurd hgood hsig
  · exact returns_some hs

theorem handleGroupBootstrap_returns (sender : Bytes) (hs : AllTame s.groups)
    (hclear : ∀ id bytes b, splitGroupId payload = some (id, bytes) →
      GroupBootstrap.decode bytes = some b → b.verifySignature env = true → b.Clear) :
    Returns ((s.handleGroupBootstrap env payload sender).map fun s' => (s', [])) := by
  rw [handleGroupBootstrap]
  split
  · next me envelopeGroupId bytes _ hsplit =>
    split
    · exact returns_some hs
    next b hdecode =>
    split
    · exact returns_some hs
    split
    · exact returns_some hs
    split
    · exact returns_some hs
    split
    · exact returns_some hs
    next hsig =>
    obtain ⟨hcount, hrows⟩ := GroupBootstrap.decode_members hdecode
    rw [maxMembers] at hcount
    obtain ⟨root, hroot⟩ := memberSetRootOf_total env hrows (by omega)
    have hverify : ∃ good, b.verifyMemberSetRoot env = some good := by
      rw [GroupBootstrap.verifyMemberSetRoot, hroot]
      exact ⟨_, rfl⟩
    obtain ⟨good, hverify⟩ := hverify
    rw [hverify]
    cases good with
    | false => exact returns_some hs
    | true =>
      dsimp only
      iterate 3
        split
        · exact returns_some hs
      split
      · exact returns_some hs
      · next hinto =>
        have hb := hclear envelopeGroupId bytes b hsplit hdecode (not_not.mp hsig)
        have hepoch := hb.epoch
        exact returns_some (hs.append (snapshot_tame hdecode hinto (by rw [lastEpoch]; omega)
          (storable_iff.mpr hb.date)))
  · exact returns_some hs

theorem handleGroupKeyDistribution_returns (env : GroupEnv) (payload sender : Bytes)
    (hs : AllTame s.groups) (hnow : Storable amb.now) (hclock : Storable amb.rotateNow) :
    Returns (s.handleGroupKeyDistribution env amb payload sender) := by
  rw [handleGroupKeyDistribution]
  split
  · next session groupId skdm _ _ =>
    split
    · exact returns_some hs
    split
    · exact returns_some hs
    next g hfind =>
    split
    · exact returns_some hs
    split
    · exact returns_some hs
    next dist _ =>
    split
    · exact returns_some hs
    have hg := hs.found hfind
    obtain ⟨previous, heq⟩ := setMemberDistId_eq g dist sender
    dsimp only
    rw [heq]
    have hkeyed : Tame { g with
        memberDistributionIds := g.memberDistributionIds.insert sender dist
        previousMemberDistributionIds := previous
        members := updateFirst (fun m => m.peerId = sender && m.status = .pendingSKDM)
          (fun m => { m with status := .active }) g.members } :=
      hg.keep rfl rfl (WholeIds.updateFirst hg.rows fun m hm => hg.rows m hm) rfl hg.rotated
    exact hooks_return env { localIdentityPub := s.myCard } session (hs.setGroup hkeyed) hkeyed
      hnow hclock (by rintro ⟨⟩)
  · exact returns_some hs

end Pizzini.Group
