import Pizzini.Lib.Related
import Pizzini.Group.DeliveryOrder
import Pizzini.Group.Invite

/-!
# A snapshot simulates its group

A newcomer starts from a snapshot (`signBootstrap`, `GroupBootstrap.decode`,
`intoChatGroup`). The snapshot has the member rows and the position in the op
chain; it has no sender keys, no log and, of the up to `recentOpDigestsWindow`
digests of the group it was taken from, only the last one. From then on both
devices run `apply` on their own.

- `Core` is what `apply` reads and writes of a group, the digest table apart.
  Groups with one core refuse the same ops for the same reasons and are left
  with one core (`mutate_core`, `land_core`).
- The digest table holds the epochs of a window that ends at the current one
  (`Windowed`). In such a table the trimming in `recordDigest` shows only as the
  window (`Windowed.digest_recordDigest`), so two tables that agree from an epoch
  on still do after an op, however much longer one of them is.
- `Alike base g b` joins the two; every op from epoch `base` on keeps it
  (`applyStep_alike`), whatever it is: a fork, a repetition, an op that is parked
  or one that replays the queue.
-/

namespace Pizzini.Group

open Wire

namespace ChatGroup

variable {env : GroupEnv} {op : GroupOp} {g g' b b' : ChatGroup}

/-! ## The digest table -/

/-- The table holds every epoch from `lo` to the current one that is still in the
window, and the current one's digest is `lastOpDigest`. -/
structure Windowed (lo : Nat) (g : ChatGroup) : Prop where
  held : ∀ e : UInt64, (g.digest e).isSome = true ↔
    lo ≤ e.toNat ∧ e.toNat ≤ g.currentEpoch.toNat ∧
      g.currentEpoch.toNat < e.toNat + recentOpDigestsWindow
  last : g.digest g.currentEpoch = some g.lastOpDigest

theorem Windowed.lo_le {lo : Nat} (h : Windowed lo g) : lo ≤ g.currentEpoch.toNat :=
  ((h.held _).mp (by rw [h.last, Option.isSome_some])).1

/-- A dictionary that has all epochs from `a` to `a + k` has more than `k` entries. -/
theorem lt_len_of_epochs {m : Dict UInt64 Bytes} {a k : Nat} (hroom : a + k < 2 ^ 64)
    (h : ∀ i, i ≤ k → (m.lookup (UInt64.ofNat (a + i))).isSome = true) : k < m.len := by
  have hnodup : ((List.range (k + 1)).map fun i => UInt64.ofNat (a + i)).Nodup := by
    refine List.Nodup.map_on ?_ List.nodup_range
    intro i hi j hj heq
    rw [List.mem_range] at hi hj
    have hnat := congrArg UInt64.toNat heq
    rw [UInt64.toNat_ofNat', UInt64.toNat_ofNat', Nat.mod_eq_of_lt (by omega),
      Nat.mod_eq_of_lt (by omega)] at hnat
    omega
  have hsub : ((List.range (k + 1)).map fun i => UInt64.ofNat (a + i)) ⊆ m.keys := by
    intro e he
    obtain ⟨i, hi, rfl⟩ := List.mem_map.mp he
    rw [List.mem_range] at hi
    exact AList.lookup_isSome.mp (h i (by omega))
  have hle := (hnodup.subperm hsub).length_le
  rw [List.length_map, List.length_range, AList.keys, List.keys, List.length_map] at hle
  exact hle

/-- Recording the next digest keeps exactly what the window has room for, whether
the table is trimmed or not. -/
theorem Windowed.digest_recordDigest {lo : Nat} (h : Windowed lo g) {d : Bytes} {next : UInt64}
    (hnext : next.toNat = g.currentEpoch.toNat + 1) (e : UInt64) :
    (g.recordDigest d next).digest e =
      if e = next then some d
      else if next.toNat < e.toNat + recentOpDigestsWindow then g.digest e else none := by
  by_cases he : e = next
  · rw [if_pos he, he, digest_recordDigest_self]
  · rw [if_neg he]
    by_cases hwindow : next.toNat < e.toNat + recentOpDigestsWindow
    · rw [if_pos hwindow]
      cases hknown : g.digest e with
      | some known => exact digest_recordDigest_keeps he hwindow hknown
      | none =>
        cases hwindowed : (g.recordDigest d next).digest e with
        | none => rfl
        | some known =>
          rw [digest_recordDigest_of_ne he hwindowed] at hknown
          cases hknown
    · rw [if_neg hwindow, recordDigest, digest]
      dsimp only
      split
      · rw [AList.lookup_retain, Option.filter_eq_none_iff]
        intro _ _
        rw [decide_eq_true_eq]
        split <;> omega
      · -- the table is short: an epoch before the window cannot be in it
        rename_i hshort
        rw [AList.lookup_insert_ne he]
        by_contra hsome
        have hsome : (g.digest e).isSome = true := Option.ne_none_iff_isSome.mp hsome
        obtain ⟨hlo, hcur, hin⟩ := (h.held e).mp hsome
        have hlt : next.toNat < 2 ^ 64 := next.toNat_lt
        refine hshort (lt_len_of_epochs (a := e.toNat) (by omega) fun i hi => ?_)
        rw [AList.lookup_insert_of_eq_or_ne]
        split
        · rfl
        · rename_i hne
          have hnat : (UInt64.ofNat (e.toNat + i)).toNat = e.toNat + i := by
            rw [UInt64.toNat_ofNat', Nat.mod_eq_of_lt (by omega)]
          have hne : e.toNat + i ≠ next.toNat := fun heq =>
            hne (UInt64.toNat_inj.mp (hnat.trans heq))
          refine (h.held _).mpr ?_
          rw [hnat]
          omega

theorem digest_recordDigest_congr (hsame : g.recentOpDigests = b.recentOpDigests) (d : Bytes)
    (next e : UInt64) : (g.recordDigest d next).digest e = (b.recordDigest d next).digest e := by
  simp only [recordDigest, digest, hsame]

/-- The digests after an op has taken effect. -/
theorem Lands.digest_eq {lo : Nat} {d : Bytes} (hlands : Lands env op d g g')
    (hwindowed : Windowed lo g) (hnext : nextEpoch g.currentEpoch = some op.epoch) (e : UInt64) :
    g'.digest e =
      if e = op.epoch then some d
      else if op.epoch.toNat < e.toNat + recentOpDigestsWindow then g.digest e else none := by
  obtain ⟨g₁, hmutate, rfl⟩ := hlands.mutated
  obtain ⟨name, members, dist, prev, skdm, rfl⟩ := (mutate_effect hmutate).frame
  rw [← hwindowed.digest_recordDigest (nextEpoch_eq_some_iff.mp hnext) e]
  exact digest_recordDigest_congr rfl d op.epoch e

theorem Lands.windowed {lo : Nat} {d : Bytes} (hlands : Lands env op d g g')
    (hwindowed : Windowed lo g) (hnext : nextEpoch g.currentEpoch = some op.epoch) :
    Windowed lo g' := by
  obtain ⟨-, hepoch, hlast, -⟩ := hlands.frame
  have hlo := hwindowed.lo_le
  have hstep := nextEpoch_eq_some_iff.mp hnext
  constructor
  · intro e
    rw [hlands.digest_eq hwindowed hnext, hepoch]
    by_cases he : e = op.epoch
    · rw [if_pos he, he]
      simp only [Option.isSome_some, true_iff, recentOpDigestsWindow]
      omega
    · rw [if_neg he]
      have hne : e.toNat ≠ op.epoch.toNat := fun heq => he (UInt64.toNat_inj.mp heq)
      by_cases hwindow : op.epoch.toNat < e.toNat + recentOpDigestsWindow
      · rw [if_pos hwindow, hwindowed.held]
        omega
      · rw [if_neg hwindow]
        simp only [Option.isSome_none, Bool.false_eq_true, false_iff]
        omega
  · rw [hepoch, hlast, hlands.digest_eq hwindowed hnext, if_pos rfl]

/-! ## Groups with one core -/

/-- What `apply` reads and writes of a group, the digest table apart. -/
structure Core where
  id : Bytes
  displayName : String
  members : List GroupMember
  currentEpoch : UInt64
  lastOpDigest : Bytes
  pendingOps : List Bytes

/-- The core of a group. -/
def core (g : ChatGroup) : Core :=
  ⟨g.id, g.displayName, g.members, g.currentEpoch, g.lastOpDigest, g.pendingOps⟩

theorem core_eq_iff :
    g.core = b.core ↔ g.id = b.id ∧ g.displayName = b.displayName ∧ g.members = b.members ∧
      g.currentEpoch = b.currentEpoch ∧ g.lastOpDigest = b.lastOpDigest ∧
      g.pendingOps = b.pendingOps := by
  rw [core, core, Core.mk.injEq]

theorem activeMembers_congr (h : g.members = b.members) : g.activeMembers = b.activeMembers := by
  rw [activeMembers, activeMembers, h]

theorem hasMember_congr (h : g.members = b.members) (p : Bytes) :
    g.hasMember p = b.hasMember p := by
  rw [hasMember, hasMember, h]

theorem isLastAdmin_congr (h : g.members = b.members) (p : Bytes) :
    g.isLastAdmin p = b.isLastAdmin p := by
  rw [isLastAdmin, isLastAdmin, activeAdmins, activeAdmins, activeMembers_congr h]

theorem isAuthorised_congr (h : g.members = b.members) (p : Bytes) (kind : GroupOpKind) :
    g.isAuthorised p kind = b.isAuthorised p kind := by
  cases kind with
  | create => rfl
  | rotateSenderKey => exact hasMember_congr h p
  | addMember | removeMember | rename | promoteAdmin | demoteAdmin =>
    show g.hasAdmin p = b.hasAdmin p
    rw [hasAdmin, hasAdmin, h]

theorem memberSetRootMismatch_congr (h : g.members = b.members) :
    g.memberSetRootMismatch env op = b.memberSetRootMismatch env op := by
  rw [memberSetRootMismatch, memberSetRootMismatch, memberSetRoot, memberSetRoot, h]

theorem mutateAddMember_core (h : g.core = b.core) (peerId : Bytes) (role : GroupRole)
    (name : String) (addedBy : Bytes) (epoch : UInt64) (sx : ApplySideEffects) :
    (g.mutateAddMember peerId role name addedBy epoch sx).1 =
        (b.mutateAddMember peerId role name addedBy epoch sx).1 ∧
      (g.mutateAddMember peerId role name addedBy epoch sx).2.1.core =
        (b.mutateAddMember peerId role name addedBy epoch sx).2.1.core := by
  obtain ⟨hid, hname, hmembers, hepoch, hlast, hqueue⟩ := core_eq_iff.mp h
  simp only [mutateAddMember, activeMembers_congr hmembers, hmembers]
  split
  · exact ⟨rfl, h⟩
  · split
    · split
      · exact ⟨rfl, h⟩
      · split
        · exact ⟨rfl, h⟩
        · exact ⟨rfl, core_eq_iff.mpr ⟨hid, hname, rfl, hepoch, hlast, hqueue⟩⟩
    · split
      · exact ⟨rfl, h⟩
      · exact ⟨rfl, core_eq_iff.mpr ⟨hid, hname, rfl, hepoch, hlast, hqueue⟩⟩

theorem mutateRemoveMember_core (h : g.core = b.core) (peerId : Bytes) :
    (g.mutateRemoveMember peerId {}).1 = (b.mutateRemoveMember peerId {}).1 ∧
      (g.mutateRemoveMember peerId {}).2.1.core = (b.mutateRemoveMember peerId {}).2.1.core := by
  obtain ⟨hid, hname, hmembers, hepoch, hlast, hqueue⟩ := core_eq_iff.mp h
  simp only [mutateRemoveMember, hasMember_congr hmembers, isLastAdmin_congr hmembers, hmembers]
  split
  · exact ⟨rfl, h⟩
  · split
    · exact ⟨rfl, h⟩
    · exact ⟨rfl, core_eq_iff.mpr ⟨hid, hname, rfl, hepoch, hlast, hqueue⟩⟩

theorem mutatePromoteAdmin_core (h : g.core = b.core) (peerId : Bytes) :
    (g.mutatePromoteAdmin peerId).1 = (b.mutatePromoteAdmin peerId).1 ∧
      (g.mutatePromoteAdmin peerId).2.core = (b.mutatePromoteAdmin peerId).2.core := by
  obtain ⟨hid, hname, hmembers, hepoch, hlast, hqueue⟩ := core_eq_iff.mp h
  simp only [mutatePromoteAdmin, hasMember_congr hmembers, hmembers]
  split
  · exact ⟨rfl, h⟩
  · exact ⟨rfl, core_eq_iff.mpr ⟨hid, hname, rfl, hepoch, hlast, hqueue⟩⟩

theorem mutateDemoteAdmin_core (h : g.core = b.core) (peerId : Bytes) :
    (g.mutateDemoteAdmin peerId).1 = (b.mutateDemoteAdmin peerId).1 ∧
      (g.mutateDemoteAdmin peerId).2.core = (b.mutateDemoteAdmin peerId).2.core := by
  obtain ⟨hid, hname, hmembers, hepoch, hlast, hqueue⟩ := core_eq_iff.mp h
  simp only [mutateDemoteAdmin, hasMember_congr hmembers, isLastAdmin_congr hmembers, hmembers]
  split
  · exact ⟨rfl, h⟩
  · split
    · exact ⟨rfl, h⟩
    · exact ⟨rfl, core_eq_iff.mpr ⟨hid, hname, rfl, hepoch, hlast, hqueue⟩⟩

theorem setMemberDistId_core (g : ChatGroup) (dist : UUID) (sender : Bytes) :
    (g.setMemberDistId dist sender).core = g.core := by
  obtain ⟨prev, hprev⟩ := setMemberDistId_eq g dist sender
  rw [hprev, core, core]

/-- The mutations read and write the core only. -/
theorem executeMutation_core (h : g.core = b.core) (op : GroupOp) :
    (g.executeMutation op {}).1 = (b.executeMutation op {}).1 ∧
      (g.executeMutation op {}).2.1.core = (b.executeMutation op {}).2.1.core := by
  unfold executeMutation
  cases op.kind with
  | create => exact ⟨rfl, h⟩
  | addMember peerId role name => exact mutateAddMember_core h ..
  | removeMember peerId => exact mutateRemoveMember_core h peerId
  | rename newName =>
    obtain ⟨hid, -, hmembers, hepoch, hlast, hqueue⟩ := core_eq_iff.mp h
    exact ⟨rfl, core_eq_iff.mpr ⟨hid, rfl, hmembers, hepoch, hlast, hqueue⟩⟩
  | promoteAdmin peerId => exact mutatePromoteAdmin_core h peerId
  | demoteAdmin peerId => exact mutateDemoteAdmin_core h peerId
  | rotateSenderKey dist =>
    refine ⟨rfl, ?_⟩
    show (g.setMemberDistId dist op.operatorIdentity).core =
      (b.setMemberDistId dist op.operatorIdentity).core
    rw [setMemberDistId_core, setMemberDistId_core, h]

/-- The same mutation of groups with one core: refused for the same reason, or one core again. -/
theorem mutate_core (h : g.core = b.core) (op : GroupOp) :
    (g.mutate op).map core = (b.mutate op).map core := by
  obtain ⟨houtcome, hcore⟩ := executeMutation_core h op
  rw [mutate, mutate]
  cases hg : g.executeMutation op {} with
  | mk outcome rest =>
    cases hb : b.executeMutation op {} with
    | mk outcome' rest' =>
      rw [hg, hb] at houtcome hcore
      cases houtcome
      cases outcome with
      | ok => exact congrArg Except.ok hcore
      | rejected reason => rfl

theorem advance_core (h : g.core = b.core) (epoch : UInt64) (d : Bytes) :
    (g.advance epoch d).core = (b.advance epoch d).core := by
  obtain ⟨hid, hname, hmembers, -, -, hqueue⟩ := core_eq_iff.mp h
  exact core_eq_iff.mpr ⟨hid, hname, hmembers, rfl, rfl, hqueue⟩

/-- An op at the next epoch has the same outcome in groups with one core. -/
theorem land_core (h : g.core = b.core) (op : GroupOp) (d : Bytes) :
    (land env op d g).map (fun r => (r.1, r.2.core)) =
      (land env op d b).map fun r => (r.1, r.2.core) := by
  obtain ⟨-, -, hmembers, -, hlast, -⟩ := core_eq_iff.mp h
  have hmutate := mutate_core h op
  simp only [land, hlast, isAuthorised_congr hmembers, memberSetRootMismatch_congr hmembers]
  split
  · rw [Option.map_some, Option.map_some, h]
  · split
    · rw [Option.map_some, Option.map_some, h]
    · split
      · rfl
      · rw [Option.map_some, Option.map_some, h]
      · cases hg : g.mutate op with
        | error reason =>
          cases hb : b.mutate op with
          | error reason' =>
            rw [hg, hb] at hmutate
            cases hmutate
            rw [Option.map_some, Option.map_some, h]
          | ok b' =>
            rw [hg, hb] at hmutate
            cases hmutate
        | ok g' =>
          cases hb : b.mutate op with
          | error reason =>
            rw [hg, hb] at hmutate
            cases hmutate
          | ok b' =>
            rw [hg, hb] at hmutate
            rw [Option.map_some, Option.map_some, advance_core (Except.ok.inj hmutate)]

/-! ## The simulation -/

/-- Two groups that answer alike for every epoch from `base` on. -/
structure Alike (base : UInt64) (g b : ChatGroup) : Prop where
  core : g.core = b.core
  digests : ∀ e, base ≤ e → g.digest e = b.digest e
  windowed : ∃ lo, Windowed lo g
  windowed' : ∃ lo, Windowed lo b

variable {base : UInt64} {me me' : Option Bytes}

/-- The same outcome, and groups that are still alike. -/
def StillAlike {A : Type} (base : UInt64) (r s : A × ChatGroup) : Prop :=
  r.1 = s.1 ∧ Alike base r.2 s.2

theorem Alike.currentEpoch (h : Alike base g b) : g.currentEpoch = b.currentEpoch :=
  congrArg Core.currentEpoch h.core

theorem Alike.pendingOps (h : Alike base g b) : g.pendingOps = b.pendingOps :=
  congrArg Core.pendingOps h.core

theorem Alike.withPending (h : Alike base g b) (p : List Bytes) :
    Alike base (g.withPending p) (b.withPending p) := by
  obtain ⟨hid, hname, hmembers, hepoch, hlast, -⟩ := core_eq_iff.mp h.core
  obtain ⟨lo, hg⟩ := h.windowed
  obtain ⟨lo', hb⟩ := h.windowed'
  exact ⟨core_eq_iff.mpr ⟨hid, hname, hmembers, hepoch, hlast, rfl⟩, h.digests,
    ⟨lo, hg.held, hg.last⟩, lo', hb.held, hb.last⟩

/-- Both groups let an op at the next epoch take effect, or both refuse it. -/
theorem land_alike {d : Bytes} (h : Alike base g b)
    (hnext : nextEpoch g.currentEpoch = some op.epoch) :
    Option.Rel (StillAlike base) (land env op d g) (land env op d b) := by
  refine Option.Rel.of_map_eq (land_core h.core op d) fun r s hg hb heq => ?_
  obtain ⟨houtcome, hcore⟩ := Prod.mk.inj heq
  refine ⟨houtcome, ?_⟩
  rcases land_cases hg with ⟨happlied, hlands⟩ | ⟨hrefused, hsame⟩
  · rcases land_cases hb with ⟨-, hlands'⟩ | ⟨hrefused', -⟩
    · obtain ⟨lo, hwindowed⟩ := h.windowed
      obtain ⟨lo', hwindowed'⟩ := h.windowed'
      have hnext' : nextEpoch b.currentEpoch = some op.epoch := h.currentEpoch ▸ hnext
      refine ⟨hcore, fun e he => ?_, ⟨lo, hlands.windowed hwindowed hnext⟩,
        lo', hlands'.windowed hwindowed' hnext'⟩
      rw [hlands.digest_eq hwindowed hnext, hlands'.digest_eq hwindowed' hnext', h.digests e he]
    · rw [← houtcome, happlied] at hrefused'
      cases hrefused'
  · rcases land_cases hb with ⟨happlied', -⟩ | ⟨-, hsame'⟩
    · rw [houtcome, happlied'] at hrefused
      cases hrefused
    · rw [hsame, hsame']
      exact h

/-- The drain loop keeps the groups alike, and keeps the same entries parked. -/
theorem drain_alike :
    ∀ (entries : List (GroupOp × Bytes)) {g b : ChatGroup}, Alike base g b →
      Option.Rel (StillAlike base) (drain env entries g) (drain env entries b)
  | [], g, b, h => Option.Rel.some ⟨rfl, h⟩
  | (op, bytes) :: rest, g, b, h => by
    rw [drain, drain, ← h.currentEpoch]
    split
    · exact drain_alike rest h
    · split
      · rename_i hnext
        split
        · exact (land_alike h hnext).bind fun r s hstill => drain_alike rest hstill.2
        · exact drain_alike rest h
      · exact (drain_alike rest h).map fun r s hstill =>
          ⟨congrArg (bytes :: ·) hstill.1, hstill.2⟩

theorem replay_alike (h : Alike base g b) :
    Option.Rel (Alike base) (replay env g) (replay env b) := by
  rw [replay, replay, ← h.pendingOps]
  refine (drain_alike _ h).map fun r s hstill => ?_
  rw [hstill.1]
  exact hstill.2.withPending s.1

theorem settle_alike {r s : ApplyOutcome × ChatGroup} (h : StillAlike base r s) :
    Option.Rel (StillAlike base) (settle env r) (settle env s) := by
  obtain ⟨outcome, g⟩ := r
  obtain ⟨outcome', b⟩ := s
  obtain ⟨houtcome, halike⟩ := h
  dsimp only at houtcome halike
  subst houtcome
  cases outcome with
  | applied e =>
    exact (replay_alike halike).map fun g' b' halike' => ⟨rfl, halike'⟩
  | queued | rejectedDuplicate | rejectedEquivocation | rejectedSignature | rejectedAuthorization
  | rejectedMalformed | rejectedMemberSetMismatch | rejectedPreJoinHistory =>
    exact Option.Rel.some ⟨rfl, halike⟩

theorem queuePending_alike (h : Alike base g b) (bytes : Bytes) :
    Alike base (g.queuePending bytes) (b.queuePending bytes) := by
  have hqueue : (g.queuePending bytes).pendingOps = (b.queuePending bytes).pendingOps := by
    simp only [queuePending, ← h.pendingOps]
    split
    · exact h.pendingOps
    · split
      · exact h.pendingOps
      · split
        · split
          · exact h.pendingOps
          · rfl
        · rfl
  rw [queuePending_eq g, queuePending_eq b, hqueue]
  exact h.withPending _

/-! ## Calls of two devices -/

/-- `apply` refuses an op of the past epoch `e` for one of these reasons. -/
def RefusedAsPast (e : UInt64) (o : ApplyOutcome) : Prop :=
  o = .rejectedPreJoinHistory e ∨ o = .rejectedEquivocation e ∨ o = .rejectedDuplicate

/-- The outcomes that local users `me` and `me'` see of one op: the same, except
that an op from before one user joined may be refused as that on the one device
and as a duplicate or an equivocation on the other. -/
def SameAnswer (me me' : Option Bytes) (o o' : ApplyOutcome) : Prop :=
  o = o' ∨ me ≠ me' ∧ ∃ e, RefusedAsPast e o ∧ RefusedAsPast e o' ∧
    (o = .rejectedPreJoinHistory e ∨ o' = .rejectedPreJoinHistory e)

theorem applyPast_refused (g : ChatGroup) (op : GroupOp) (d : Bytes) (sx : ApplySideEffects) :
    RefusedAsPast op.epoch (g.applyPast op d sx).1 := by
  rw [applyPast]
  split
  · exact .inl rfl
  · split
    · exact .inr (.inl rfl)
    · exact .inr (.inr rfl)

theorem applyPast_alike (h : Alike base g b) (hbase : base ≤ op.epoch) (d : Bytes) :
    SameAnswer me me' (g.applyPast op d { localIdentityPub := me }).1
      (b.applyPast op d { localIdentityPub := me' }).1 := by
  have hmembers : g.members = b.members := congrArg Core.members h.core
  by_cases hme : me = me'
  · subst hme
    left
    have hjoined : g.localJoinedAt { localIdentityPub := me } =
        b.localJoinedAt { localIdentityPub := me } := by
      rw [localJoinedAt, localJoinedAt, hmembers]
    simp only [applyPast, hjoined, h.digests op.epoch hbase]
    split
    · rfl
    · split <;> rfl
  · by_cases hg : (g.localJoinedAt { localIdentityPub := me }).any fun j => op.epoch < j
    · refine .inr ⟨hme, op.epoch, applyPast_refused .., applyPast_refused .., .inl ?_⟩
      rw [applyPast, if_pos hg]
    · by_cases hb : (b.localJoinedAt { localIdentityPub := me' }).any fun j => op.epoch < j
      · refine .inr ⟨hme, op.epoch, applyPast_refused .., applyPast_refused .., .inr ?_⟩
        rw [applyPast, if_pos hb]
      · left
        rw [applyPast, applyPast, if_neg hg, if_neg hb, h.digests op.epoch hbase]
        split <;> rfl

theorem applyPast_group (g : ChatGroup) (op : GroupOp) (d : Bytes) (sx : ApplySideEffects) :
    (g.applyPast op d sx).2.1 = g := by
  rw [applyPast]
  split
  · rfl
  · split <;> rfl

/-- One call of `apply` on either device, for any op from `base` on. -/
theorem applyStep_alike (h : Alike base g b) (hbase : base ≤ op.epoch) :
    Option.Rel (fun r s => SameAnswer me me' r.1 s.1 ∧ Alike base r.2 s.2)
      (applyStep env me op g) (applyStep env me' op b) := by
  have hid : g.id = b.id := congrArg Core.id h.core
  rw [applyStep, applyStep, ← hid, ← h.currentEpoch]
  split
  · exact Option.Rel.some ⟨.inl rfl, h⟩
  · cases op.encoded with
    | error _ => exact Option.Rel.some ⟨.inl rfl, h⟩
    | ok bytes =>
      dsimp only
      split
      · exact Option.Rel.some ⟨.inl rfl, h⟩
      · cases hnext : nextEpoch g.currentEpoch with
        | none => exact Option.Rel.none
        | some expected =>
          dsimp only
          split
          · refine Option.Rel.some ⟨applyPast_alike h hbase _, ?_⟩
            rw [visible, visible, applyPast_group, applyPast_group]
            exact h
          · rename_i hlt
            split
            · exact Option.Rel.some ⟨.inl rfl, queuePending_alike h bytes⟩
            · rename_i hgt
              have hepoch : op.epoch = expected := by
                rw [UInt64.lt_iff_toNat_lt] at hlt hgt
                exact UInt64.toNat_inj.mp (by omega)
              subst hepoch
              refine (land_alike h hnext).bind fun r s hland => ?_
              exact (settle_alike hland).mono fun r s hstill => ⟨.inl hstill.1, hstill.2⟩

theorem runOps_eq_calls (env : GroupEnv) (me : Option Bytes) :
    ∀ (ops : List GroupOp) (g : ChatGroup),
      runOps env me ops g = Related.calls (applyStep env me) ops g
  | [], _ => rfl
  | op :: ops, g => by
    rw [runOps_cons, Related.calls]
    simp only [runOps_eq_calls env me ops]

/-! ## Groups and their snapshots -/

/-- A group as it can be on a device: made by `create` or from a snapshot, then
changed by `apply`, and by whatever leaves its place in the op chain alone. -/
inductive Descends (env : GroupEnv) : ChatGroup → Prop where
  | fresh {g : ChatGroup} (h : FreshGroup env g) : Descends env g
  | apply {g g' : ChatGroup} {op : GroupOp} {outcome : ApplyOutcome} {sx sx' : ApplySideEffects}
      (hg : Descends env g) (h : ChatGroup.apply env op g sx = some (outcome, g', sx')) :
      Descends env g'
  | edit {g g' : ChatGroup} (hg : Descends env g) (hepoch : g'.currentEpoch = g.currentEpoch)
      (hlast : g'.lastOpDigest = g.lastOpDigest)
      (hdigests : g'.recentOpDigests = g.recentOpDigests) : Descends env g'

/-- A table with the current digest only. -/
theorem windowed_single
    (h : g.recentOpDigests = (∅ : Dict UInt64 Bytes).insert g.currentEpoch g.lastOpDigest) :
    Windowed g.currentEpoch.toNat g := by
  have hdigest : ∀ e, g.digest e =
      if e = g.currentEpoch then some g.lastOpDigest else none := by
    intro e
    rw [digest, h, AList.lookup_insert_of_eq_or_ne, AList.lookup_empty]
  constructor
  · intro e
    rw [hdigest]
    split
    · rename_i he
      rw [he, recentOpDigestsWindow]
      simp
    · rename_i he
      have hne : e.toNat ≠ g.currentEpoch.toNat := fun heq => he (UInt64.toNat_inj.mp heq)
      simp only [Option.isSome_none, Bool.false_eq_true, false_iff]
      omega
  · rw [hdigest, if_pos rfl]

theorem windowed_of_fresh (h : FreshGroup env g) : Windowed g.currentEpoch.toNat g := by
  apply windowed_single
  rcases h with ⟨op, bytes, h⟩ | ⟨snapshot, me, h⟩
  · rw [create] at h
    split at h
    · repeat
        split at h
        · cases h
      cases h
      rfl
    · cases h
  · rw [GroupBootstrap.intoChatGroup] at h
    split at h
    · cases h
    · cases h
      rfl

theorem Windowed.keep {lo : Nat} (h : Windowed lo g) (hepoch : g'.currentEpoch = g.currentEpoch)
    (hlast : g'.lastOpDigest = g.lastOpDigest)
    (hdigests : g'.recentOpDigests = g.recentOpDigests) : Windowed lo g' := by
  have hsame : ∀ e, g'.digest e = g.digest e := fun e => by rw [digest, digest, hdigests]
  constructor
  · intro e
    rw [hsame, hepoch]
    exact h.held e
  · rw [hsame, hepoch, hlast]
    exact h.last

theorem Windowed.withPending {lo : Nat} (h : Windowed lo g) (p : List Bytes) :
    Windowed lo (g.withPending p) := h.keep rfl rfl rfl

/-- A call of `apply` keeps the window. -/
theorem Windowed.apply {lo : Nat} {outcome : ApplyOutcome} {sx sx' : ApplySideEffects}
    (h : Windowed lo g) (happly : ChatGroup.apply env op g sx = some (outcome, g', sx')) :
    Windowed lo g' := by
  have hstep : applyStep env sx.localIdentityPub op g = some (outcome, g') := by
    rw [← apply_applyStep, happly]
    rfl
  obtain ⟨hsame, -⟩ | ⟨bytes, -, -, hqueued⟩ | ⟨bytes, g₁, -, -, -, hnext, hlands, -, hreplay⟩ :=
    applyStep_cases hstep
  · rw [show g' = g from hsame]
    exact h
  · obtain ⟨-, rfl⟩ := Prod.mk.inj hqueued
    rw [queuePending_eq]
    exact h.withPending _
  · obtain ⟨⟨kept, g₂⟩, hdrain, rfl⟩ := Option.map_eq_some_iff.mp hreplay
    have hdrained : Windowed lo g₂ :=
      drain_invariant (Windowed lo) (fun _ hnext hlands hk => hlands.windowed hk hnext) hdrain
        (hlands.windowed h hnext)
    exact hdrained.withPending kept

/-- Every group has the window of digests that `recordDigest` is written for. -/
theorem Descends.windowed (h : Descends env g) : ∃ lo, Windowed lo g := by
  induction h with
  | fresh h => exact ⟨_, windowed_of_fresh h⟩
  | @apply g g' op outcome sx sx' _ h ih =>
    obtain ⟨lo, hwindowed⟩ := ih
    exact ⟨lo, hwindowed.apply h⟩
  | edit _ hepoch hlast hdigests ih =>
    obtain ⟨lo, hwindowed⟩ := ih
    exact ⟨lo, hwindowed.keep hepoch hlast hdigests⟩

end ChatGroup

open ChatGroup

/-- The runs of two devices: the same answers in the sense of `SameAnswer`, one core
in the end, and one digest for every epoch from `base` on. -/
def SameRun (me me' : Option Bytes) (base : UInt64) (r s : List ApplyOutcome × ChatGroup) : Prop :=
  List.Forall₂ (SameAnswer me me') r.1 s.1 ∧ r.2.core = s.2.core ∧
    ∀ e, base ≤ e → r.2.digest e = s.2.digest e

/-- What a signed snapshot and the group made of it have of the original. -/
theorem core_of_snapshot {env : GroupEnv} {session : Session} {operator joiner : Bytes}
    {now : UInt64} {snapshot : GroupBootstrap} {g b : ChatGroup} (hqueue : g.pendingOps = [])
    (hsign : signBootstrap env session g operator now = some (some snapshot))
    (hjoin : snapshot.intoChatGroup joiner = some b) : g.core = b.core := by
  obtain ⟨root, -, hsigned⟩ := Option.map_eq_some_iff.mp hsign
  dsimp only at hsigned
  split at hsigned
  · cases hsigned
  · obtain ⟨sig, -, rfl⟩ := Option.map_eq_some_iff.mp hsigned
    rw [GroupBootstrap.intoChatGroup] at hjoin
    split at hjoin
    · cases hjoin
    · cases hjoin
      exact core_eq_iff.mpr ⟨rfl, rfl, rfl, rfl, rfl, hqueue⟩

/-- The group that a newcomer makes of a snapshot answers like the group the
snapshot was taken from, for every sequence of ops from the snapshot's epoch on:
the runs trap together, or end in the same members, name, place in the chain and
queue after the same answers. Only the reason for refusing an old op may differ,
where one of the two users joined after it (`SameAnswer`). -/
theorem snapshot_simulates {env : GroupEnv} {session : Session} {operator joiner bytes : Bytes}
    {now : UInt64} {snapshot : GroupBootstrap} {g b : ChatGroup} {ops : List GroupOp}
    (me me' : Option Bytes) (hreached : Descends env g) (hqueue : g.pendingOps = [])
    (hsign : signBootstrap env session g operator now = some (some snapshot))
    (hencoded : snapshot.encoded = .ok bytes)
    (hjoin : (GroupBootstrap.decode bytes).bind (·.intoChatGroup joiner) = some b)
    (hops : ∀ op ∈ ops, g.currentEpoch ≤ op.epoch) :
    Option.Rel (SameRun me me' g.currentEpoch) (runOps env me ops g) (runOps env me' ops b) := by
  rw [GroupBootstrap.decode_encoded hencoded, Option.bind_some] at hjoin
  obtain ⟨lo, hwindowed⟩ := hreached.windowed
  have hfresh : FreshGroup env b := .inr ⟨snapshot, joiner, hjoin⟩
  have hwindowed' : Windowed b.currentEpoch.toNat b := windowed_of_fresh hfresh
  have hcore : g.core = b.core := core_of_snapshot hqueue hsign hjoin
  have halike : Alike g.currentEpoch g b := by
    refine ⟨hcore, fun e he => ?_, ⟨lo, hwindowed⟩, _, hwindowed'⟩
    obtain ⟨-, -, -, hepoch, hlast, -⟩ := core_eq_iff.mp hcore
    by_cases hcurrent : e = g.currentEpoch
    · rw [hcurrent, hwindowed.last, hepoch, hwindowed'.last, hlast]
    · -- neither table has an epoch that is still to come
      have hlater : ¬ e.toNat ≤ g.currentEpoch.toNat := fun hle =>
        hcurrent (UInt64.toNat_inj.mp (Nat.le_antisymm hle (UInt64.le_iff_toNat_le.mp he)))
      have hnone : ∀ {k : ChatGroup} {l : Nat}, Windowed l k →
          k.currentEpoch = g.currentEpoch → k.digest e = none := by
        intro k l hk hsame
        rw [← Option.not_isSome_iff_eq_none, hk.held, hsame]
        exact fun h => hlater h.2.1
      rw [hnone hwindowed rfl, hnone hwindowed' hepoch.symm]
  have hstep : ∀ op k l, g.currentEpoch ≤ op.epoch → Alike g.currentEpoch k l →
      Option.Rel (fun r s => SameAnswer me me' r.1 s.1 ∧ Alike g.currentEpoch r.2 s.2)
        (applyStep env me op k) (applyStep env me' op l) :=
    fun _ _ _ hop h => applyStep_alike h hop
  rw [runOps_eq_calls, runOps_eq_calls]
  exact (Related.calls_related hstep ops g b hops halike).mono
    fun r s h => ⟨h.1, h.2.core, h.2.digests⟩

/-- Peer 1's snapshot of the sample group with peer 3. -/
def sampleShipped : Option (Option GroupBootstrap) :=
  signBootstrap sampleEnv (sampleSession (samplePeer 1)) sampleGrown (samplePeer 1) 3

/-- Peer 3 starts from the snapshot; the renaming, delivered twice, ends alike for peers 1 and 3. -/
theorem snapshot_simulates_newcomer :
    ∃ b : ChatGroup, b.members = sampleGrown.members ∧
      Option.Rel (SameRun (some (samplePeer 1)) (some (samplePeer 3)) sampleGrown.currentEpoch)
        (runOps sampleEnv (some (samplePeer 1)) [sampleRename, sampleRename] sampleGrown)
        (runOps sampleEnv (some (samplePeer 3)) [sampleRename, sampleRename] b) := by
  have hfresh : FreshGroup sampleEnv sampleGroup :=
    .inl ⟨sampleCreate [1, 2], (sampleCreate [1, 2]).wire, (Option.some_get _).symm⟩
  obtain ⟨outcome, sx', happly⟩ : ∃ outcome sx',
      ChatGroup.apply sampleEnv sampleAdd sampleGroup {} = some (outcome, sampleGrown, sx') :=
    apply_get _
  have hgrown : Descends sampleEnv sampleGrown := .apply (.fresh hfresh) happly
  obtain ⟨hsome, hid, hlast, hmember, hqueue, hops⟩ : sampleShipped.isSome = true ∧
      sampleGrown.id.length = groupIdSize ∧ sampleGrown.lastOpDigest.length = parentDigestSize ∧
      (sampleGrown.members.any fun m => m.peerId = samplePeer 3) = true ∧
      sampleGrown.pendingOps = [] ∧
      ∀ op ∈ [sampleRename, sampleRename], sampleGrown.currentEpoch ≤ op.epoch := by
    decide +kernel
  obtain ⟨snapshot, hsign⟩ := Option.isSome_iff_exists.mp hsome
  obtain ⟨⟨signed, bytes, rfl, hsigned⟩, -⟩ | ⟨-, hunfit⟩ :=
    signBootstrap_cases (sampleSession_signsFor (samplePeer 1)) hsign hid hlast (by decide)
  · obtain ⟨b, hjoin⟩ : ∃ b, signed.intoChatGroup (samplePeer 3) = some b := by
      rw [GroupBootstrap.intoChatGroup, hsigned.members, if_neg (fun h => h hmember)]
      exact ⟨_, rfl⟩
    have hread : (GroupBootstrap.decode bytes).bind (·.intoChatGroup (samplePeer 3)) = some b := by
      rw [GroupBootstrap.decode_encoded hsigned.encoded]
      exact hjoin
    exact ⟨b, (intoChatGroup_fields hjoin).1.trans hsigned.members,
      snapshot_simulates _ _ hgrown hqueue hsign hsigned.encoded hread hops⟩
  · exact absurd (by decide +kernel) hunfit

end Pizzini.Group
