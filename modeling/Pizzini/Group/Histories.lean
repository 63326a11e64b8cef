import Pizzini.Group.RejectedOps
import Pizzini.Group.RemovedPeers

/-!
# How a group has come about

A device keeps who is in a group, and not how that came about. Here a run keeps the histories
of its groups beside the store: for each group the rows it came with, and what the ops that were
applied since have changed. `GroupHistory.roles` reads off a history who is in, and as what.

Nothing but an applied op changes that, with one exception: the enrolment of the local user makes
the first of its rows active, and a snapshot may bring more rows than one for a peer (`Evolves`).
`Client.Step.moves` says so of every event, so every run of the client has its histories
(`Moves.remembered`), and the members of a group are those that its history says
(`Told.remembers`).
-/

namespace Pizzini.Group

open Wire ChatGroup ChatStore

variable {env : GroupEnv} {amb : Ambient} {s s' : ChatStore} {g g' g'' : ChatGroup} {me : Bytes}
  {session : Session} {frames : List Frame} {op : GroupOp} {sx sx' : ApplySideEffects}
  {arrived : List GroupOp} {groupId peerId : Bytes} {members members' : List GroupMember}

/-! ## Changes -/

/-- A change of who is in a group, and as what. -/
inductive Change where
  | admitted (peerId : Bytes) (role : GroupRole)
  | removed (peerId : Bytes)
  | made (peerId : Bytes) (role : GroupRole)

/-- What an op of the kind changes once it is applied. -/
def GroupOpKind.changes : GroupOpKind → List Change
  | .addMember peerId role _ => [.admitted peerId role]
  | .removeMember peerId => [.removed peerId]
  | .promoteAdmin peerId => [.made peerId .admin]
  | .demoteAdmin peerId => [.made peerId .member]
  | .create .. | .rename _ | .rotateSenderKey _ => []

/-- The roles of a peer after a change. A removal and a new role are for the row that is first. -/
def Change.act (peerId : Bytes) (roles : List GroupRole) : Change → List GroupRole
  | .admitted peer role => if peer = peerId then role :: roles else roles
  | .removed peer => if peer = peerId then roles.tail else roles
  | .made peer role => if peer = peerId then role :: roles.tail else roles

/-- The roles of the rows of a peer that are not removed. -/
def rolesIn (members : List GroupMember) (peerId : Bytes) : List GroupRole :=
  (members.filter fun m => m.peerId = peerId && m.status ≠ .removed).map GroupMember.role

/-- The rows that a group came with, and what has changed since, the oldest change first. -/
structure GroupHistory where
  start : List GroupMember
  changes : List Change

namespace GroupHistory

/-- The roles of a peer, by the history; no role, and the peer is not in the group. -/
def roles (h : GroupHistory) (peerId : Bytes) : List GroupRole :=
  h.changes.foldl (Change.act peerId) (rolesIn h.start peerId)

/-- By the history, the peer may sign an op of the kind. -/
def MaySign (h : GroupHistory) (peerId : Bytes) : GroupOpKind → Prop
  | .rotateSenderKey _ => h.roles peerId ≠ []
  | .create .. => False
  | _ => .admin ∈ h.roles peerId

/-- The history goes on. -/
def more (h : GroupHistory) (changes : List Change) : GroupHistory :=
  { h with changes := h.changes ++ changes }

end GroupHistory

/-! ## Rows and roles -/

theorem hasMember_iff_rolesIn : g.hasMember peerId = true ↔ rolesIn g.members peerId ≠ [] := by
  rw [ChatGroup.hasMember, rolesIn, ne_eq, List.map_eq_nil_iff, List.filter_eq_nil_iff,
    List.any_eq_true]
  push Not
  rfl

theorem hasAdmin_iff_rolesIn :
    g.hasAdmin peerId = true ↔ GroupRole.admin ∈ rolesIn g.members peerId := by
  rw [hasAdmin, rolesIn, List.any_eq_true, List.mem_map]
  refine exists_congr fun m => ?_
  rw [List.mem_filter]
  simp only [Bool.and_eq_true, decide_eq_true_eq]
  tauto

theorem rolesIn_cons (m : GroupMember) (members : List GroupMember) (peerId : Bytes) :
    rolesIn (m :: members) peerId = rolesIn [m] peerId ++ rolesIn members peerId := by
  rw [rolesIn, rolesIn, rolesIn, ← List.map_append, ← List.filter_append, List.singleton_append]

/-- A change of one row that changes nothing for the peer. -/
theorem rolesIn_updateFirst_eq {q : GroupMember → Bool} {f : GroupMember → GroupMember}
    (hf : ∀ m, q m = true → rolesIn [f m] peerId = rolesIn [m] peerId) :
    rolesIn (updateFirst q f members) peerId = rolesIn members peerId := by
  induction members with
  | nil => rfl
  | cons m members ih =>
    rw [updateFirst_cons, rolesIn_cons m]
    split
    · next hm => rw [rolesIn_cons (f m), hf m hm]
    · rw [rolesIn_cons m, ih]

/-- A row of another peer. -/
theorem rolesIn_other {m : GroupMember} (h : m.peerId ≠ peerId) : rolesIn [m] peerId = [] := by
  simp [rolesIn, h]

/-- A row that is not removed. -/
theorem rolesIn_present {m : GroupMember} (h : m.status ≠ .removed) :
    rolesIn [m] peerId = if m.peerId = peerId then [m.role] else [] := by
  rw [rolesIn, List.filter_singleton]
  by_cases heq : m.peerId = peerId
  · simp [heq, h]
  · simp [heq]

/-- A change of the first row of a peer that passes `q`, where the rows that do not pass count for
nothing. -/
theorem rolesIn_updateFirst (peerId : Bytes) {q : GroupMember → Bool}
    {f : GroupMember → GroupMember} {m : GroupMember} (hfind : members.find? q = some m)
    (hrest : ∀ k, q k = false → rolesIn [k] peerId = []) :
    ∃ rest, rolesIn members peerId = rolesIn [m] peerId ++ rest ∧
      rolesIn (updateFirst q f members) peerId = rolesIn [f m] peerId ++ rest := by
  induction members with
  | nil => cases hfind
  | cons k members ih =>
    rw [updateFirst_cons]
    cases hk : q k with
    | true =>
      rw [List.find?_cons_of_pos hk] at hfind
      cases hfind
      exact ⟨rolesIn members peerId, rolesIn_cons .., by rw [if_pos rfl, rolesIn_cons]⟩
    | false =>
      rw [List.find?_cons_of_neg (by rw [hk]; exact Bool.false_ne_true)] at hfind
      obtain ⟨rest, hold, hnew⟩ := ih hfind
      refine ⟨rest, ?_, ?_⟩
      · rw [rolesIn_cons, hrest k hk, List.nil_append, hold]
      · rw [if_neg Bool.false_ne_true, rolesIn_cons, hrest k hk, List.nil_append, hnew]

/-- The first row of a peer is changed, and is the peer's still; `rest` are its other rows. -/
theorem rolesIn_firstRow (peerId : Bytes) {peer : Bytes} {f : GroupMember → GroupMember}
    {m : GroupMember} (hfind : members.find? (fun k => k.peerId = peer) = some m)
    (hpeer : ∀ k, k.peerId = peer → (f k).peerId = peer) :
    ∃ rest, (peer = peerId → rolesIn members peerId = rolesIn [m] peerId ++ rest) ∧
      rolesIn (updateFirst (fun k => k.peerId = peer) f members) peerId =
        if peer = peerId then rolesIn [f m] peerId ++ rest else rolesIn members peerId := by
  by_cases heq : peer = peerId
  · subst heq
    obtain ⟨rest, hold, hnew⟩ := rolesIn_updateFirst peer (f := f) hfind
      fun k hk => rolesIn_other (of_decide_eq_false hk)
    exact ⟨rest, fun _ => hold, by rw [if_pos rfl, hnew]⟩
  · refine ⟨[], fun h => absurd h heq, ?_⟩
    rw [if_neg heq]
    refine rolesIn_updateFirst_eq fun k hk => ?_
    have hk := of_decide_eq_true hk
    rw [rolesIn_other (by rw [hpeer k hk]; exact heq), rolesIn_other (hk ▸ heq)]

/-- The first row of a peer that is not removed is changed, and is the peer's still. -/
theorem rolesIn_changed (peerId : Bytes) {f : GroupMember → GroupMember}
    (hpeer : ∀ m, (f m).peerId = m.peerId)
    {peer : Bytes} (hpresent : g.hasMember peer = true) :
    ∃ m, m.peerId = peer ∧ m.status ≠ .removed ∧
      rolesIn (updateFirst (fun m => m.peerId = peer && m.status ≠ .removed) f g.members) peerId =
        if peer = peerId then rolesIn [f m] peerId ++ (rolesIn g.members peerId).tail
        else rolesIn g.members peerId := by
  obtain ⟨k, hk, hrow⟩ := List.any_eq_true.mp hpresent
  obtain ⟨m, hfind⟩ : ∃ m, g.members.find? (fun m => m.peerId = peer && m.status ≠ .removed) =
      some m := by
    rw [← Option.isSome_iff_exists, List.find?_isSome]
    exact ⟨k, hk, hrow⟩
  have hm := List.find?_some hfind
  rw [Bool.and_eq_true, decide_eq_true_eq, decide_eq_true_eq] at hm
  refine ⟨m, hm.1, hm.2, ?_⟩
  by_cases heq : peer = peerId
  · subst heq
    obtain ⟨rest, hold, hnew⟩ := rolesIn_updateFirst peer (f := f) hfind
      (fun k hk => by rw [rolesIn, List.filter_singleton, hk]; rfl)
    have hone : rolesIn [m] peer = [m.role] := by simp [rolesIn, hm]
    rw [if_pos rfl, hnew, hold, hone]
    rfl
  · rw [if_neg heq]
    refine rolesIn_updateFirst_eq fun k hk => ?_
    rw [Bool.and_eq_true, decide_eq_true_eq] at hk
    rw [rolesIn_other (by rw [hpeer, hk.1]; exact heq), rolesIn_other (hk.1 ▸ heq)]

/-- What an op that goes through changes. -/
theorem ChatGroup.Effect.roles (h : Effect op g g') (peerId : Bytes) :
    rolesIn g'.members peerId = op.kind.changes.foldl (Change.act peerId)
      (rolesIn g.members peerId) := by
  cases h with
  | @readd peer role name old kind size found removed cap =>
    rw [kind]
    obtain ⟨rest, hold, hnew⟩ := rolesIn_firstRow peerId
      (f := fun _ => ⟨peer, name, role, op.epoch, .pendingSKDM, some op.operatorIdentity⟩) found
      fun _ _ => rfl
    refine hnew.trans ?_
    by_cases heq : peer = peerId
    · -- the removed row counts for nothing
      have hgone : rolesIn [old] peerId = [] := by simp [rolesIn, removed]
      rw [if_pos heq, hold heq, hgone]
      simp [rolesIn, GroupOpKind.changes, Change.act, heq]
    · simp [GroupOpKind.changes, Change.act, heq]
  | @add peer role name kind size absent cap =>
    rw [kind]
    have hsplit : rolesIn (g.members ++ [⟨peer, name, role, op.epoch, .pendingSKDM,
        some op.operatorIdentity⟩]) peerId = rolesIn g.members peerId ++
          if peer = peerId then [role] else [] := by
      rw [rolesIn, List.filter_append, List.map_append, List.filter_singleton]
      by_cases heq : peer = peerId
      · simp [heq, rolesIn]
      · simp [heq, rolesIn]
    rw [hsplit]
    by_cases heq : peer = peerId
    · subst heq
      have hnone : rolesIn g.members peer = [] := by
        rw [rolesIn, List.map_eq_nil_iff, List.filter_eq_nil_iff]
        intro m hm
        have hne := List.find?_eq_none.mp absent m hm
        rw [decide_eq_true_eq] at hne
        simp [hne]
      rw [hnone]
      simp [GroupOpKind.changes, Change.act]
    · simp [GroupOpKind.changes, Change.act, heq]
  | @remove peer kind present spare =>
    rw [kind]
    obtain ⟨m, -, -, hroles⟩ := rolesIn_changed peerId
      (f := fun m => { m with status := .removed }) (fun _ => rfl) present
    refine hroles.trans ?_
    simp [rolesIn, GroupOpKind.changes, Change.act]
  | rename kind =>
    rw [kind]
    rfl
  | @promote peer kind present =>
    rw [kind]
    obtain ⟨m, hpeer, hstatus, hroles⟩ := rolesIn_changed peerId
      (f := fun m => { m with role := .admin }) (fun _ => rfl) present
    refine hroles.trans ?_
    by_cases heq : peer = peerId
    · simp [rolesIn, GroupOpKind.changes, Change.act, heq, hpeer, hstatus]
    · simp [GroupOpKind.changes, Change.act, heq]
  | @demote peer kind present spare =>
    rw [kind]
    obtain ⟨m, hpeer, hstatus, hroles⟩ := rolesIn_changed peerId
      (f := fun m => { m with role := .member }) (fun _ => rfl) present
    refine hroles.trans ?_
    by_cases heq : peer = peerId
    · simp [rolesIn, GroupOpKind.changes, Change.act, heq, hpeer, hstatus]
    · simp [GroupOpKind.changes, Change.act, heq]
  | rotate kind =>
    rw [kind]
    obtain ⟨prev, hset⟩ := setMemberDistId_eq g ‹UUID› op.operatorIdentity
    rw [hset]
    rfl

/-- The order of the rows is of no account where nobody has two. -/
theorem rolesIn_perm (hperm : members.Perm members')
    (hnodup : (members'.map GroupMember.peerId).Nodup) :
    rolesIn members peerId = rolesIn members' peerId := by
  have hrows := hperm.filter fun m => m.peerId = peerId && m.status ≠ .removed
  have hone : ((members'.filter fun m => m.peerId = peerId && m.status ≠ .removed).map
      GroupMember.peerId).Nodup := hnodup.sublist (List.filter_sublist.map _)
  have hpeer : ∀ m ∈ members'.filter (fun m => m.peerId = peerId && m.status ≠ .removed),
      m.peerId = peerId := by
    intro m hm
    have hrow := (List.mem_filter.mp hm).2
    rw [Bool.and_eq_true, decide_eq_true_eq] at hrow
    exact hrow.1
  rw [rolesIn, rolesIn]
  generalize members'.filter (fun m => m.peerId = peerId && m.status ≠ .removed) = rows at *
  match rows with
  | [] => rw [hrows.eq_nil]
  | [m] => rw [List.perm_singleton.mp hrows]
  | m :: k :: rest =>
    rw [List.map_cons, List.map_cons, List.nodup_cons] at hone
    refine absurd (List.mem_cons.mpr (.inl ?_)) hone.1
    rw [hpeer m List.mem_cons_self, hpeer k (List.mem_cons_of_mem _ List.mem_cons_self)]

/-! ## How a group goes on -/

/-- The group `g` has become `g'`, and `changes` are those of the ops that were applied. -/
inductive Evolves (env : GroupEnv) : ChatGroup → List Change → ChatGroup → Prop where
  /-- Nobody's roles have changed. -/
  | kept {g g' : ChatGroup}
    (hroles : ∀ peerId, rolesIn g'.members peerId = rolesIn g.members peerId) : Evolves env g [] g'
  | applied {op : GroupOp} {g g' : ChatGroup} {sx sx' : ApplySideEffects}
    (happlies : Applies env op g sx g' sx') : Evolves env g op.kind.changes g'
  /-- The enrolment of the local user `me` has made a removed row active: the first of several. -/
  | enrolled {g g' : ChatGroup} {me : Bytes} {m : GroupMember}
    (hfirst : g.members.find? (fun m => m.peerId = me) = some m) (hremoved : m.status = .removed)
    (hmembers : g'.members = updateFirst (fun m => m.peerId = me)
      (fun m => { m with status := .active }) g.members) : Evolves env g [.admitted me m.role] g'
  | trans {g g' g'' : ChatGroup} {changes changes' : List Change} (h : Evolves env g changes g')
    (h' : Evolves env g' changes' g'') : Evolves env g (changes ++ changes') g''

namespace Evolves

variable {changes : List Change}

theorem of_members (hmembers : g'.members = g.members) : Evolves env g [] g' :=
  .kept fun _ => by rw [hmembers]

/-- A later change of anything but the members. -/
theorem then_members (h : Evolves env g changes g') (hmembers : g''.members = g'.members) :
    Evolves env g changes g'' := by
  have hboth := h.trans (of_members hmembers)
  rwa [List.append_nil] at hboth

/-- The roles after are those that the changes make of the roles before. -/
theorem roles (h : Evolves env g changes g') (peerId : Bytes) :
    rolesIn g'.members peerId = changes.foldl (Change.act peerId) (rolesIn g.members peerId) := by
  induction h with
  | kept hroles => exact hroles peerId
  | applied happlies =>
    obtain ⟨g₁, opDigest, hexec, rfl⟩ := happlies.mutated
    exact (mutate_effect (mutate_of_executeMutation hexec)).roles peerId
  | @enrolled g g' me m hfirst hremoved hmembers =>
    obtain ⟨rest, hold, hnew⟩ := rolesIn_firstRow peerId
      (f := fun m => { m with status := .active }) hfirst fun _ hk => hk
    rw [hmembers, hnew]
    by_cases heq : me = peerId
    · have hpeer : m.peerId = me := by simpa using List.find?_some hfirst
      have hgone : rolesIn [m] peerId = [] := by simp [rolesIn, hremoved]
      rw [if_pos heq, hold heq, hgone]
      simp [rolesIn, Change.act, hpeer, heq]
    · simp [Change.act, heq]
  | trans _ _ ih ih' => rw [List.foldl_append, ← ih, ih']

end Evolves

theorem AppliedRun.evolves {ops : List GroupOp} {t t' : ChatGroup × Triggers}
    (h : AppliedRun env ops t t') : ∃ changes, Evolves env t.1 changes t'.1 := by
  induction h with
  | nil t => exact ⟨[], .of_members rfl⟩
  | cons happlies _ ih =>
    obtain ⟨changes, hrest⟩ := ih
    exact ⟨_, (Evolves.applied happlies).trans hrest⟩

/-- Whatever `apply` answers. -/
theorem apply_evolves {outcome : ApplyOutcome}
    (h : g.apply env op sx = some (outcome, g', sx')) : ∃ changes, Evolves env g changes g' := by
  have hleaves := apply_leaves h
  cases outcome with
  | applied =>
    obtain ⟨-, -, _, g₁, kept, -, hrun, -, rfl⟩ := hleaves
    obtain ⟨changes, hevolves⟩ := hrun.evolves
    exact ⟨changes, hevolves.then_members rfl⟩
  | queued =>
    obtain ⟨-, rfl | ⟨bytes, -, rfl⟩⟩ := hleaves
    · exact ⟨[], .of_members rfl⟩
    · exact ⟨[], .of_members rfl⟩
  | rejectedDuplicate | rejectedEquivocation | rejectedSignature | rejectedAuthorization
  | rejectedMalformed | rejectedMemberSetMismatch | rejectedPreJoinHistory =>
    obtain ⟨rfl, -⟩ := hleaves
    exact ⟨[], .of_members rfl⟩

/-- The first row of the local user is made active. -/
theorem activated_evolves (hmembers : g'.members = updateFirst (fun m => m.peerId = me)
      (fun m => { m with status := .active }) g.members) :
    ∃ changes, Evolves env g changes g' := by
  cases hfirst : g.members.find? fun m => m.peerId = me with
  | none =>
    refine ⟨[], .kept fun peerId => ?_⟩
    rw [hmembers]
    refine congrArg (rolesIn · peerId) ?_
    generalize g.members = members at hfirst
    induction members with
    | nil => rfl
    | cons m members ih =>
      rw [List.find?_cons] at hfirst
      split at hfirst
      · cases hfirst
      · next hm => rw [updateFirst_cons, if_neg (by rw [hm]; exact Bool.false_ne_true), ih hfirst]
  | some m =>
    by_cases hremoved : m.status = .removed
    · exact ⟨_, .enrolled hfirst hremoved hmembers⟩
    · -- the row was in the group before
      refine ⟨[], .kept fun peerId => ?_⟩
      obtain ⟨rest, hold, hnew⟩ := rolesIn_firstRow peerId
        (f := fun m => { m with status := .active }) hfirst fun _ hk => hk
      rw [hmembers, hnew]
      split
      · next heq =>
        have hactive : MemberStatus.active ≠ .removed := by decide
        rw [hold heq, rolesIn_present hremoved]
        exact congrArg (· ++ rest) (rolesIn_present hactive)
      · rfl

/-- A member's key makes its row active, if the row waited for it. -/
theorem keyed_evolves (g : ChatGroup) (dist : UUID) (sender : Bytes) :
    Evolves env g [] (g.keyed dist sender) := by
  refine .kept fun peerId => ?_
  obtain ⟨previous, heq⟩ := setMemberDistId_eq g dist sender
  rw [keyed, flipActive, heq]
  refine rolesIn_updateFirst_eq fun m hm => ?_
  rw [Bool.and_eq_true, decide_eq_true_eq, decide_eq_true_eq] at hm
  have hwaits : m.status ≠ .removed := by
    rw [hm.2]
    decide
  rw [rolesIn_present hwaits]
  have hactive : MemberStatus.active ≠ .removed := by decide
  exact rolesIn_present hactive

/-- The local user's own key. -/
theorem enrol_evolves (env : GroupEnv) (amb : Ambient) (session : Session)
    (hcard : s.myCard = some me) (g : ChatGroup) :
    (s.enrolMyChainOnFirstJoin amb session g).1.id = g.id ∧
      ∃ changes, Evolves env g changes (s.enrolMyChainOnFirstJoin amb session g).1 := by
  rw [enrolMyChainOnFirstJoin, hcard]
  split
  · split
    · exact ⟨rfl, [], .of_members rfl⟩
    · next hme _ _ skdm _ =>
      cases hme
      have hships := (shipKey_keeps s skdm (fun _ => []) (others (g.enrolled amb me) me)
        (g.enrolled amb me)).1
      have hactive : ∃ changes, Evolves env g changes (g.enrolled amb me) := activated_evolves rfl
      obtain ⟨changes, hevolves⟩ := hactive
      exact ⟨hships.id, changes, hevolves.then_members hships.members⟩
  · exact ⟨rfl, [], .of_members rfl⟩

/-! ## One call -/

/-- Writing a group that is as it was. -/
theorem setGroup_self (hfind : s.findGroup groupId = some g) : s.setGroup g = s := by
  have hsame : setFirst g s.groups = s.groups := by
    have hfound : s.groups.find? (fun k => k.id = groupId) = some g := hfind
    have hid := findGroup_id hfind
    generalize s.groups = groups at hfound
    induction groups with
    | nil => rfl
    | cons k groups ih =>
      rw [setFirst]
      by_cases hk : k.id = groupId
      · rw [List.find?_cons_of_pos (by simpa using hk)] at hfound
        cases hfound
        rw [if_pos rfl]
      · rw [List.find?_cons_of_neg (by simpa using hk)] at hfound
        rw [if_neg (hid ▸ hk), ih hfound]
  rw [setGroup, hsame]

/-- `g` is written, as something that it has become. -/
def Rewrites (env : GroupEnv) (s : ChatStore) (g : ChatGroup) (s' : ChatStore) : Prop :=
  ∃ g' changes, s' = s.setGroup g' ∧ g'.id = g.id ∧ Evolves env g changes g'

/-- A second write of the group. -/
theorem Rewrites.after {changes : List Change} (hid : g'.id = g.id)
    (hevolves : Evolves env g changes g') (h : Rewrites env (s.setGroup g') g' s') :
    Rewrites env s g s' := by
  obtain ⟨g'', changes', rfl, hid', hevolves'⟩ := h
  exact ⟨g'', _, setGroup_setGroup hid', hid'.trans hid, hevolves.trans hevolves'⟩

theorem rotate_rewrites (hfind : s.findGroup groupId = some g)
    (h : rotateMyGroupChain env amb groupId s = some (s', frames)) : Rewrites env s g s' := by
  have hsame : Rewrites env s g s := ⟨g, [], (setGroup_self hfind).symm, rfl, .of_members rfl⟩
  rw [rotateMyGroupChain, hfind] at h
  split at h
  · next session me g₁ _ _ hg₁ =>
    cases hg₁
    split at h
    · cases h
      exact hsame
    split at h
    · cases h
      exact hsame
    split at h
    · cases h
    · cases h
      exact hsame
    next op hsign =>
    split at h
    · cases h
    · next happly =>
      obtain ⟨changes, hevolves⟩ := apply_evolves happly
      have hid := apply_id happly
      dsimp only at h
      split at h
      · cases h
        exact ⟨_, changes, rfl, hid, hevolves.then_members rfl⟩
      · cases h
        have hships := shipKey_keeps s
        exact ⟨_, changes, rfl, (hships _ _ _ _).1.id.trans hid,
          hevolves.then_members (hships _ _ _ _).1.members⟩
    · next happly =>
      cases h
      obtain ⟨changes, hevolves⟩ := apply_evolves happly
      exact ⟨_, changes, rfl, apply_id happly, hevolves⟩
  · cases h
    exact hsame

/-- The hooks work on the group that was just written. -/
theorem hooks_rewrites (hcard : s.myCard = some me) (hfind : s.findGroup g.id = some g)
    (h : applyPostMutationSideEffects env amb session g sx s = some (s', frames)) :
    Rewrites env s g s' := by
  have hid : (g.hooked amb me sx).id = g.id := by
    rw [hooked]
    split <;> rfl
  have hmembers : (g.hooked amb me sx).members = g.members := by
    rw [hooked]
    split <;> rfl
  obtain ⟨-, rfl, -⟩ | ⟨-, -, ⟨-, hrotate⟩ | ⟨-, r, hr, rfl, -⟩⟩ := hooks_cases hcard h
  · exact ⟨_, [], rfl, hid, .of_members hmembers⟩
  · exact .after hid (.of_members hmembers)
      (rotate_rewrites (findGroup_setGroup hfind hid) hrotate)
  · have hkeeps := ((ensureMySKDM_keeps s session (g.hooked amb me sx)).1.trans
      (surfaceUnverified_keeps s sx.newActiveMembers _))
    rw [hr] at hkeeps
    exact ⟨_, [], rfl, hkeeps.id.trans hid, .of_members (hkeeps.members.trans hmembers)⟩

/-- What an event does to the groups: one comes, or those that are kept go on. -/
inductive Moves (env : GroupEnv) (groups : List ChatGroup) : List ChatGroup → Prop where
  | went {kept groups' : List ChatGroup} (hkept : kept.Subperm groups)
    (hpairs : List.Forall₂ (fun g g' => ∃ changes, Evolves env g changes g') kept groups') :
    Moves env groups groups'
  | came (g : ChatGroup) : Moves env groups (groups ++ [g])

theorem Moves.of_subperm {groups groups' : List ChatGroup} (h : groups'.Subperm groups) :
    Moves env groups groups' :=
  .went h (List.forall₂_same.mpr fun _ _ => ⟨[], .of_members rfl⟩)

theorem Moves.refl (groups : List ChatGroup) : Moves env groups groups :=
  .of_subperm (List.Subperm.refl _)

theorem Rewrites.moves (hfind : s.findGroup groupId = some g) (h : Rewrites env s g s') :
    Moves env s.groups s'.groups := by
  obtain ⟨g', changes, rfl, hid, hevolves⟩ := h
  refine .went (List.Subperm.refl _) ?_
  have hfound : s.groups.find? (fun k => k.id = groupId) = some g := hfind
  have hg := findGroup_id hfind
  show List.Forall₂ _ s.groups (setFirst g' s.groups)
  generalize s.groups = groups at hfound
  have hsame : ∀ k : ChatGroup, ∃ changes, Evolves env k changes k := fun _ => ⟨[], .of_members rfl⟩
  induction groups with
  | nil => cases hfound
  | cons k groups ih =>
    rw [setFirst]
    by_cases hk : k.id = groupId
    · rw [List.find?_cons_of_pos (by simpa using hk)] at hfound
      cases hfound
      rw [if_pos hid.symm]
      exact .cons ⟨changes, hevolves⟩ (List.forall₂_same.mpr fun k _ => hsame k)
    · rw [List.find?_cons_of_neg (by simpa using hk)] at hfound
      rw [if_neg (by rw [hid, hg]; exact hk)]
      exact .cons (hsame k) (ih hfound)

/-- What is left of the groups after a rotation and a removal. -/
theorem Rewrites.removeGroup_subperm (hfind : s.findGroup groupId = some g)
    (h : Rewrites env s g s') : (s'.removeGroup groupId).groups.Subperm s.groups := by
  obtain ⟨g', changes, rfl, hid, -⟩ := h
  have hdropped : ((s.setGroup g').removeGroup groupId).groups =
      s.groups.eraseP fun k => k.id = groupId := by
    rw [← hid.trans (findGroup_id hfind)]
    exact eraseP_setFirst s.groups g'
  rw [hdropped]
  exact List.eraseP_sublist.subperm

/-- A rotation, and a row of the group. -/
theorem rotated_moves {s'' : ChatStore}
    (hrotate : rotateMyGroupChain env amb groupId s = some (s', frames))
    (hrow : s'' = s' ∨ ∃ g text, s'.findGroup groupId = some g ∧
      s'' = s'.setGroup (g.appendSystem text)) : Moves env s.groups s''.groups := by
  have hshown : ∀ {t : ChatStore} {g : ChatGroup} (text : String), t.findGroup groupId = some g →
      Rewrites env t g (t.setGroup (g.appendSystem text)) :=
    fun text _ => ⟨_, [], rfl, rfl, .of_members rfl⟩
  rcases rotateMyGroupChain_idle hrotate with ⟨rfl, -⟩ | ⟨_, _, g, -, -, hfind, -⟩
  · rcases hrow with rfl | ⟨k, text, hk, rfl⟩
    · exact .refl _
    · exact (hshown text hk).moves hk
  · have hrewrites := rotate_rewrites hfind hrotate
    rcases hrow with rfl | ⟨k, text, hk, rfl⟩
    · exact hrewrites.moves hfind
    · obtain ⟨g', changes, rfl, hid, hevolves⟩ := hrewrites
      rw [findGroup_setGroup hfind (hid.trans (findGroup_id hfind))] at hk
      cases hk
      exact Rewrites.moves hfind (.after hid hevolves
        (hshown text (findGroup_setGroup hfind (hid.trans (findGroup_id hfind)))))

/-- One case for each way in which a call goes. -/
theorem Does.moves (hcard : s.myCard = some me) (h : Does env amb me arrived s s' frames) :
    Moves env s.groups s'.groups := by
  cases h with
  | nothing => exact .refl _
  | row text hfind => exact Rewrites.moves hfind ⟨_, [], rfl, rfl, .of_members rfl⟩
  | refused log hfind happly =>
    obtain ⟨changes, hevolves⟩ := apply_evolves happly
    have hid := apply_id happly
    exact Rewrites.moves hfind ⟨_, changes, rfl, hid, hevolves.then_members rfl⟩
  | @hooked _ g g' _ _ _ _ _ _ _ _ hfind happly _ _ hhooks =>
    obtain ⟨changes, hevolves⟩ := apply_evolves happly
    have hid := apply_id happly
    have hwritten : (s.setGroup g').findGroup g'.id = some g' := by
      rw [hid, findGroup_id hfind]
      exact findGroup_setGroup hfind (hid.trans (findGroup_id hfind))
    exact Rewrites.moves hfind (.after hid hevolves (hooks_rewrites hcard hwritten hhooks))
  | @keyArrived _ sender g dist _ _ _ _ hfind hhooks =>
    have hid : (g.keyed dist sender).id = g.id := (keyed_flags me g dist sender).id
    have hwritten : (s.setGroup (g.keyed dist sender)).findGroup (g.keyed dist sender).id =
        some (g.keyed dist sender) := by
      rw [hid, findGroup_id hfind]
      exact findGroup_setGroup hfind (hid.trans (findGroup_id hfind))
    exact Rewrites.moves hfind (.after hid (keyed_evolves g dist sender)
      (hooks_rewrites hcard hwritten hhooks))
  | rotated _ hrotate hrow => exact rotated_moves hrotate hrow
  | @left groupId _ _ hrotate =>
    rcases rotateMyGroupChain_idle hrotate with ⟨rfl, -⟩ | ⟨_, _, g, -, -, hfind, -⟩
    · exact .of_subperm List.eraseP_sublist.subperm
    · exact .of_subperm ((rotate_rewrites hfind hrotate).removeGroup_subperm hfind)
  | removed groupId => exact .of_subperm List.eraseP_sublist.subperm
  | @resent _ g _ _ skdm _ hfind =>
    have hkeeps := (shipKey_keeps s skdm (fun _ => []) (others g me)
      { g with mySkdmRecipients := ∅ }).1
    exact Rewrites.moves hfind ⟨_, [], rfl, hkeeps.id, .of_members hkeeps.members⟩
  | @accepted _ g session _ hfind =>
    obtain ⟨hid, changes, hevolves⟩ :=
      enrol_evolves env amb session hcard { g with pendingInvitation := false }
    have hopened : Evolves env g [] { g with pendingInvitation := false } := .of_members rfl
    exact Rewrites.moves hfind ⟨_, _, rfl, hid, hopened.trans hevolves⟩
  | created => exact .came _
  | joined => exact .came _

/-! ## One event -/

/-- A row of a group that comes back from the disk. Only a group without doubled rows was stored. -/
theorem fromDisk_evolves (h : FromDisk g g') : Evolves env g [] g' := by
  have hperm := (fromDisk_fields h).2.1
  have hnodup : (g.members.map GroupMember.peerId).Nodup := by
    obtain ⟨db, db', _, -, hupsert, -⟩ := h
    rw [upsertGroup, replaceGroupMembers] at hupsert
    split at hupsert
    · assumption
    · cases hupsert
  refine .kept fun peerId => ?_
  have hstored : rolesIn (g.members.map GroupMember.stored) peerId = rolesIn g.members peerId := by
    rw [rolesIn, List.filter_map, List.map_map]
    rfl
  rw [← hstored]
  exact rolesIn_perm hperm (by rw [List.map_map]; exact hnodup)

theorem Bookkept.evolves (h : Bookkept g g') : Evolves env g [] g' := by
  obtain ⟨log, count, rfl⟩ := h
  exact .of_members rfl

/-- What an event does to the groups. -/
theorem Client.Step.moves {c c' : Client} {e : Event} (hcard : c.store.myCard = some me)
    (h : c.Step env e c') : Moves env c.store.groups c'.store.groups := by
  cases e with
  | call amb call =>
    obtain ⟨s', frames, hperform, rfl⟩ := h
    by_cases hanswered : call.Answered c.store
    · exact (perform_does hcard hanswered hperform).moves hcard
    · cases call with
      | rotateMyGroupChain groupId => exact rotated_moves hperform (.inl rfl)
      | _ => exact absurd trivial hanswered
  | bookkeeping groups =>
    obtain ⟨hpairs, rfl⟩ := h
    exact .went (List.Subperm.refl _) (hpairs.imp fun _ _ hkept => ⟨[], hkept.evolves⟩)
  | relaunch groups =>
    obtain ⟨⟨kept, hkept, hpairs⟩, rfl⟩ := h
    exact .went hkept (hpairs.imp fun _ _ hdisk => ⟨[], fromDisk_evolves hdisk⟩)
  | surroundings =>
    cases h
    exact .refl _

/-! ## Histories along a run -/

/-- A group with its history, and the two later on. -/
def GoesOn (env : GroupEnv) (x y : ChatGroup × GroupHistory) : Prop :=
  ∃ changes, Evolves env x.1 changes y.1 ∧ y.2 = x.2.more changes

/-- The histories after an event: that of a group that comes is empty, the others go on. -/
inductive Remembers (env : GroupEnv) (past : List (ChatGroup × GroupHistory)) :
    List (ChatGroup × GroupHistory) → Prop where
  | went {kept past' : List (ChatGroup × GroupHistory)} (hkept : kept.Subperm past)
    (hpairs : List.Forall₂ (GoesOn env) kept past') : Remembers env past past'
  | came (g : ChatGroup) : Remembers env past (past ++ [(g, ⟨g.members, []⟩)])

/-- The groups have the members that their histories say. -/
def Told (past : List (ChatGroup × GroupHistory)) : Prop :=
  ∀ x ∈ past, ∀ peerId, x.2.roles peerId = rolesIn x.1.members peerId

variable {past past' : List (ChatGroup × GroupHistory)} {history : GroupHistory}

theorem Told.remembers (htold : Told past) (h : Remembers env past past') : Told past' := by
  cases h with
  | @went kept _ hkept hpairs =>
    replace htold : Told kept := fun x hx => htold x (hkept.subset hx)
    clear hkept
    induction hpairs with
    | nil => exact htold
    | @cons x y _ _ hgoes _ ih =>
      intro z hz peerId
      rcases List.mem_cons.mp hz with rfl | hz
      · obtain ⟨changes, hevolves, heq⟩ := hgoes
        rw [heq, hevolves.roles, ← htold x List.mem_cons_self]
        exact List.foldl_append
      · exact ih (fun x hx => htold x (List.mem_cons_of_mem _ hx)) z hz peerId
  | came g =>
    intro x hx peerId
    rcases List.mem_append.mp hx with hx | hx
    · exact htold x hx peerId
    · cases List.mem_singleton.mp hx
      rfl

/-- The histories of the groups that are left. -/
theorem exists_subperm_of_map {kept : List ChatGroup} (h : kept.Subperm (past.map Prod.fst)) :
    ∃ past' : List (ChatGroup × GroupHistory), past'.Subperm past ∧ past'.map Prod.fst = kept := by
  obtain ⟨sub, hperm, hsub⟩ := h
  obtain ⟨past₁, hpast₁, rfl⟩ := List.sublist_map_iff.mp hsub
  have hpairs : List.Forall₂ (fun g x => g = x.1) (past₁.map Prod.fst) past₁ :=
    List.forall₂_map_left_iff.mpr (List.forall₂_same.mpr fun _ _ => rfl)
  obtain ⟨past₂, hpairs₂, hperm₂⟩ := List.perm_comp_forall₂ hperm.symm hpairs
  have heq : List.Forall₂ Eq kept (past₂.map Prod.fst) := List.forall₂_map_right_iff.mpr hpairs₂
  exact ⟨past₂, ⟨past₁, hperm₂.symm, hpast₁⟩, (List.forall₂_eq_eq_eq ▸ heq).symm⟩

/-- The histories of groups that go on, go on. -/
theorem exists_goesOn {groups' : List ChatGroup}
    (h : List.Forall₂ (fun g g' => ∃ changes, Evolves env g changes g') (past.map Prod.fst)
      groups') : ∃ past' : List (ChatGroup × GroupHistory),
        List.Forall₂ (GoesOn env) past past' ∧ past'.map Prod.fst = groups' := by
  induction past generalizing groups' with
  | nil =>
    cases h
    exact ⟨[], .nil, rfl⟩
  | cons x past ih =>
    cases h with
    | @cons _ g' _ _ hfirst hrest =>
      obtain ⟨changes, hevolves⟩ := hfirst
      obtain ⟨past', hpairs, rfl⟩ := ih hrest
      exact ⟨(g', x.2.more changes) :: past', .cons ⟨changes, hevolves, rfl⟩ hpairs, rfl⟩

/-- Whatever the groups do, the histories can be kept. -/
theorem Moves.remembered {groups' : List ChatGroup} (h : Moves env (past.map Prod.fst) groups') :
    ∃ past', Remembers env past past' ∧ past'.map Prod.fst = groups' := by
  cases h with
  | went hkept hpairs =>
    obtain ⟨kept, hsub, rfl⟩ := exists_subperm_of_map hkept
    obtain ⟨past', hgoes, rfl⟩ := exists_goesOn hpairs
    exact ⟨past', .went hsub hgoes, rfl⟩
  | came g => exact ⟨_, .came g, by simp⟩

theorem Told.isAuthorised_iff (htold : Told past) (hpast : (g, history) ∈ past)
    {kind : GroupOpKind} : g.isAuthorised peerId kind = true ↔ history.MaySign peerId kind := by
  have hroles : history.roles peerId = rolesIn g.members peerId := htold _ hpast peerId
  cases kind with
  | create => exact ⟨nofun, nofun⟩
  | rotateSenderKey =>
    show g.hasMember peerId = true ↔ history.roles peerId ≠ []
    rw [hroles]
    exact hasMember_iff_rolesIn
  | addMember | removeMember | rename | promoteAdmin | demoteAdmin =>
    show g.hasAdmin peerId = true ↔ GroupRole.admin ∈ history.roles peerId
    rw [hroles]
    exact hasAdmin_iff_rolesIn

end Pizzini.Group
