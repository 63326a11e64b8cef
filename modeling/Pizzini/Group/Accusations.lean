import Pizzini.Group.Codecs
import Pizzini.Group.Histories

/-!
# Whom an integrity warning accuses

`handleGroupOp` writes a warning into the group's log when `apply` answers that the
op was signed twice for one epoch, or that it was signed for another member set.
The second answer comes after the check of the operator. The first comes before
it: whoever signs an op for an epoch that is taken, or for the next one with
another parent, is reported, a member or not.

So a warning is right as long as the ops in conflict come from peers that were
admitted to the group and have not been removed or demoted by the ops applied
since. `warnings_accuse_members` has that condition on the histories of the groups
and derives the standing of the accused from it.
-/

namespace Pizzini.Group

open Wire ChatGroup ChatStore

/-! ## Verdicts -/

/-- The two outcomes that put an integrity warning into the log. -/
def ApplyOutcome.Warns : ApplyOutcome → Prop
  | .rejectedEquivocation _ => True
  | .rejectedMemberSetMismatch _ _ => True
  | _ => False

instance : DecidablePred ApplyOutcome.Warns := fun outcome =>
  match outcome with
  | .rejectedEquivocation _ | .rejectedMemberSetMismatch _ _ => isTrue trivial
  | .applied _ | .queued _ | .rejectedDuplicate | .rejectedSignature | .rejectedAuthorization
  | .rejectedMalformed _ | .rejectedPreJoinHistory _ => isFalse id

/-- What `apply` answered for an op of a group. -/
structure Verdict where
  op : GroupOp
  group : ChatGroup
  outcome : ApplyOutcome

/-- The op that `handleGroupOp` gives to `apply`, and the answer. -/
def ChatStore.judged (env : GroupEnv) (payload : Bytes) (s : ChatStore) : Option Verdict :=
  match s.session, s.myCard with
  | some _, some me =>
    if ¬ s.readyRelays then none
    else
      match GroupOp.decode payload with
      | none => none
      | some op =>
        match op.kind with
        | .create _ _ => none
        | _ =>
          (s.findGroup op.groupId).bind fun g =>
            (g.apply env op { localIdentityPub := some me }).map fun r => ⟨op, g, r.1⟩
  | _, _ => none

/-- The op is properly signed by a member of the group, and by one entitled to its kind where it
is reported for an epoch that is taken. -/
structure AccusesMember (env : GroupEnv) (v : Verdict) : Prop where
  signed : v.op.verifySignature env = true
  member : v.group.hasMember v.op.operatorIdentity = true
  entitled : ∀ e, v.outcome = .rejectedEquivocation e → v.op.epoch ≤ v.group.currentEpoch →
    v.group.isAuthorised v.op.operatorIdentity v.op.kind = true

/-- The op differs from what the group has: another digest at an epoch that is taken and that the
local user was there for, or another parent at the next one. -/
structure Conflicts (env : GroupEnv) (me : Bytes) (g : ChatGroup) (op : GroupOp) : Prop where
  signed : op.verifySignature env = true
  differs : (op.epoch ≤ g.currentEpoch ∧
      (∀ joinedAt, g.localJoinedAt { localIdentityPub := some me } = some joinedAt →
        joinedAt ≤ op.epoch) ∧
      ∃ known, g.digest op.epoch = some known ∧ known ≠ env.hash op.wire) ∨
    nextEpoch g.currentEpoch = some op.epoch ∧ op.parentDigest ≠ g.lastOpDigest

/-- By the history, the operator is in the group, and entitled to the kind at an epoch that is
taken. -/
def GroupHistory.Entitles (h : GroupHistory) (g : ChatGroup) (op : GroupOp) : Prop :=
  h.roles op.operatorIdentity ≠ [] ∧
    (op.epoch ≤ g.currentEpoch → h.MaySign op.operatorIdentity op.kind)

variable {env : GroupEnv} {amb : Ambient} {s s' : ChatStore} {g g' : ChatGroup} {me : Bytes}
  {op : GroupOp} {sx sx' : ApplySideEffects} {outcome : ApplyOutcome} {payload : Bytes}

/-! ## Warnings along a run -/

/-- A client, the histories of its groups, and what `apply` answered whenever a warning was put
into a log. -/
structure Warned where
  client : Client
  past : List (ChatGroup × GroupHistory)
  warnings : List Verdict

/-- A client that has no group yet. -/
def Warned.fresh (s : ChatStore) : Warned := ⟨.fresh s, [], []⟩

/-- The answer that an event puts a warning into the log for. -/
def Event.warning (env : GroupEnv) (s : ChatStore) : Event → Option Verdict
  | .call _ (.receive _ ⟨_, .groupOp, body⟩) =>
    (s.judged env body).filter fun v => v.outcome.Warns
  | _ => none

/-- One event. -/
structure Warned.Step (env : GroupEnv) (w : Warned) (e : Event) (w' : Warned) : Prop where
  client : w.client.Step env e w'.client
  past : Remembers env w.past w'.past
  groups : w'.past.map Prod.fst = w'.client.store.groups
  warnings : w'.warnings = (e.warning env w.client.store).toList ++ w.warnings

/-- Whoever signed an op in conflict was admitted to the group and has not been removed since, nor
demoted where that matters: so say the ops applied, for each op that arrives with the event. -/
def ConflictsByMembers (env : GroupEnv) (w : Warned) (e : Event) : Prop :=
  ∀ amb sender recipient body, e = .call amb (.receive sender ⟨recipient, .groupOp, body⟩) →
    ∀ v, w.client.store.judged env body = some v → ∀ me, w.client.store.myCard = some me →
      Conflicts env me v.group v.op →
        ∃ history, (v.group, history) ∈ w.past ∧ history.Entitles v.group v.op

/-! ## One op -/

theorem hasMember_of_isAuthorised {peerId : Bytes} {kind : GroupOpKind}
    (h : g.isAuthorised peerId kind = true) : g.hasMember peerId = true := by
  cases kind with
  | rotateSenderKey => exact h
  | create => cases h
  | addMember | removeMember | rename | promoteAdmin | demoteAdmin =>
    exact hasMember_of_hasAdmin h

/-- Which ops are warned of: those in conflict, and those of an entitled operator that were signed
for another member set. -/
theorem apply_warns (hencoded : op.encoded = .ok op.wire)
    (h : g.apply env op { localIdentityPub := some me } = some (outcome, g', sx'))
    (hwarns : outcome.Warns) :
    outcome = .rejectedEquivocation op.epoch ∧ Conflicts env me g op ∨
      (∀ e, outcome ≠ .rejectedEquivocation e) ∧ op.verifySignature env = true ∧
        g.isAuthorised op.operatorIdentity op.kind = true := by
  rw [ChatGroup.apply, hencoded] at h
  split at h
  · cases h
    cases hwarns
  dsimp only at h
  split at h
  · cases h
    cases hwarns
  next hsig =>
  have hsig := not_not.mp hsig
  split at h
  · cases h
  next expected hnext =>
  have hvalue := nextEpoch_eq_some_iff.mp hnext
  split at h
  -- an epoch that is taken
  · next hpast =>
    have hpast : op.epoch ≤ g.currentEpoch := by
      rw [UInt64.lt_iff_toNat_lt] at hpast
      rw [UInt64.le_iff_toNat_le]
      omega
    have hanswer := Option.some.inj h
    rw [applyPast] at hanswer
    split at hanswer
    · cases hanswer
      cases hwarns
    next hjoined =>
    split at hanswer
    · next hdigest =>
      cases hanswer
      rw [Option.any_eq_true] at hjoined hdigest
      obtain ⟨known, hknown, hne⟩ := hdigest
      refine .inl ⟨rfl, hsig, .inl ⟨hpast, fun joinedAt hsome => ?_, known, hknown,
        of_decide_eq_true hne⟩⟩
      by_contra hbefore
      exact hjoined ⟨joinedAt, hsome, decide_eq_true (UInt64.not_le.mp hbefore)⟩
    · cases hanswer
      cases hwarns
  next hlt =>
  split at h
  · cases h
    cases hwarns
  next hgt =>
  have hepoch : expected = op.epoch := by
    rw [UInt64.lt_iff_toNat_lt] at hlt hgt
    exact UInt64.toNat_inj.mp (by omega)
  split at h
  · next hparent =>
    cases h
    -- the next epoch, with another parent
    exact .inl ⟨rfl, hsig, .inr ⟨hepoch ▸ hnext, hparent⟩⟩
  split at h
  · cases h
    cases hwarns
  -- from here on the operator has been checked
  next hauth =>
  split at h
  · cases h
  · next hmismatch =>
    obtain ⟨_, _, rfl⟩ := memberSetRootMismatch_eq hmismatch
    cases h
    exact .inr ⟨by rintro e ⟨⟩, hsig, not_not.mp hauth⟩
  split at h
  · obtain ⟨r, -, heq⟩ := Option.map_eq_some_iff.mp h
    cases heq
    cases hwarns
  · cases h
    cases hwarns

/-- An op in conflict is warned of. -/
theorem Conflicts.warned (hconflict : Conflicts env me g op) (hid : op.groupId = g.id)
    (hencoded : op.encoded = .ok op.wire)
    (h : g.apply env op { localIdentityPub := some me } = some (outcome, g', sx')) :
    outcome = .rejectedEquivocation op.epoch := by
  rw [ChatGroup.apply, if_neg (not_not.mpr hid), hencoded] at h
  dsimp only at h
  rw [if_neg (not_not.mpr hconflict.signed)] at h
  split at h
  · cases h
  next expected hnext =>
  have hvalue := nextEpoch_eq_some_iff.mp hnext
  rcases hconflict.differs with ⟨hpast, hjoined, known, hknown, hne⟩ | ⟨hepoch, hparent⟩
  · have hlt : op.epoch < expected := by
      rw [UInt64.le_iff_toNat_le] at hpast
      rw [UInt64.lt_iff_toNat_lt]
      omega
    rw [if_pos hlt, applyPast, if_neg, if_pos] at h
    · cases h
      rfl
    · rw [Option.any_eq_true]
      exact ⟨known, hknown, decide_eq_true hne⟩
    · rw [Option.any_eq_true]
      rintro ⟨joinedAt, hsome, hbefore⟩
      exact UInt64.not_lt.mpr (hjoined joinedAt hsome) (of_decide_eq_true hbefore)
  · rw [hnext] at hepoch
    cases hepoch
    rw [if_neg (UInt64.lt_irrefl _), if_neg (UInt64.lt_irrefl _), if_pos hparent] at h
    cases h
    rfl

/-! ## What `handleGroupOp` does with the answer -/

theorem judged_eq_some {v : Verdict} (h : s.judged env payload = some v) :
    ∃ session me g' sx', s.session = some session ∧ s.myCard = some me ∧ s.readyRelays = true ∧
      GroupOp.decode payload = some v.op ∧ (∀ name members, v.op.kind ≠ .create name members) ∧
      s.findGroup v.op.groupId = some v.group ∧
      v.group.apply env v.op { localIdentityPub := some me } = some (v.outcome, g', sx') := by
  rw [judged] at h
  split at h
  · next session me hsession hcard =>
    split at h
    · cases h
    next hready =>
    split at h
    · cases h
    next op hdecode =>
    split at h
    · cases h
    next hkind =>
    obtain ⟨g, hfind, h⟩ := Option.bind_eq_some_iff.mp h
    obtain ⟨⟨outcome, g', sx'⟩, happly, rfl⟩ := Option.map_eq_some_iff.mp h
    exact ⟨session, me, g', sx', hsession, hcard, not_not.mp hready, hdecode,
      fun name members hcreate => hkind name members hcreate, hfind, happly⟩
  · cases h

/-- A verdict that warns puts the text of its outcome into the log, and changes nothing else. -/
theorem handleGroupOp_warns {v : Verdict} (sender : Bytes) (h : s.judged env payload = some v)
    (hwarns : v.outcome.Warns) :
    ∃ text, outcomeText v.outcome = some text ∧
      s.handleGroupOp env amb payload sender = some (s.setGroup (v.group.appendSystem text), []) := by
  obtain ⟨session, me, g', sx', hsession, hcard, hready, hdecode, hkind, hfind, happly⟩ :=
    judged_eq_some h
  have hleaves := apply_leaves happly
  have hstays : g' = v.group ∧ ∃ text, outcomeText v.outcome = some text := by
    cases houtcome : v.outcome with
    | rejectedEquivocation | rejectedMemberSetMismatch =>
      rw [houtcome] at hleaves
      exact ⟨hleaves.1, _, rfl⟩
    | _ =>
      rw [houtcome] at hwarns
      cases hwarns
  obtain ⟨rfl, text, htext⟩ := hstays
  refine ⟨text, htext, ?_⟩
  rw [handleGroupOp, hsession, hcard]
  dsimp only
  rw [if_neg (not_not.mpr hready), hdecode]
  dsimp only
  split
  · next name members hcreate => exact absurd hcreate (hkind name members)
  rw [hfind]
  dsimp only
  rw [happly]
  cases houtcome : v.outcome with
  | applied =>
    rw [houtcome] at hwarns
    cases hwarns
  | _ =>
    rw [houtcome] at htext
    dsimp only
    rw [htext, Option.elim_some]

/-- A warning accuses a member just if the history of the group entitles the operator of an op in
conflict. -/
theorem accuses_iff {past : List (ChatGroup × GroupHistory)} {history : GroupHistory} {v : Verdict}
    (htold : Told past) (hpast : (v.group, history) ∈ past) (hcard : s.myCard = some me)
    (h : s.judged env payload = some v) :
    (v.outcome.Warns → AccusesMember env v) ↔
      (Conflicts env me v.group v.op → history.Entitles v.group v.op) := by
  obtain ⟨_, me', g', sx', -, hcard', -, hdecode, -, hfind, happly⟩ := judged_eq_some h
  rw [hcard] at hcard'
  cases hcard'
  have hencoded : v.op.encoded = .ok v.op.wire := by
    have henc := GroupOp.encoded_of_decode hdecode
    rw [GroupOp.wire_eq henc]
    exact henc
  have hroles : history.roles v.op.operatorIdentity = rolesIn v.group.members _ := htold _ hpast _
  constructor
  · intro haccuses hconflict
    have houtcome := hconflict.warned (findGroup_id hfind).symm hencoded happly
    have hmember : AccusesMember env v := haccuses (by rw [houtcome]; trivial)
    refine ⟨hroles ▸ hasMember_iff_rolesIn.mp hmember.member, fun hpastEpoch => ?_⟩
    exact (htold.isAuthorised_iff hpast).mp (hmember.entitled _ houtcome hpastEpoch)
  · intro hentitles hwarns
    rcases apply_warns hencoded happly hwarns with ⟨-, hconflict⟩ | ⟨hother, hsig, hauth⟩
    · obtain ⟨hin, hentitled⟩ := hentitles hconflict
      exact ⟨hconflict.signed, hasMember_iff_rolesIn.mpr (hroles ▸ hin),
        fun _ _ hpastEpoch => (htold.isAuthorised_iff hpast).mpr (hentitled hpastEpoch)⟩
    · exact ⟨hsig, hasMember_of_isAuthorised hauth, fun e he => absurd he (hother e)⟩

theorem warning_eq_some {e : Event} {v : Verdict} (h : e.warning env s = some v) :
    ∃ amb sender recipient body,
      e = .call amb (.receive sender ⟨recipient, .groupOp, body⟩) ∧
        s.judged env body = some v ∧ v.outcome.Warns := by
  unfold Event.warning at h
  split at h
  · obtain ⟨hjudged, hwarns⟩ := Option.filter_eq_some_iff.mp h
    exact ⟨_, _, _, _, rfl, hjudged, of_decide_eq_true hwarns⟩
  · cases h

/-! ## Runs -/

/-- The histories are those of the groups held, and tell who is in them. -/
structure Warned.Faithful (w : Warned) : Prop where
  told : Told w.past
  groups : w.past.map Prod.fst = w.client.store.groups

theorem Warned.faithful_fresh (s : ChatStore) : (Warned.fresh s).Faithful where
  told _ hx := absurd hx List.not_mem_nil
  groups := rfl

namespace Warned.Faithful

variable {w w' : Warned}

theorem step {e : Event} (h : w.Faithful) (hstep : w.Step env e w') : w'.Faithful where
  told := h.told.remembers hstep.past
  groups := hstep.groups

/-- The group that a verdict is about has its history. -/
theorem history {v : Verdict} (h : w.Faithful)
    (hjudged : w.client.store.judged env payload = some v) :
    ∃ history, (v.group, history) ∈ w.past := by
  obtain ⟨_, _, _, _, -, -, -, -, -, hfind, -⟩ := judged_eq_some hjudged
  have hmem := List.mem_of_find?_eq_some hfind
  rw [← h.groups] at hmem
  obtain ⟨⟨g, history⟩, hx, heq⟩ := List.mem_map.mp hmem
  exact ⟨history, heq ▸ hx⟩

/-- Every event of the client is one that its histories follow. -/
theorem follows {e : Event} {c' : Client} (h : w.Faithful) (hcard : w.client.store.myCard = some me)
    (hstep : w.client.Step env e c') : ∃ w', w.Step env e w' ∧ w'.client = c' := by
  obtain ⟨past', hpast, hgroups⟩ := Moves.remembered (h.groups ▸ hstep.moves hcard)
  exact ⟨⟨c', past', (e.warning env w.client.store).toList ++ w.warnings⟩,
    ⟨hstep, hpast, hgroups, rfl⟩, rfl⟩

end Warned.Faithful

theorem Warned.faithful {ok : Warned → Event → Prop} {w : Warned}
    (hrun : Runs.Reach (Warned.Step env) ok (.fresh s) w) : w.Faithful :=
  hrun.invariant Warned.Faithful (fun h _ hstep => h.step hstep) (Warned.faithful_fresh s)

/-- As long as the ops in conflict come from peers that the applied ops have admitted and not
removed or demoted since, the warnings of a run accuse members only. In every state reached, the
next warning does so just if the history of the group says so of the operator, and the warning is a
row in the log of the group, and nothing else. Every run of the client has its histories. -/
theorem warnings_accuse_members {w : Warned}
    (hrun : Runs.Reach (Warned.Step env) (ConflictsByMembers env) (.fresh s) w) :
    (∀ v ∈ w.warnings, AccusesMember env v) ∧
      (∀ payload v me, w.client.store.myCard = some me →
        w.client.store.judged env payload = some v →
        ∃ history, (v.group, history) ∈ w.past ∧ ((v.outcome.Warns → AccusesMember env v) ↔
          (Conflicts env me v.group v.op → history.Entitles v.group v.op))) ∧
      (∀ amb payload sender v, w.client.store.judged env payload = some v → v.outcome.Warns →
        ∃ text, outcomeText v.outcome = some text ∧
          w.client.store.handleGroupOp env amb payload sender =
            some (w.client.store.setGroup (v.group.appendSystem text), [])) ∧
      ∀ me e c', w.client.store.myCard = some me → w.client.Step env e c' →
        ∃ w', w.Step env e w' ∧ w'.client = c' := by
  have hfaithful := Warned.faithful hrun
  refine ⟨?_, fun payload v me hcard hjudged => ?_,
    fun amb payload sender v hjudged hwarns => handleGroupOp_warns sender hjudged hwarns,
    fun me e c' hcard hstep => hfaithful.follows hcard hstep⟩
  · refine (hrun.invariant (fun w => w.Faithful ∧ ∀ v ∈ w.warnings, AccusesMember env v) ?_
      ⟨Warned.faithful_fresh s, fun v hv => absurd hv List.not_mem_nil⟩).2
    rintro w e w' ⟨hw, haccuses⟩ hok hstep
    refine ⟨hw.step hstep, fun v hv => ?_⟩
    rw [hstep.warnings] at hv
    rcases List.mem_append.mp hv with hnew | hold
    · have hnew := Option.mem_toList.mp hnew
      obtain ⟨amb, sender, recipient, body, rfl, hjudged, hwarns⟩ := warning_eq_some hnew
      obtain ⟨_, me, _, _, -, hcard, -⟩ := judged_eq_some hjudged
      obtain ⟨history, hpast⟩ := hw.history hjudged
      refine (accuses_iff hw.told hpast hcard hjudged).mpr (fun hconflict => ?_) hwarns
      obtain ⟨history', hpast', hentitles⟩ :=
        hok amb sender recipient body rfl v hjudged me hcard hconflict
      -- the histories of one group say the same
      have hsame : history.roles v.op.operatorIdentity = history'.roles v.op.operatorIdentity :=
        (hw.told _ hpast _).trans (hw.told _ hpast' _).symm
      exact ⟨hsame ▸ hentitles.1, fun hpastEpoch => (hw.told.isAuthorised_iff hpast).mp
        ((hw.told.isAuthorised_iff hpast').mpr (hentitles.2 hpastEpoch))⟩
    · exact haccuses v hold
  · obtain ⟨history, hpast⟩ := hfaithful.history hjudged
    exact ⟨history, hpast, accuses_iff hfaithful.told hpast hcard hjudged⟩

/-! ## Two warnings of peer 2 -/

/-- The ops that arrive with a call are from operators who may sign them. -/
def Client.safeCall (c : Client) : Call → Bool
  | .receive _ ⟨_, .groupOp, body⟩ =>
    (c.store.judged namingEnv body).all fun v =>
      v.group.hasMember v.op.operatorIdentity &&
        v.group.isAuthorised v.op.operatorIdentity v.op.kind
  | _ => true

theorem conflictsByMembers_of_safe {c : Client} {past : List (ChatGroup × GroupHistory)}
    {warnings : List Verdict} {n : UInt8} {call : Call}
    (h : Warned.Faithful ⟨c, past, warnings⟩) (hsafe : c.safeCall call = true) :
    ConflictsByMembers namingEnv ⟨c, past, warnings⟩ (.call (sampleAmbient n) call) := by
  intro amb sender recipient body he v hjudged me _ _
  cases he
  rw [Client.safeCall, hjudged, Option.all_some, Bool.and_eq_true] at hsafe
  obtain ⟨history, hpast⟩ := h.history hjudged
  have hroles : history.roles v.op.operatorIdentity = rolesIn v.group.members _ :=
    h.told _ hpast _
  exact ⟨history, hpast, hroles ▸ hasMember_iff_rolesIn.mp hsafe.1,
    fun _ => (h.told.isAuthorised_iff hpast).mp hsafe.2⟩

/-- What has been warned of with a call. -/
def Client.warnings (c : Client) (n : UInt8) (call : Call) : List Verdict :=
  ((Event.call (sampleAmbient n) call).warning namingEnv c.store).toList

/-- Peer 2, paired with peers 1 and 3, has no group yet. -/
def watchedStart : Warned := .fresh (sampleDevice 2 [1, 3] [])

/-- A call of peer 2 goes on with a run. -/
theorem watched_did {ok : Warned → Event → Prop} {c : Client} {warnings : List Verdict} (n : UInt8)
    (call : Call) (hpeer : IsPeer2 c)
    (hdone : (call.perform namingEnv (sampleAmbient n) c.store).isSome = true)
    (hok : ∀ past, Warned.Faithful ⟨c, past, warnings⟩ →
      ok ⟨c, past, warnings⟩ (.call (sampleAmbient n) call))
    (hrun : ∃ past, Runs.Reach (Warned.Step namingEnv) ok watchedStart ⟨c, past, warnings⟩) :
    ∃ past, Runs.Reach (Warned.Step namingEnv) ok watchedStart
      ⟨c.did namingEnv n call, past, c.warnings n call ++ warnings⟩ := by
  obtain ⟨past, hrun⟩ := hrun
  have hfaithful := Warned.faithful hrun
  obtain ⟨⟨c', past', warnings'⟩, hstep, rfl⟩ :=
    hfaithful.follows hpeer.card (Client.step_did hdone)
  have hwarnings : warnings' = c.warnings n call ++ warnings := hstep.warnings
  subst hwarnings
  exact ⟨past', hrun.snoc hstep (hok past hfaithful)⟩

/-- Peer 1 has signed another op for the epoch of the removal. -/
def sampleForked : Call := arrivesFrom1 (nextFrom1 sampleJoined (.rename "hike"))

/-- The rotation that peer 3 has signed before it heard of its removal. -/
def sampleStale : GroupOp :=
  match sampleJoined.store.findGroup sampleGroupId with
  | none => sampleCreate []
  | some g =>
    sampleSigned
      { groupId := g.id
        epoch := g.currentEpoch + 1
        parentDigest := g.lastOpDigest
        operatorIdentity := samplePeer 3
        timestampMillis := 2000
        priorMemberSetRoot := (g.memberSetRoot namingEnv).getD []
        kind := .rotateSenderKey (sampleAmbient 9).rotateId
        signature := [] }

/-- It arrives. -/
def sampleLateOp : Call := .receive (samplePeer 3) ⟨samplePeer 2, .groupOp, sampleStale.wire⟩

/-- The warnings of peer 2 up to the removal of peer 3. -/
def warningsBefore : List Verdict :=
  sampleJoined.warnings 3
      (arrivesFrom1 (nextFrom1 sampleJoined (.removeMember (samplePeer 3)))) ++
    (sampleAsked.warnings 2 (.acceptGroupInvitation sampleGroupId) ++
      (sampleInvitee.warnings 1 (arrivesFrom1 (sampleCreate [1, 2, 3])) ++ []))

theorem isPeer2_sampleAsked : IsPeer2 sampleAsked := by
  refine isPeer2_sampleInvitee.did namingEnv (.inl ?_)
  trivial

theorem isPeer2_sampleJoined : IsPeer2 sampleJoined := by
  refine isPeer2_sampleAsked.did namingEnv (.inl ?_)
  trivial

theorem isPeer2_sampleRid : IsPeer2 sampleRid := by
  refine isPeer2_sampleJoined.did namingEnv (.inl ?_)
  trivial

/-- No call traps, and the ops that arrive are from operators who may sign them, the last one
apart. -/
theorem samples_did :
    ((arrivesFrom1 (sampleCreate [1, 2, 3])).perform namingEnv (sampleAmbient 1)
        sampleInvitee.store).isSome = true ∧
      sampleInvitee.safeCall (arrivesFrom1 (sampleCreate [1, 2, 3])) = true ∧
      ((Call.acceptGroupInvitation sampleGroupId).perform namingEnv (sampleAmbient 2)
        sampleAsked.store).isSome = true ∧
      ((arrivesFrom1 (nextFrom1 sampleJoined (.removeMember (samplePeer 3)))).perform namingEnv
        (sampleAmbient 3) sampleJoined.store).isSome = true ∧
      sampleJoined.safeCall
        (arrivesFrom1 (nextFrom1 sampleJoined (.removeMember (samplePeer 3)))) = true ∧
      (sampleForked.perform namingEnv (sampleAmbient 4) sampleRid.store).isSome = true ∧
      sampleRid.safeCall sampleForked = true ∧
      (sampleLateOp.perform namingEnv (sampleAmbient 4) sampleRid.store).isSome = true := by
  decide +kernel

/-- Peer 1 invites peer 2 to a group with peer 3, peer 2 accepts, peer 1 removes peer 3. -/
theorem reach_sampleRid : ∃ past, Runs.Reach (Warned.Step namingEnv)
    (ConflictsByMembers namingEnv) watchedStart ⟨sampleRid, past, warningsBefore⟩ := by
  obtain ⟨hcreated, hsafe, haccepted, hremoved, hsafe', -⟩ := samples_did
  refine watched_did _ _ isPeer2_sampleJoined hremoved
    (fun past h => conflictsByMembers_of_safe h hsafe') ?_
  refine watched_did _ _ isPeer2_sampleAsked haccepted
    (fun past h => conflictsByMembers_of_safe h rfl) ?_
  refine watched_did _ _ isPeer2_sampleInvitee hcreated
    (fun past h => conflictsByMembers_of_safe h hsafe) ?_
  exact ⟨[], .refl⟩

theorem warnings_accuse_members_equivocated : ∃ w : Warned,
    Runs.Reach (Warned.Step namingEnv) (ConflictsByMembers namingEnv)
      (.fresh (sampleDevice 2 [1, 3] [])) w ∧
    (∃ v ∈ w.warnings, v.op.operatorIdentity = samplePeer 1 ∧ AccusesMember namingEnv v) ∧
      ∀ v ∈ w.warnings, AccusesMember namingEnv v := by
  obtain ⟨-, -, -, -, -, hforked, hsafe, -⟩ := samples_did
  obtain ⟨past, hrun⟩ := watched_did 4 sampleForked isPeer2_sampleRid hforked
    (fun past h => conflictsByMembers_of_safe h hsafe) reach_sampleRid
  have hall := (warnings_accuse_members hrun).1
  have hsome : ((sampleRid.warnings 4 sampleForked).any fun v =>
      v.op.operatorIdentity = samplePeer 1) = true := by
    decide +kernel
  obtain ⟨v, hv, hoperator⟩ := List.any_eq_true.mp hsome
  have hv := List.mem_append_left warningsBefore hv
  exact ⟨_, hrun, ⟨v, hv, of_decide_eq_true hoperator, hall v hv⟩, hall⟩

/-- Without the condition the property fails: the op of a peer that has been removed, signed for an
epoch it was a member at, is taken for equivocation. -/
theorem stale_op_accuses_removed_peer :
    ¬ ∀ w : Warned, Runs.Reach (Warned.Step namingEnv) (fun _ _ => True)
        (.fresh (sampleDevice 2 [1, 3] [])) w →
      ∀ v ∈ w.warnings, AccusesMember namingEnv v := by
  intro hall
  obtain ⟨past, hrun⟩ := reach_sampleRid
  have hfree : Runs.Reach (Warned.Step namingEnv) (fun _ _ => True) watchedStart
      ⟨sampleRid, past, warningsBefore⟩ := hrun.imp fun _ _ _ => trivial
  obtain ⟨-, -, -, -, -, -, -, hlate⟩ := samples_did
  obtain ⟨past', hrun'⟩ := watched_did 4 sampleLateOp isPeer2_sampleRid hlate
    (fun _ _ => trivial) ⟨past, hfree⟩
  have hsome : ((sampleRid.warnings 4 sampleLateOp).any fun v =>
      ¬ v.group.hasMember v.op.operatorIdentity) = true := by
    decide +kernel
  obtain ⟨v, hv, hgone⟩ := List.any_eq_true.mp hsome
  exact of_decide_eq_true hgone
    (hall _ hrun' v (List.mem_append_left warningsBefore hv)).member

end Pizzini.Group
