import Pizzini.Group.ApplySpec
import Pizzini.Group.ChatStoreGroups

/-!
# Issuing an op

What the calls of `ChatStoreGroups` have in common:

- the store: `setGroup` writes the group that `findGroup` reads;
- signing: an op that `signNext` returns is `Issued`, the next op of the group it
  was signed for, with a valid signature;
- applying such an op, on the issuer's device or on one with the same rows;
- the hooks after a mutation, which leave the op chain alone unless they rotate
  (`Keeps`, `applyPostMutationSideEffects_quiet`).
-/

namespace Pizzini.Group

open Wire ChatGroup ChatStore

variable {env : GroupEnv} {amb : Ambient} {s : ChatStore} {g h k : ChatGroup} {op : GroupOp}
  {me : Bytes} {kind : GroupOpKind} {session : Session} {sx : ApplySideEffects}

/-! ## The store -/

theorem find?_setFirst_self {groups : List ChatGroup} {groupId : Bytes}
    (hfind : groups.find? (fun g => g.id = groupId) = some h) (hid : g.id = groupId) :
    (setFirst g groups).find? (fun g => g.id = groupId) = some g := by
  induction groups with
  | nil => cases hfind
  | cons x rest ih =>
    rw [setFirst]
    by_cases hx : x.id = groupId
    · rw [if_pos (hx.trans hid.symm), List.find?_cons_of_pos (by simpa using hid)]
    · rw [List.find?_cons_of_neg (by simpa using hx)] at hfind
      rw [if_neg (fun heq => hx (heq.trans hid)), List.find?_cons_of_neg (by simpa using hx)]
      exact ih hfind

/-- The group just written is the one read. -/
theorem findGroup_setGroup {groupId : Bytes} (hfind : s.findGroup groupId = some h)
    (hid : g.id = groupId) : (s.setGroup g).findGroup groupId = some g :=
  find?_setFirst_self hfind hid

theorem findGroup_id {groupId : Bytes} (hfind : s.findGroup groupId = some g) : g.id = groupId := by
  have := List.find?_some hfind
  simpa using this

theorem setFirst_setFirst (groups : List ChatGroup) (hid : g.id = h.id) :
    setFirst g (setFirst h groups) = setFirst g groups := by
  induction groups with
  | nil => rfl
  | cons x rest ih =>
    rw [setFirst, setFirst, hid]
    split
    · rw [setFirst, if_pos hid.symm]
    · rename_i hne
      rw [setFirst, if_neg (by rw [hid]; exact hne), ih]

/-- The second of two writes counts. -/
theorem setGroup_setGroup (hid : g.id = h.id) : (s.setGroup h).setGroup g = s.setGroup g := by
  rw [setGroup, setGroup, setGroup, setFirst_setFirst _ hid]

/-! ## Signing -/

/-- What the code relies on in `identitySign`: it does not fail, a signature has
64 bytes, and it verifies under the signer's identity and the same tag. -/
structure SignsFor (env : GroupEnv) (me : Bytes) (session : Session) : Prop where
  groupOp : ∀ message, ∃ sig, session.identitySign .groupOp message = some sig ∧
    sig.length = signatureSize ∧ env.verifyGroupOp me message sig = true
  groupBootstrap : ∀ message, ∃ sig, session.identitySign .groupBootstrap message = some sig ∧
    sig.length = signatureSize ∧ env.verifyGroupBootstrap me message sig = true

/-- `op` is the next op of `g`, issued by `me`. -/
structure Issued (env : GroupEnv) (me : Bytes) (kind : GroupOpKind) (g : ChatGroup)
    (op : GroupOp) : Prop where
  groupId : op.groupId = g.id
  next : nextEpoch g.currentEpoch = some op.epoch
  parent : op.parentDigest = g.lastOpDigest
  operator : op.operatorIdentity = me
  root : g.memberSetRoot env = some op.priorMemberSetRoot
  kind : op.kind = kind
  encoded : op.encoded = .ok op.wire
  signed : op.verifySignature env = true

/-- An op that `signNext` returns is the next op of the group, when the header it signs gets
a good signature. -/
theorem signNext_issued_of {now : UInt64}
    (hsigns : ∀ (unsigned : GroupOp) (header : Bytes), unsigned.operatorIdentity = me →
      unsigned.kind = kind → unsigned.encodedHeader = .ok header →
      ∃ sig, session.identitySign .groupOp header = some sig ∧ sig.length = signatureSize ∧
        env.verifyGroupOp me header sig = true)
    (hsign : signNext env session me kind now g = some (some op)) : Issued env me kind g op := by
  obtain ⟨epoch, hnext, hsign⟩ := Option.bind_eq_some_iff.mp hsign
  obtain ⟨root, hroot, hsign⟩ := Option.map_eq_some_iff.mp hsign
  rw [signOp] at hsign
  dsimp only at hsign
  split at hsign
  · cases hsign
  · rename_i header hheader
    obtain ⟨sig, hsig, hlen, hverify⟩ := hsigns _ header rfl rfl hheader
    rw [hsig] at hsign
    cases hsign
    have hencoded : GroupOp.encoded
        ⟨g.id, epoch, g.lastOpDigest, me, now, root, kind, sig⟩ = .ok (header ++ sig) :=
      bind_eq_ok.mpr ⟨header, hheader, bind_eq_ok.mpr ⟨(), require_eq_ok.mpr hlen, rfl⟩⟩
    constructor
    · rfl
    · exact hnext
    · rfl
    · rfl
    · exact hroot
    · rfl
    · rw [GroupOp.wire_eq hencoded]
      exact hencoded
    · have hsame : GroupOp.encodedHeader
          ⟨g.id, epoch, g.lastOpDigest, me, now, root, kind, sig⟩ = .ok header := hheader
      rw [GroupOp.verifySignature, hsame]
      exact hverify

/-- With a session that signs everything. -/
theorem signNext_issued (hsigns : SignsFor env me session) {now : UInt64}
    (hsign : signNext env session me kind now g = some (some op)) : Issued env me kind g op :=
  signNext_issued_of (fun _ header _ _ _ => hsigns.groupOp header) hsign

/-- Signed or not, an op of `signNext` is for the next epoch. -/
theorem signNext_next {now : UInt64} (hsign : signNext env session me kind now g = some (some op)) :
    nextEpoch g.currentEpoch = some op.epoch := by
  obtain ⟨epoch, hnext, hsign⟩ := Option.bind_eq_some_iff.mp hsign
  obtain ⟨root, -, hsign⟩ := Option.map_eq_some_iff.mp hsign
  rw [signOp] at hsign
  dsimp only at hsign
  split at hsign
  · cases hsign
  · obtain ⟨sig, -, rfl⟩ := Option.map_eq_some_iff.mp hsign
    exact hnext

/-! ## Applying an issued op -/

/-- Parked ops that do not extend the last op stay refused: the replay leaves the
group alone. -/
theorem replayLoop_fresh (env : GroupEnv) (sx : ApplySideEffects)
    {entries : List (GroupOp × Bytes)}
    (hfresh : ∀ e ∈ entries, e.1.parentDigest ≠ g.lastOpDigest) :
    ∃ kept epoch, replayLoop env entries g sx =
      some (kept, g, { sx with equivocationEpoch := epoch }) := by
  induction entries generalizing sx with
  | nil => exact ⟨[], sx.equivocationEpoch, rfl⟩
  | cons e entries ih =>
    obtain ⟨op, bytes⟩ := e
    obtain ⟨hne, hrest⟩ := List.forall_mem_cons.mp hfresh
    rw [replayLoop]
    split
    · exact ih sx hrest
    · rename_i hlate
      obtain ⟨n, hnext, -⟩ := nextEpoch_of_lt hlate
      simp only [hnext]
      split
      · rename_i hdue
        -- due, but refused for its signature or its parent
        have hparked : ∃ outcome epoch, applyAlreadyParked env op bytes g sx =
            some (outcome, g, { sx with equivocationEpoch := epoch }) := by
          rw [applyAlreadyParked, hnext]
          simp only [hdue, ne_eq, not_true_eq_false, if_false, if_pos hne]
          split
          · exact ⟨_, sx.equivocationEpoch, rfl⟩
          · exact ⟨_, _, rfl⟩
        obtain ⟨outcome, epoch, hparked⟩ := hparked
        rw [hparked]
        exact ih _ hrest
      · obtain ⟨kept, epoch, hloop⟩ := ih sx hrest
        rw [hloop]
        exact ⟨bytes :: kept, epoch, rfl⟩

/-- No op of the queue names `digest` as its parent. -/
def NoChild (pendingOps : List Bytes) (digest : Bytes) : Prop :=
  ∀ bytes ∈ pendingOps, ∀ op, GroupOp.decode bytes = some op → op.parentDigest ≠ digest

theorem replayPending_fresh (env : GroupEnv) (sx : ApplySideEffects)
    (hfresh : NoChild g.pendingOps g.lastOpDigest) :
    ∃ kept epoch, replayPending env g sx =
      some (g.withPending kept, { sx with equivocationEpoch := epoch }) := by
  rw [replayPending]
  split
  · exact ⟨g.pendingOps, sx.equivocationEpoch, rfl⟩
  · have hentries : ∀ e ∈ sortByEpoch (decodePending g.pendingOps),
        e.1.parentDigest ≠ g.lastOpDigest := by
      intro e he
      rw [sortByEpoch, List.mem_insertionSort, decodePending, List.mem_filterMap] at he
      obtain ⟨bytes, hbytes, hdecode⟩ := he
      obtain ⟨op, hop, rfl⟩ := Option.map_eq_some_iff.mp hdecode
      exact hfresh bytes hbytes op hop
    obtain ⟨kept, epoch, hloop⟩ := replayLoop_fresh env sx hentries
    rw [hloop]
    exact ⟨kept, epoch, rfl⟩

/-- An issued op on a group at the same place of the chain, with the same rows as
far as the root sees them. -/
theorem Issued.apply_eq (hop : Issued env me kind g op) (hid : h.id = g.id)
    (hepoch : h.currentEpoch = g.currentEpoch) (hlast : h.lastOpDigest = g.lastOpDigest)
    (hroot : h.memberSetRoot env = g.memberSetRoot env) (sx : ApplySideEffects) :
    h.apply env op sx =
      if ¬ h.isAuthorised me kind then some (.rejectedAuthorization, h, sx)
      else
        match h.executeMutation op sx with
        | (.ok, h', sx') =>
          (replayPending env (h'.advance op.epoch (env.hash op.wire)) sx').map
            fun r => (.applied op.epoch, r.1, r.2)
        | (.rejected reason, h', sx') => some (.rejectedMalformed reason, h', sx') := by
  have hmatch : h.memberSetRootMismatch env op = some none := by
    rw [memberSetRootMismatch_none_iff, hroot, hop.root]
  have hirrefl : ¬ op.epoch < op.epoch := UInt64.lt_irrefl op.epoch
  rw [ChatGroup.apply, hid, hop.groupId, hop.encoded, hepoch, hop.next, hop.parent, hop.operator,
    hop.kind, hlast, hmatch]
  rcases hexec : h.executeMutation op sx with ⟨_ | reason, rest⟩ <;>
    simp only [ne_eq, not_true_eq_false, if_false, hop.signed, hirrefl]

/-- An issued op that nothing in the queue extends takes effect alone, or is
refused and changes nothing. -/
theorem Issued.apply_cases (hop : Issued env me kind g op) (hid : h.id = g.id)
    (hepoch : h.currentEpoch = g.currentEpoch) (hlast : h.lastOpDigest = g.lastOpDigest)
    (hroot : h.memberSetRoot env = g.memberSetRoot env)
    (hqueue : NoChild h.pendingOps (env.hash op.wire)) (sx : ApplySideEffects) :
    (∃ h₁ kept epoch, Lands env op (env.hash op.wire) h h₁ ∧
      h.apply env op sx = some (.applied op.epoch, h₁.withPending kept,
        { (h.executeMutation op sx).2.2 with equivocationEpoch := epoch })) ∨
      ∃ outcome sx', h.apply env op sx = some (outcome, h, sx') ∧
        (outcome = .rejectedAuthorization ∨ ∃ reason, outcome = .rejectedMalformed reason) := by
  rw [hop.apply_eq hid hepoch hlast hroot sx]
  obtain ⟨sx', hmutate⟩ := executeMutation_eq h op sx
  split
  · exact .inr ⟨_, _, rfl, .inl rfl⟩
  · rename_i hauth
    cases hresult : h.mutate op with
    | error reason =>
      rw [hresult] at hmutate
      rw [hmutate]
      exact .inr ⟨_, _, rfl, .inr ⟨reason, rfl⟩⟩
    | ok h₁ =>
      rw [hresult] at hmutate
      rw [hmutate]
      have hlands : Lands env op (env.hash op.wire) h (h₁.advance op.epoch (env.hash op.wire)) := by
        constructor
        · rw [hop.parent, hlast]
        · rw [hop.operator, hop.kind]
          exact Classical.not_not.mp hauth
        · rw [hroot, hop.root]
        · exact ⟨h₁, hresult, rfl⟩
      obtain ⟨-, -, hdigest, hpending⟩ := hlands.frame
      have hfresh : NoChild (h₁.advance op.epoch (env.hash op.wire)).pendingOps
          (h₁.advance op.epoch (env.hash op.wire)).lastOpDigest := by
        rw [hpending, hdigest]
        exact hqueue
      obtain ⟨kept, epoch, hreplay⟩ := replayPending_fresh env sx' hfresh
      refine .inl ⟨_, kept, epoch, hlands, ?_⟩
      show Option.map _ _ = _
      rw [hreplay]
      rfl

/-- An op that the group already has, from no earlier than the local user's join. -/
theorem apply_duplicate {next : UInt64} (sx : ApplySideEffects) (hid : op.groupId = g.id)
    (hencoded : op.encoded = .ok op.wire) (hsig : op.verifySignature env = true)
    (hnext : nextEpoch g.currentEpoch = some next) (hpast : op.epoch < next)
    (hjoined : ∀ joinedAt, g.localJoinedAt sx = some joinedAt → ¬ op.epoch < joinedAt)
    (hdigest : ∀ known, g.digest op.epoch = some known → known = env.hash op.wire) :
    g.apply env op sx = some (.rejectedDuplicate, g, sx) := by
  have hbefore : ¬ (g.localJoinedAt sx).any (fun joinedAt => decide (op.epoch < joinedAt)) = true := by
    rw [Option.any_eq_true]
    rintro ⟨joinedAt, hsome, hlt⟩
    exact hjoined joinedAt hsome (of_decide_eq_true hlt)
  have hother : ¬ (g.digest op.epoch).any (fun known => decide (known ≠ env.hash op.wire)) = true := by
    rw [Option.any_eq_true]
    rintro ⟨known, hsome, hne⟩
    exact of_decide_eq_true hne (hdigest known hsome)
  rw [ChatGroup.apply, if_neg (fun hne => hne hid), hencoded]
  simp only [hsig, not_true_eq_false, if_false, hnext, if_pos hpast, applyPast, if_neg hbefore,
    if_neg hother]

/-- At the last epoch a signed op traps. -/
theorem apply_trap (hid : op.groupId = g.id) (hencoded : op.encoded = .ok op.wire)
    (hsig : op.verifySignature env = true) (hlast : nextEpoch g.currentEpoch = none) :
    g.apply env op sx = none := by
  rw [ChatGroup.apply, if_neg (fun hne => hne hid), hencoded]
  simp only [hsig, not_true_eq_false, if_false, hlast]

/-- Only a removal asks for a rotation or clears the local chain. -/
theorem executeMutation_flags (hkind : ∀ peerId, op.kind ≠ .removeMember peerId)
    (g : ChatGroup) (sx : ApplySideEffects) :
    (g.executeMutation op sx).2.2.requestSelfRotation = sx.requestSelfRotation ∧
      (g.executeMutation op sx).2.2.requestSelfChainClear = sx.requestSelfChainClear := by
  have hjoined : ∀ peerId, (sx.joined peerId).requestSelfRotation = sx.requestSelfRotation ∧
      (sx.joined peerId).requestSelfChainClear = sx.requestSelfChainClear := by
    intro peerId
    rw [ApplySideEffects.joined]
    split <;> exact ⟨rfl, rfl⟩
  rw [executeMutation]
  cases hop : op.kind with
  | removeMember peerId => exact absurd hop (hkind peerId)
  | create | rename | promoteAdmin | demoteAdmin | rotateSenderKey => exact ⟨rfl, rfl⟩
  | addMember peerId role name =>
    dsimp only [mutateAddMember]
    split
    · exact ⟨rfl, rfl⟩
    · split
      · split
        · exact ⟨rfl, rfl⟩
        · split
          · exact ⟨rfl, rfl⟩
          · exact hjoined peerId
      · split
        · exact ⟨rfl, rfl⟩
        · exact hjoined peerId

/-! ## The hooks -/

/-- One of the two integrity warnings. -/
def PersistedMessage.isWarning (row : PersistedMessage) : Bool :=
  row.text = equivocationText || row.text = memberSetMismatchText

/-- No integrity warning in the log. -/
def ChatGroup.Unwarned (g : ChatGroup) : Prop := ∀ row ∈ g.log, row.isWarning = false

/-- `h` is `g` with other sender-key bookkeeping and more rows in the log, none of
them a warning. -/
structure Keeps (g h : ChatGroup) : Prop where
  id : h.id = g.id
  displayName : h.displayName = g.displayName
  members : h.members = g.members
  currentEpoch : h.currentEpoch = g.currentEpoch
  lastOpDigest : h.lastOpDigest = g.lastOpDigest
  pendingOps : h.pendingOps = g.pendingOps
  recentOpDigests : h.recentOpDigests = g.recentOpDigests
  pendingInvitation : h.pendingInvitation = g.pendingInvitation
  log : g.Unwarned → h.Unwarned

theorem Keeps.refl (g : ChatGroup) : Keeps g g :=
  ⟨rfl, rfl, rfl, rfl, rfl, rfl, rfl, rfl, fun hg => hg⟩

theorem Keeps.trans (hgh : Keeps g h) (hhk : Keeps h k) : Keeps g k where
  id := hhk.id.trans hgh.id
  displayName := hhk.displayName.trans hgh.displayName
  members := hhk.members.trans hgh.members
  currentEpoch := hhk.currentEpoch.trans hgh.currentEpoch
  lastOpDigest := hhk.lastOpDigest.trans hgh.lastOpDigest
  pendingOps := hhk.pendingOps.trans hgh.pendingOps
  recentOpDigests := hhk.recentOpDigests.trans hgh.recentOpDigests
  pendingInvitation := hhk.pendingInvitation.trans hgh.pendingInvitation
  log := fun hg => hhk.log (hgh.log hg)

theorem Unwarned.appendSystem {text : String} (hg : g.Unwarned)
    (htext : text ≠ equivocationText ∧ text ≠ memberSetMismatchText) :
    (g.appendSystem text).Unwarned := by
  intro row hrow
  rcases List.mem_append.mp hrow with hold | hnew
  · exact hg row hold
  · rw [List.mem_singleton] at hnew
    rw [hnew, PersistedMessage.isWarning]
    simp [htext.1, htext.2]

theorem unverifiedText_ne (name : String) :
    unverifiedText name ≠ equivocationText ∧ unverifiedText name ≠ memberSetMismatchText := by
  -- the last four characters differ
  have hlast : (unverifiedText name).toList.reverse.take 4 = ".sah".toList := by
    rw [unverifiedText, String.toList_append, List.reverse_append, List.take_append_of_le_length]
    · decide +kernel
    · decide +kernel
  constructor
  · intro heq
    rw [heq] at hlast
    exact absurd hlast (by decide +kernel)
  · intro heq
    rw [heq] at hlast
    exact absurd hlast (by decide +kernel)

theorem surfaceUnverified_keeps (s : ChatStore) (peers : List Bytes) (g : ChatGroup) :
    Keeps g (s.surfaceUnverified peers g) := by
  induction peers generalizing g with
  | nil => exact Keeps.refl g
  | cons peer peers ih =>
    rw [surfaceUnverified]
    split
    · exact ih g
    · split
      · exact ih g
      · refine Keeps.trans ?_ (ih _)
        exact ⟨rfl, rfl, rfl, rfl, rfl, rfl, rfl, rfl,
          fun hg => Unwarned.appendSystem hg (unverifiedText_ne _)⟩

/-- Shipping a key leaves the chain alone; what it sends is `first` and keys. -/
theorem shipKey_keeps (s : ChatStore) (skdm : Bytes) (first : Bytes → List Frame)
    (peers : List Bytes) (g : ChatGroup) :
    Keeps g (s.shipKey skdm first peers g).1 ∧
      ∀ f ∈ (s.shipKey skdm first peers g).2,
        f.kind = .groupKeyDistribution ∨ ∃ peer ∈ peers, f ∈ first peer := by
  induction peers generalizing g with
  | nil => exact ⟨Keeps.refl g, fun f hf => absurd hf List.not_mem_nil⟩
  | cons peer peers ih =>
    have hone : Keeps g (s.broadcastSenderKeyDistribution skdm peer g).1 ∧
        ∀ f ∈ (s.broadcastSenderKeyDistribution skdm peer g).2,
          f.kind = .groupKeyDistribution := by
      rw [broadcastSenderKeyDistribution]
      split
      · refine ⟨⟨rfl, rfl, rfl, rfl, rfl, rfl, rfl, rfl, fun hg => hg⟩, fun f hf => ?_⟩
        rw [List.mem_singleton.mp hf]
      · exact ⟨Keeps.refl g, fun f hf => absurd hf List.not_mem_nil⟩
    obtain ⟨hkeeps, hframes⟩ := ih (s.broadcastSenderKeyDistribution skdm peer g).1
    refine ⟨hone.1.trans hkeeps, fun f hf => ?_⟩
    rw [shipKey, List.mem_append, List.mem_append] at hf
    rcases hf with (hfirst | hkey) | hrest
    · exact .inr ⟨peer, List.mem_cons_self, hfirst⟩
    · exact .inl (hone.2 f hkey)
    · rcases hframes f hrest with hkind | ⟨p, hp, hfirst⟩
      · exact .inl hkind
      · exact .inr ⟨p, List.mem_cons_of_mem _ hp, hfirst⟩

theorem ensureMySKDM_keeps (s : ChatStore) (session : Session) (g : ChatGroup) :
    Keeps g (s.ensureMySKDMReachesActiveMembers session g).1 ∧
      ∀ f ∈ (s.ensureMySKDMReachesActiveMembers session g).2, f.kind = .groupKeyDistribution := by
  have hnothing : Keeps g g ∧ ∀ f ∈ ([] : List Frame), f.kind = .groupKeyDistribution :=
    ⟨Keeps.refl g, fun f hf => absurd hf List.not_mem_nil⟩
  rw [ensureMySKDMReachesActiveMembers]
  split
  · dsimp only
    split
    · exact hnothing
    · split
      · exact hnothing
      · obtain ⟨hkeeps, hframes⟩ := shipKey_keeps s ‹Bytes› (fun _ => []) _ g
        refine ⟨hkeeps, fun f hf => ?_⟩
        rcases hframes f hf with hkind | ⟨p, -, hnone⟩
        · exact hkind
        · exact absurd hnone List.not_mem_nil
  · exact hnothing

/-- The hooks do not touch the chain when no rotation is due. -/
theorem applyPostMutationSideEffects_quiet (env : GroupEnv) (amb : Ambient) (session : Session)
    (g : ChatGroup) (sx : ApplySideEffects) (s : ChatStore)
    (hclear : sx.requestSelfChainClear = false)
    (hrotate : sx.requestSelfRotation = false ∨ g.pendingInvitation = true) :
    ∃ g' frames, applyPostMutationSideEffects env amb session g sx s =
        some (s.setGroup g', frames) ∧
      Keeps g g' ∧ ∀ f ∈ frames, f.kind = .groupKeyDistribution := by
  rw [applyPostMutationSideEffects]
  simp only [hclear, Bool.false_eq_true, if_false, false_and]
  split
  · exact ⟨g, [], rfl, Keeps.refl g, fun f hf => absurd hf List.not_mem_nil⟩
  · rename_i haccepted
    rcases hrotate with hno | hpending
    · rw [if_neg (by rw [hno]; exact Bool.false_ne_true)]
      obtain ⟨hkeeps, hframes⟩ := ensureMySKDM_keeps s session g
      exact ⟨_, _, rfl, hkeeps.trans (surfaceUnverified_keeps s _ _), hframes⟩
    · exact absurd hpending haccepted

end Pizzini.Group
