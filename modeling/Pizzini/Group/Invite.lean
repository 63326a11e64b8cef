import Mathlib.Data.List.Permutation
import Pizzini.Group.BootstrapCheck
import Pizzini.Group.Issue
import Pizzini.Group.Outsiders

/-!
# Inviting a contact

`inviteToGroup` adds a contact with an `AddMember` op and sends two things that
concern the newcomer: a snapshot of the group after the addition, and the op. A
newcomer that does not hold the group ends with the admin's view, in either order
of the two frames: the op is dropped before the snapshot and a duplicate after it.

Two kinds of newcomers are left behind (`invited_sharesView_iff`). One that still
holds the group ignores the snapshot, and the op takes effect only if its group is
where the admin's was before the op (`CaughtUp`). It is not as long as its own row
is not removed there, however far it has rotated on a chain of its own, and nobody
sends it the op that removed it. And a table of more than fifty rows, removed ones
included, has no snapshot.
-/

namespace Pizzini.Group

open Wire ChatGroup ChatStore

variable {env : GroupEnv} {amb : Ambient} {s t : ChatStore} {g h : ChatGroup} {op : GroupOp}
  {b : GroupBootstrap} {me p groupId : Bytes} {session : Session} {frames : List Frame}

/-! ## When a snapshot encodes -/

/-- The names and ids of a row fit their fields on the wire. -/
structure GroupMember.FitsWire (m : GroupMember) : Prop where
  name : (utf8 m.displayName).length ≤ 65535
  addedBy : ∀ added, m.addedBy = some added → added.length = identityKeySize

instance (m : GroupMember) : Decidable m.FitsWire :=
  decidable_of_iff
    ((utf8 m.displayName).length ≤ 65535 ∧
      ∀ added ∈ m.addedBy.toList, added.length = identityKeySize)
    ⟨fun h => ⟨h.1, by simpa using h.2⟩, fun h => ⟨h.name, by simpa using h.addedBy⟩⟩

theorem writeText_ok_iff (text : String) :
    (∃ bs, writeText text = .ok bs) ↔ (utf8 text).length ≤ 65535 := by
  constructor
  · rintro ⟨bs, hbs⟩
    exact (writeUTF8U16LenBlob_eq_ok (writeText_eq_ok.mp hbs)).1
  · intro hlen
    exact ⟨_, writeText_eq_ok.mpr (bind_eq_ok.mpr ⟨(), require_eq_ok.mpr hlen, rfl⟩)⟩

theorem row_encoded_ok_iff (m : GroupMember) :
    (∃ bs, m.encoded = .ok bs) ↔ m.peerId.length = identityKeySize ∧ m.FitsWire := by
  constructor
  · rintro ⟨bs, hbs⟩
    obtain ⟨_, hsize, hbs⟩ := bind_eq_ok.mp hbs
    obtain ⟨added, hadded, hbs⟩ := bind_eq_ok.mp hbs
    obtain ⟨name, hname, -⟩ := bind_eq_ok.mp hbs
    refine ⟨requireB_eq_ok.mp hsize, (writeText_ok_iff _).mp ⟨name, hname⟩, ?_⟩
    intro a ha
    rw [ha] at hadded
    obtain ⟨_, hlen, -⟩ := bind_eq_ok.mp hadded
    exact requireB_eq_ok.mp hlen
  · rintro ⟨hsize, hfits⟩
    obtain ⟨name, hname⟩ := (writeText_ok_iff _).mpr hfits.name
    obtain ⟨added, hadded⟩ : ∃ bs, encodedAddedBy m.addedBy = .ok bs := by
      cases ha : m.addedBy with
      | none => exact ⟨_, rfl⟩
      | some a =>
        exact ⟨_, bind_eq_ok.mpr ⟨(), requireB_eq_ok.mpr (hfits.addedBy a ha), rfl⟩⟩
    exact ⟨_, bind_eq_ok.mpr ⟨(), requireB_eq_ok.mpr hsize,
      bind_eq_ok.mpr ⟨added, hadded, bind_eq_ok.mpr ⟨name, hname, rfl⟩⟩⟩⟩

theorem mapM_ok_iff {ε α β : Type} (f : α → Except ε β) (l : List α) :
    (∃ bs, l.mapM f = .ok bs) ↔ ∀ a ∈ l, ∃ b, f a = .ok b := by
  induction l with
  | nil => exact ⟨fun _ a ha => absurd ha List.not_mem_nil, fun _ => ⟨[], rfl⟩⟩
  | cons a l ih =>
    rw [List.forall_mem_cons, ← ih, List.mapM_cons]
    constructor
    · rintro ⟨bs, hbs⟩
      obtain ⟨b, hb, hbs⟩ := bind_eq_ok.mp hbs
      obtain ⟨rest, hrest, -⟩ := bind_eq_ok.mp hbs
      exact ⟨⟨b, hb⟩, rest, hrest⟩
    · rintro ⟨⟨b, hb⟩, rest, hrest⟩
      exact ⟨_, bind_eq_ok.mpr ⟨b, hb, bind_eq_ok.mpr ⟨rest, hrest, rfl⟩⟩⟩

/-- What a snapshot needs to have a header. -/
theorem snapshot_header_ok_iff (b : GroupBootstrap) :
    (∃ header, b.encodedHeader = .ok header) ↔
      (b.groupId.length = groupIdSize ∧ b.lastOpDigest.length = parentDigestSize ∧
        b.operatorIdentity.length = identityKeySize ∧
        b.memberSetRoot.length = memberSetRootSize) ∧
      b.members.length ≤ maxMembers ∧ (utf8 b.displayName).length ≤ 65535 ∧
      ∀ m ∈ b.members, m.peerId.length = identityKeySize ∧ m.FitsWire := by
  constructor
  · rintro ⟨header, hheader⟩
    obtain ⟨_, hid, hheader⟩ := bind_eq_ok.mp hheader
    obtain ⟨_, hlast, hheader⟩ := bind_eq_ok.mp hheader
    obtain ⟨_, hoperator, hheader⟩ := bind_eq_ok.mp hheader
    obtain ⟨_, hcount, hheader⟩ := bind_eq_ok.mp hheader
    obtain ⟨_, hroot, hheader⟩ := bind_eq_ok.mp hheader
    obtain ⟨name, hname, hheader⟩ := bind_eq_ok.mp hheader
    obtain ⟨rows, hrows, -⟩ := bind_eq_ok.mp hheader
    rw [requireB_eq_ok] at hid hlast hoperator hcount hroot
    refine ⟨⟨hid, hlast, hoperator, hroot⟩, hcount, (writeText_ok_iff _).mp ⟨name, hname⟩, ?_⟩
    intro m hm
    exact (row_encoded_ok_iff m).mp ((mapM_ok_iff _ _).mp ⟨rows, hrows⟩ m hm)
  · rintro ⟨⟨hid, hlast, hoperator, hroot⟩, hcount, hname, hrows⟩
    obtain ⟨name, hname⟩ := (writeText_ok_iff _).mpr hname
    obtain ⟨rows, hrows⟩ :=
      (mapM_ok_iff _ _).mpr fun m hm => (row_encoded_ok_iff m).mpr (hrows m hm)
    exact ⟨_, bind_eq_ok.mpr ⟨(), requireB_eq_ok.mpr hid,
      bind_eq_ok.mpr ⟨(), requireB_eq_ok.mpr hlast,
        bind_eq_ok.mpr ⟨(), requireB_eq_ok.mpr hoperator,
          bind_eq_ok.mpr ⟨(), requireB_eq_ok.mpr hcount,
            bind_eq_ok.mpr ⟨(), requireB_eq_ok.mpr hroot,
              bind_eq_ok.mpr ⟨name, hname, bind_eq_ok.mpr ⟨rows, hrows, rfl⟩⟩⟩⟩⟩⟩⟩⟩

/-! ## The signed snapshot -/

/-- `b` is a signed snapshot of `g`. -/
structure Snapshots (env : GroupEnv) (me : Bytes) (g : ChatGroup) (b : GroupBootstrap)
    (bytes : Bytes) : Prop where
  groupId : b.groupId = g.id
  members : b.members = g.members
  currentEpoch : b.currentEpoch = g.currentEpoch
  lastOpDigest : b.lastOpDigest = g.lastOpDigest
  operator : b.operatorIdentity = me
  root : g.memberSetRoot env = some b.memberSetRoot
  encoded : b.encoded = .ok bytes
  signed : b.verifySignature env = true

/-- `signBootstrap` makes a snapshot if the table fits, and nothing otherwise. -/
theorem signBootstrap_cases (hsigns : SignsFor env me session) {now : UInt64}
    {snapshot : Option GroupBootstrap}
    (hsign : signBootstrap env session g me now = some snapshot)
    (hid : g.id.length = groupIdSize) (hlast : g.lastOpDigest.length = parentDigestSize)
    (hme : me.length = identityKeySize) :
    (∃ b bytes, snapshot = some b ∧ Snapshots env me g b bytes) ∧
        (g.members.length ≤ maxMembers ∧ (utf8 g.displayName).length ≤ 65535 ∧
          ∀ m ∈ g.members, m.FitsWire) ∨
      snapshot = none ∧
        ¬ (g.members.length ≤ maxMembers ∧ (utf8 g.displayName).length ≤ 65535 ∧
          ∀ m ∈ g.members, m.FitsWire) := by
  obtain ⟨root, hroot, hsign⟩ := Option.map_eq_some_iff.mp hsign
  obtain ⟨unsigned, hunsigned⟩ : ∃ b : GroupBootstrap, b =
      ⟨g.id, g.displayName, g.members, g.currentEpoch, g.lastOpDigest, me, now, root,
        List.replicate signatureSize 0⟩ := ⟨_, rfl⟩
  have hsizes : ∀ m ∈ g.members, m.peerId.length = identityKeySize := by
    rw [memberSetRoot, memberSetRootOf] at hroot
    split at hroot
    · rename_i htable
      exact htable.2
    · cases hroot
  have hiff : (∃ header, unsigned.encodedHeader = .ok header) ↔
      g.members.length ≤ maxMembers ∧ (utf8 g.displayName).length ≤ 65535 ∧
        ∀ m ∈ g.members, m.FitsWire := by
    rw [snapshot_header_ok_iff, hunsigned]
    constructor
    · rintro ⟨-, hcount, hname, hrows⟩
      exact ⟨hcount, hname, fun m hm => (hrows m hm).2⟩
    · rintro ⟨hcount, hname, hrows⟩
      exact ⟨⟨hid, hlast, hme, length_memberSetRootOf hroot⟩, hcount, hname,
        fun m hm => ⟨hsizes m hm, hrows m hm⟩⟩
  rw [← hiff]
  dsimp only at hsign
  rw [← hunsigned] at hsign
  cases hheader : unsigned.encodedHeader with
  | error e =>
    rw [hheader] at hsign
    cases hsign
    exact .inr ⟨rfl, by rintro ⟨header, hok⟩; cases hok⟩
  | ok header =>
    obtain ⟨sig, hsig, hlen, hverify⟩ := hsigns.groupBootstrap header
    rw [hheader] at hsign
    simp only [hsig, Option.map_some] at hsign
    subst hunsigned
    refine .inl ⟨⟨_, header ++ sig, hsign.symm, ?_⟩, header, rfl⟩
    constructor
    · rfl
    · rfl
    · rfl
    · rfl
    · rfl
    · exact hroot
    · exact bind_eq_ok.mpr ⟨header, hheader, bind_eq_ok.mpr ⟨(), requireB_eq_ok.mpr hlen, rfl⟩⟩
    · have hsame : GroupBootstrap.encodedHeader
          ⟨g.id, g.displayName, g.members, g.currentEpoch, g.lastOpDigest, me, now, root, sig⟩ =
            .ok header := hheader
      rw [GroupBootstrap.verifySignature, hsame]
      exact hverify

/-! ## The rows after an addition -/

theorem updateFirst_perm_eraseP {q : GroupMember → Bool} {row : GroupMember} :
    ∀ {members : List GroupMember}, members.any q = true →
      (updateFirst q (fun _ => row) members).Perm (row :: members.eraseP q)
  | [], hany => by cases hany
  | m :: members, hany => by
    rw [updateFirst_cons]
    by_cases hm : q m = true
    · rw [if_pos hm, List.eraseP_cons_of_pos hm]
    · rw [List.any_cons, Bool.or_eq_true_iff] at hany
      rw [if_neg hm, List.eraseP_cons_of_neg hm]
      exact ((updateFirst_perm_eraseP (hany.resolve_left hm)).cons m).trans (.swap row m _)

theorem find?_updateFirst_row {q : GroupMember → Bool} {row : GroupMember} (hrow : q row = true) :
    ∀ {members : List GroupMember}, members.any q = true →
      (updateFirst q (fun _ => row) members).find? q = some row
  | [], hany => by cases hany
  | m :: members, hany => by
    rw [updateFirst_cons]
    by_cases hm : q m = true
    · rw [if_pos hm, List.find?_cons_of_pos hrow]
    · rw [List.any_cons, Bool.or_eq_true_iff] at hany
      rw [if_neg hm, List.find?_cons_of_neg hm]
      exact find?_updateFirst_row hrow (hany.resolve_left hm)

/-- The row that an `AddMember` op writes. -/
def addedRow (op : GroupOp) (peerId : Bytes) (role : GroupRole) (name : String) : GroupMember :=
  ⟨peerId, name, role, op.epoch, .pendingSKDM, some op.operatorIdentity⟩

/-- The table after an addition: the new row, and every row but the first of `p`. -/
theorem ChatGroup.Lands.added_rows {d : Bytes} {name : String} {role : GroupRole}
    (hlands : Lands env op d g h) (hkind : op.kind = .addMember p role name) :
    h.members.Perm (addedRow op p role name :: g.members.eraseP fun m => m.peerId = p) ∧
      h.members.find? (fun m => m.peerId = p) = some (addedRow op p role name) ∧
      h.displayName = g.displayName := by
  have hself : decide ((addedRow op p role name).peerId = p) = true := decide_eq_true rfl
  obtain ⟨g₁, hmutate, rfl⟩ := hlands.mutated
  cases mutate_effect hmutate with
  | readd kind size found removed cap =>
    obtain ⟨rfl, rfl, rfl⟩ : p = _ ∧ role = _ ∧ name = _ := by
      simpa using hkind.symm.trans kind
    have hany : g.members.any (fun m => decide (m.peerId = p)) = true :=
      List.any_eq_true.mpr ⟨_, List.mem_of_find?_eq_some found, by simpa using List.find?_some found⟩
    exact ⟨updateFirst_perm_eraseP hany, find?_updateFirst_row hself hany, rfl⟩
  | add kind size absent cap =>
    obtain ⟨rfl, rfl, rfl⟩ : p = _ ∧ role = _ ∧ name = _ := by
      simpa using hkind.symm.trans kind
    have hnone : ∀ m ∈ g.members, ¬ decide (m.peerId = p) = true := by
      simpa using List.find?_eq_none.mp absent
    refine ⟨?_, ?_, rfl⟩
    · rw [List.eraseP_of_forall_not hnone]
      exact List.perm_append_singleton _ _
    · show (g.members ++ [addedRow op p role name]).find? _ = _
      rw [List.find?_append, absent, Option.none_or, List.find?_singleton, if_pos hself]
  | remove kind | rename kind | promote kind | demote kind | rotate kind =>
    rw [hkind] at kind
    cases kind

/-! ## The admin's side -/

/-- What a successful invitation of `p` does: `op` takes `g` to `g₁`, the admin
holds `g₁` up to its queue and bookkeeping, and the frames are the snapshot, the
op and sender keys. -/
structure Invitation (env : GroupEnv) (me p : Bytes) (name : String) (groupId : Bytes)
    (s s' : ChatStore) (g g₁ : ChatGroup) (op : GroupOp) (snapshot : Option GroupBootstrap)
    (frames : List Frame) : Prop where
  issued : Issued env me (.addMember p .member name) g op
  lands : Lands env op (env.hash op.wire) g g₁
  notIn : g.hasMember p = false
  contact : s.isContact p = true
  held : ∃ kept g', s'.findGroup groupId = some g' ∧ Keeps (g₁.withPending kept) g'
  sent : ∃ keys, frames = (snapshot.toList.flatMap fun b => s.broadcastGroupBootstrap b p) ++
      s.broadcastToOthers g₁ me op.wire ++ keys ∧ ∀ f ∈ keys, f.kind = .groupKeyDistribution

theorem inviteToGroup_spec {s' : ChatStore} {contact : Contact}
    (hsession : s.session = some session) (hme : s.myCard = some me)
    (hfind : s.findGroup groupId = some g) (hsigns : SignsFor env me session)
    (hinvite : s.inviteToGroup env amb groupId contact = some (true, s', frames))
    (hfresh : ∀ op, signNext env session me
        (.addMember contact.identityPub .member contact.displayName) amb.now g = some (some op) →
      NoChild g.pendingOps (env.hash op.wire)) :
    ∃ op g₁ snapshot,
      Invitation env me contact.identityPub contact.displayName groupId s s' g g₁ op snapshot
        frames ∧
      signBootstrap env session g₁ me amb.bootstrapNow = some snapshot ∧
      signNext env session me (.addMember contact.identityPub .member contact.displayName)
        amb.now g = some (some op) := by
  rw [inviteToGroup, hsession, hme, hfind] at hinvite
  dsimp only at hinvite
  split at hinvite
  · cases hinvite
  split at hinvite
  · cases hinvite
  rename_i hcontact
  split at hinvite
  · cases hinvite
  split at hinvite
  · cases hinvite
  rename_i hnotIn
  split at hinvite
  · cases hinvite
  · cases hinvite
  rename_i op hsign
  have hissued := signNext_issued hsigns hsign
  have hkind : ∀ peerId, op.kind ≠ .removeMember peerId := by
    intro peerId
    rw [hissued.kind]
    simp
  rcases hissued.apply_cases rfl rfl rfl rfl (hfresh op hsign) { localIdentityPub := some me } with
    ⟨g₁, kept, epoch, hlands, happly⟩ | ⟨outcome, sx', happly, hrefused⟩
  · rw [happly, hissued.encoded] at hinvite
    dsimp only at hinvite
    cases hsnapshot : signBootstrap env session (g₁.withPending kept) me amb.bootstrapNow with
    | none =>
      rw [hsnapshot] at hinvite
      cases hinvite
    | some snapshot =>
      rw [hsnapshot] at hinvite
      dsimp only at hinvite
      obtain ⟨hrotation, hclear⟩ :=
        executeMutation_flags hkind g { localIdentityPub := some me }
      obtain ⟨g', keys, hhooks, hkeeps, hkeys⟩ := applyPostMutationSideEffects_quiet env amb session
        (g₁.withPending kept) { (g.executeMutation op { localIdentityPub := some me }).2.2 with
          equivocationEpoch := epoch } (s.setGroup (g₁.withPending kept)) hclear (.inl hrotation)
      rw [hhooks] at hinvite
      cases hinvite
      have hid : (g₁.withPending kept).id = groupId := by
        rw [withPending_id, hlands.frame.1]
        exact findGroup_id hfind
      refine ⟨op, g₁, snapshot, ?_, hsnapshot, hsign⟩
      constructor
      · exact hissued
      · exact hlands
      · exact Bool.eq_false_iff.mpr hnotIn
      · exact Classical.not_not.mp hcontact
      · refine ⟨kept, g', ?_, hkeeps⟩
        exact findGroup_setGroup (findGroup_setGroup hfind hid) (hkeeps.id.trans hid)
      · exact ⟨keys, rfl, hkeys⟩
  · -- a refused op ends the call
    rw [happly] at hinvite
    rcases hrefused with rfl | ⟨reason, rfl⟩
    · cases hinvite
    · cases hinvite

/-! ## The frames to the newcomer -/

/-- The frames to `p` that carry a snapshot or an op. -/
def framesTo (p : Bytes) (frames : List Frame) : List Frame :=
  frames.filter fun f => f.recipient = p && f.kind ≠ .groupKeyDistribution

theorem framesTo_broadcast (hcontact : s.isContact p = true) (bytes : Bytes) (peers : List Bytes) :
    framesTo p (peers.flatMap (s.broadcastGroupOp bytes)) =
      List.replicate (peers.count p) ⟨p, .groupOp, bytes⟩ := by
  induction peers with
  | nil => rfl
  | cons peer peers ih =>
    rw [framesTo] at ih ⊢
    rw [List.flatMap_cons, List.filter_append, ih, broadcastGroupOp, List.count_cons]
    by_cases hp : peer = p
    · subst hp
      rw [if_pos hcontact]
      simp [List.replicate_succ]
    · have hnone : (if s.isContact peer = true then [Frame.mk peer .groupOp bytes] else []).filter
          (fun f => f.recipient = p && f.kind ≠ .groupKeyDistribution) = [] := by
        split
        · simp [hp]
        · rfl
      rw [hnone]
      simp [hp]

namespace Invitation

variable {s' : ChatStore} {name : String} {g₁ : ChatGroup} {snapshot : Option GroupBootstrap}

theorem ne_me (hinv : Invitation env me p name groupId s s' g g₁ op snapshot frames) : p ≠ me := by
  rintro rfl
  have hauth := hinv.lands.authorised
  rw [hinv.issued.operator, hinv.issued.kind] at hauth
  have hmember : g.hasMember p = true := hasMember_of_hasAdmin hauth
  rw [hinv.notIn] at hmember
  cases hmember

/-- The op goes to the newcomer once. -/
theorem count_others (hinv : Invitation env me p name groupId s s' g g₁ op snapshot frames) :
    (others g₁ me).count p = 1 := by
  obtain ⟨hperm, -, -⟩ := hinv.lands.added_rows hinv.issued.kind
  have hactive := (hperm.filter fun m => m.status ≠ .removed).map GroupMember.peerId
  have hnone : p ∉ ((g.members.eraseP fun m => m.peerId = p).filter
      fun m => m.status ≠ .removed).map GroupMember.peerId := by
    intro hmem
    obtain ⟨m, hm, hid⟩ := List.mem_map.mp hmem
    obtain ⟨hm, hstatus⟩ := List.mem_filter.mp hm
    have hyes : g.hasMember p = true :=
      hasMember_iff.mpr ⟨m, List.mem_of_mem_eraseP hm, hid, by simpa using hstatus⟩
    rw [hinv.notIn] at hyes
    cases hyes
  rw [others, List.count_filter (by simpa using hinv.ne_me), activeMembers, hactive.count_eq,
    List.filter_cons_of_pos (by simp [addedRow]), List.map_cons]
  show List.count p (p :: _) = 1
  rw [List.count_cons_self, List.count_eq_zero.mpr hnone]

/-- The snapshot, if there is one, and the op. -/
theorem framesTo_eq (hinv : Invitation env me p name groupId s s' g g₁ op snapshot frames) :
    framesTo p frames =
      framesTo p (snapshot.toList.flatMap fun b => s.broadcastGroupBootstrap b p) ++
        [⟨p, .groupOp, op.wire⟩] := by
  obtain ⟨keys, hframes, hkeys⟩ := hinv.sent
  have hnone : framesTo p keys = [] := by
    rw [framesTo, List.filter_eq_nil_iff]
    intro f hf
    simp [hkeys f hf]
  have hops : framesTo p (s.broadcastToOthers g₁ me op.wire) = [⟨p, .groupOp, op.wire⟩] := by
    rw [broadcastToOthers, framesTo_broadcast hinv.contact, hinv.count_others]
    rfl
  rw [hframes, framesTo, List.filter_append, List.filter_append]
  rw [framesTo] at hnone hops
  rw [hnone, hops, List.append_nil]
  rfl

end Invitation

/-! ## The newcomer's side -/

/-- The frames arrive one after the other; what the newcomer sends is left out. -/
def deliver (env : GroupEnv) (amb : Ambient) (sender : Bytes) :
    List Frame → ChatStore → Option ChatStore
  | [], t => some t
  | f :: fs, t => (t.receive env amb sender f).bind fun r => deliver env amb sender fs r.1

/-- `t` holds the group with the view that `s` has of it. -/
def SharesView (env : GroupEnv) (groupId : Bytes) (s t : ChatStore) : Prop :=
  ∃ g h, s.findGroup groupId = some g ∧ t.findGroup groupId = some h ∧
    h.currentEpoch = g.currentEpoch ∧ h.lastOpDigest = g.lastOpDigest ∧
    h.memberSetRoot env = g.memberSetRoot env

/-- A device that is up, whose user is `p` and has paired with `me`. -/
structure Ready (p me : Bytes) (t : ChatStore) : Prop where
  session : ∃ session, t.session = some session
  card : t.myCard = some p
  relays : t.readyRelays = true
  contact : t.isContact me = true

/-- An op that is not a `Create` is dropped by a device without the group. -/
theorem handleGroupOp_absent {payload sender : Bytes} (hready : Ready p me t)
    (hdecode : GroupOp.decode payload = some op) (hkind : ∀ name ms, op.kind ≠ .create name ms)
    (habsent : t.findGroup op.groupId = none) :
    t.handleGroupOp env amb payload sender = some (t, []) := by
  obtain ⟨session, hsession⟩ := hready.session
  rw [handleGroupOp, hsession, hready.card]
  simp only [hready.relays, not_true_eq_false, if_false, hdecode]
  cases hop : op.kind with
  | create name ms => exact absurd hop (hkind name ms)
  | _ => simp only [habsent]

/-- On a device with the group it is applied. -/
theorem handleGroupOp_held (env : GroupEnv) (amb : Ambient) (sender : Bytes) {payload : Bytes}
    (hready : Ready p me t)
    (hdecode : GroupOp.decode payload = some op) (hkind : ∀ name ms, op.kind ≠ .create name ms)
    (hheld : t.findGroup op.groupId = some h) :
    ∃ session, t.session = some session ∧ t.handleGroupOp env amb payload sender =
      match h.apply env op { localIdentityPub := some p } with
      | none => none
      | some (.applied _, h', sx) =>
        applyPostMutationSideEffects env amb session h' sx (t.setGroup h')
      | some (outcome, h', _) =>
        some (t.setGroup ((outcomeText outcome).elim h' h'.appendSystem), []) := by
  obtain ⟨session, hsession⟩ := hready.session
  refine ⟨session, hsession, ?_⟩
  rw [handleGroupOp, hsession, hready.card]
  simp only [hready.relays, not_true_eq_false, if_false, hdecode]
  cases hop : op.kind with
  | create name ms => exact absurd hop (hkind name ms)
  | _ =>
    generalize t.findGroup op.groupId = found at hheld
    subst hheld
    rfl

theorem encoded_sizes {bytes : Bytes} (hencoded : op.encoded = .ok bytes) :
    op.groupId.length = groupIdSize ∧ op.operatorIdentity.length = identityKeySize ∧
      ∃ payload, op.kind.encodedPayload = .ok payload := by
  obtain ⟨header, hheader, -⟩ := bind_eq_ok.mp hencoded
  obtain ⟨_, hid, hheader⟩ := bind_eq_ok.mp hheader
  obtain ⟨_, _, hheader⟩ := bind_eq_ok.mp hheader
  obtain ⟨_, hoperator, hheader⟩ := bind_eq_ok.mp hheader
  obtain ⟨_, _, hheader⟩ := bind_eq_ok.mp hheader
  obtain ⟨payload, hpayload, -⟩ := bind_eq_ok.mp hheader
  exact ⟨require_eq_ok.mp hid, require_eq_ok.mp hoperator, payload, hpayload⟩

/-- The table of `g` with `p` in it can be put into a snapshot: it has at most
fifty rows, removed ones included, and its names and ids fit the wire. -/
structure SnapshotFits (g : ChatGroup) (p : Bytes) : Prop where
  rows : (g.members.eraseP fun m => m.peerId = p).length < maxMembers
  name : (utf8 g.displayName).length ≤ 65535
  fits : ∀ m ∈ g.members.eraseP (fun m => m.peerId = p), m.FitsWire

namespace Invitation

variable {s' : ChatStore} {name : String} {g₁ : ChatGroup} {snapshot : Option GroupBootstrap}
  {bytes : Bytes}

theorem decode_wire (hinv : Invitation env me p name groupId s s' g g₁ op snapshot frames) :
    GroupOp.decode op.wire = some op := GroupOp.decode_encoded hinv.issued.encoded

theorem not_create (hinv : Invitation env me p name groupId s s' g g₁ op snapshot frames) :
    ∀ name ms, op.kind ≠ .create name ms := by
  intro name ms
  rw [hinv.issued.kind]
  simp

/-- The table after the addition fits a snapshot if the one before does. -/
theorem fits_iff (hinv : Invitation env me p name groupId s s' g g₁ op snapshot frames) :
    (g₁.members.length ≤ maxMembers ∧ (utf8 g₁.displayName).length ≤ 65535 ∧
      ∀ m ∈ g₁.members, m.FitsWire) ↔ SnapshotFits g p := by
  obtain ⟨hperm, -, hdisplay⟩ := hinv.lands.added_rows hinv.issued.kind
  obtain ⟨-, hme, payload, hpayload⟩ := encoded_sizes hinv.issued.encoded
  have hrow : (addedRow op p .member name).FitsWire := by
    constructor
    · rw [hinv.issued.kind] at hpayload
      obtain ⟨_, _, hpayload⟩ := bind_eq_ok.mp hpayload
      obtain ⟨nameBytes, hname, -⟩ := bind_eq_ok.mp hpayload
      exact (writeUTF8U16LenBlob_eq_ok hname).1
    · intro added hadded
      cases hadded
      exact hme
  have hmem : (∀ m ∈ g₁.members, m.FitsWire) ↔
      ∀ m ∈ g.members.eraseP (fun m => m.peerId = p), m.FitsWire := by
    constructor
    · intro hall m hm
      exact hall m (hperm.mem_iff.mpr (List.mem_cons_of_mem _ hm))
    · intro hall m hm
      rcases List.mem_cons.mp (hperm.mem_iff.mp hm) with rfl | hm
      · exact hrow
      · exact hall m hm
  rw [hperm.length_eq, List.length_cons, hdisplay, hmem]
  constructor
  · rintro ⟨hrows, hname, hfits⟩
    exact ⟨hrows, hname, hfits⟩
  · intro hfits
    exact ⟨hfits.rows, hfits.name, hfits.fits⟩

/-- The snapshot passes the newcomer's guards. -/
theorem admits (hinv : Invitation env me p name groupId s s' g g₁ op snapshot frames)
    (hready : Ready p me t) (hsnap : Snapshots env me g₁ b bytes) :
    Admits env t (withGroupId b.groupId bytes) me p b := by
  obtain ⟨hperm, -, -⟩ := hinv.lands.added_rows hinv.issued.kind
  have hsize : b.groupId.length = groupIdSize := by
    rw [hsnap.groupId, hinv.lands.frame.1, ← hinv.issued.groupId]
    exact (encoded_sizes hinv.issued.encoded).1
  constructor
  · exact hready.card
  · rw [snapshotOf, splitGroupId, withGroupId, takeBytes_append hsize, Option.bind_some,
      GroupBootstrap.decode_encoded hsnap.encoded, Option.map_some]
  · exact hsnap.operator.symm
  · rw [hsnap.operator]
    exact hready.contact
  · exact hsnap.signed
  · have hroot := hsnap.root
    rw [memberSetRoot, ← hsnap.members] at hroot
    rw [GroupBootstrap.verifyMemberSetRoot, hroot]
    simp
  · -- the admin's row is still there
    have hauth := hinv.lands.authorised
    rw [hinv.issued.operator, hinv.issued.kind] at hauth
    obtain ⟨m, hm, hadmin⟩ := List.any_eq_true.mp (show g.hasAdmin me = true from hauth)
    have hid : m.peerId = me := by
      have : (m.peerId = me ∧ m.role = .admin) ∧ m.status ≠ .removed := by simpa using hadmin
      exact this.1.1
    have hkept : m ∈ g.members.eraseP fun m => m.peerId = p := by
      refine (List.mem_eraseP_of_neg ?_).mpr hm
      rw [hid]
      simpa using Ne.symm hinv.ne_me
    rw [GroupBootstrap.hasAdmin, hsnap.operator, hsnap.members]
    exact List.any_eq_true.mpr ⟨m, hperm.mem_iff.mpr (List.mem_cons_of_mem _ hkept), hadmin⟩
  · rw [hsnap.members]
    exact List.any_eq_true.mpr
      ⟨_, hperm.mem_iff.mpr List.mem_cons_self, decide_eq_true rfl⟩

/-- The newcomer without the group makes it from the snapshot. -/
theorem receive_snapshot (hinv : Invitation env me p name groupId s s' g g₁ op snapshot frames)
    (amb : Ambient) (hready : Ready p me t) (hsnap : Snapshots env me g₁ b bytes)
    (habsent : t.findGroup b.groupId = none) :
    ∃ h, b.intoChatGroup p = some h ∧
      t.receive env amb me ⟨p, .groupBootstrap, withGroupId b.groupId bytes⟩ =
        some ({ t with groups := t.groups ++ [h] }, []) := by
  obtain ⟨h, hinto, hhandle⟩ := (hinv.admits hready hsnap).handle_absent habsent
  refine ⟨h, hinto, ?_⟩
  show Option.map _ _ = _
  rw [hhandle]
  rfl

/-- The newcomer with the group ignores it. -/
theorem receive_snapshot_held (hinv : Invitation env me p name groupId s s' g g₁ op snapshot frames)
    (hready : Ready p me t) (hsnap : Snapshots env me g₁ b bytes)
    (hheld : t.findGroup b.groupId = some h) :
    t.receive env amb me ⟨p, .groupBootstrap, withGroupId b.groupId bytes⟩ = some (t, []) := by
  obtain ⟨h', -, hhandle⟩ := (hinv.admits hready hsnap).handle
  show Option.map _ _ = _
  rw [hhandle, hheld]
  rfl

/-- What the newcomer reads back from the snapshot. -/
theorem snapshot_group (hinv : Invitation env me p name groupId s s' g g₁ op snapshot frames)
    (hsnap : Snapshots env me g₁ b bytes) (hinto : b.intoChatGroup p = some h) :
    h.id = op.groupId ∧ h.members = g₁.members ∧ h.currentEpoch = op.epoch ∧
      h.lastOpDigest = env.hash op.wire ∧ h.digest op.epoch = some (env.hash op.wire) := by
  obtain ⟨hid, hepoch, hlast, -⟩ := hinv.lands.frame
  obtain ⟨hmembers, hcurrent, hrecent⟩ := intoChatGroup_fields hinto
  have hfields : h.id = b.groupId ∧ h.lastOpDigest = b.lastOpDigest := by
    rw [GroupBootstrap.intoChatGroup] at hinto
    split at hinto
    · cases hinto
    · cases hinto
      exact ⟨rfl, rfl⟩
  have hcurrent : h.currentEpoch = op.epoch := by
    rw [hcurrent, hsnap.currentEpoch, hepoch]
  have hlast : h.lastOpDigest = env.hash op.wire := by
    rw [hfields.2, hsnap.lastOpDigest, hlast]
  refine ⟨?_, ?_, hcurrent, hlast, ?_⟩
  · rw [hfields.1, hsnap.groupId, hid, hinv.issued.groupId]
  · rw [hmembers, hsnap.members]
  · rw [← hcurrent, hrecent, hlast]

/-- After the snapshot the op is a duplicate; at the last epoch it traps. -/
theorem receive_op_after (hinv : Invitation env me p name groupId s s' g g₁ op snapshot frames)
    (hready : Ready p me t) (hsnap : Snapshots env me g₁ b bytes)
    (hinto : b.intoChatGroup p = some h) (hheld : t.findGroup op.groupId = some h) :
    t.receive env amb me ⟨p, .groupOp, op.wire⟩ =
      if op.epoch.toNat + 1 < 2 ^ 64 then some (t.setGroup h, []) else none := by
  obtain ⟨hid, hmembers, hepoch, hlast, hdigest⟩ := hinv.snapshot_group hsnap hinto
  obtain ⟨session, -, hhandle⟩ := handleGroupOp_held env amb me hready hinv.decode_wire
    hinv.not_create hheld
  show handleGroupOp env amb op.wire me t = _
  rw [hhandle]
  by_cases hroom : op.epoch.toNat + 1 < 2 ^ 64
  · have hnext : nextEpoch h.currentEpoch = some (h.currentEpoch + 1) := by
      rw [nextEpoch, hepoch, if_pos hroom]
    have hvalue := nextEpoch_eq_some_iff.mp hnext
    have happly := apply_duplicate { localIdentityPub := some p } hid.symm
      hinv.issued.encoded hinv.issued.signed hnext
      (by rw [UInt64.lt_iff_toNat_lt, hvalue, hepoch]; omega)
      (by
        -- the newcomer's row is the one this op wrote
        intro joinedAt hjoined
        obtain ⟨-, hfind, -⟩ := hinv.lands.added_rows hinv.issued.kind
        simp only [localJoinedAt, Option.bind_some, hmembers, hfind, Option.map_some,
          Option.some.injEq] at hjoined
        rw [← hjoined]
        exact UInt64.lt_irrefl op.epoch)
      (by
        intro known hknown
        rw [hdigest] at hknown
        exact (Option.some.inj hknown).symm)
    rw [happly, if_pos hroom]
    rfl
  · have hnone : nextEpoch h.currentEpoch = none := by
      rw [nextEpoch, hepoch, if_neg hroom]
    rw [apply_trap hid.symm hinv.issued.encoded hinv.issued.signed hnone, if_neg hroom]

end Invitation

/-! ## A newcomer that holds the group -/

/-- The table after an `AddMember` op of `me` for `p`, which replaces the first row
of `p`. -/
def ChatGroup.rowsWith (g : ChatGroup) (me p : Bytes) (name : String) : List GroupMember :=
  let row : GroupMember := ⟨p, name, .member, g.currentEpoch + 1, .pendingSKDM, some me⟩
  if g.members.any (fun m => m.peerId = p) then
    updateFirst (fun m => m.peerId = p) (fun _ => row) g.members
  else g.members ++ [row]

/-- The group `h` that `p` holds is where the admin's group `g` is before `p` is
added: the same place of the chain, tables that the root does not tell apart,
neither as they are nor with `p` in them, and the rules of `h` let `me` add `p`. -/
structure CaughtUp (env : GroupEnv) (me p : Bytes) (name : String) (g h : ChatGroup) : Prop where
  epoch : h.currentEpoch = g.currentEpoch
  last : h.lastOpDigest = g.lastOpDigest
  root : h.memberSetRoot env = g.memberSetRoot env
  rootWith :
    memberSetRootOf env (h.rowsWith me p name) = memberSetRootOf env (g.rowsWith me p name)
  admin : h.hasAdmin me = true
  out : ∀ row, h.members.find? (fun m => m.peerId = p) = some row → row.status = .removed
  room : h.activeMembers.length < maxMembers

/-- A group that knows nothing of the op with digest `d`. -/
structure ChatGroup.Unaware (h : ChatGroup) (d : Bytes) : Prop where
  last : h.lastOpDigest ≠ d
  queue : NoChild h.pendingOps d

/-- An addition that succeeds is allowed by the table and gives `rowsWith`. -/
theorem ChatGroup.Lands.addMember {d : Bytes} {name : String} (hlands : Lands env op d g h)
    (hkind : op.kind = .addMember p .member name) (hoperator : op.operatorIdentity = me)
    (hepoch : op.epoch = g.currentEpoch + 1) :
    h.members = g.rowsWith me p name ∧ p.length = identityKeySize ∧ g.hasAdmin me = true ∧
      (∀ row, g.members.find? (fun m => m.peerId = p) = some row → row.status = .removed) ∧
      g.activeMembers.length < maxMembers := by
  have hauth := hlands.authorised
  rw [hoperator, hkind] at hauth
  obtain ⟨g₁, hmutate, rfl⟩ := hlands.mutated
  cases mutate_effect hmutate with
  | readd kind size found removed cap =>
    obtain ⟨rfl, rfl, rfl⟩ : p = _ ∧ GroupRole.member = _ ∧ name = _ := by
      simpa using hkind.symm.trans kind
    have hany : g.members.any (fun m => decide (m.peerId = p)) = true :=
      List.any_eq_true.mpr ⟨_, List.mem_of_find?_eq_some found, by simpa using List.find?_some found⟩
    refine ⟨?_, size, hauth, ?_, cap⟩
    · rw [rowsWith, if_pos hany, ← hoperator, ← hepoch]
      rfl
    · intro row hrow
      rw [← Option.some.inj (found.symm.trans hrow)]
      exact removed
  | add kind size absent cap =>
    obtain ⟨rfl, rfl, rfl⟩ : p = _ ∧ GroupRole.member = _ ∧ name = _ := by
      simpa using hkind.symm.trans kind
    have hany : ¬ g.members.any (fun m => decide (m.peerId = p)) = true := by
      simpa using List.find?_eq_none.mp absent
    refine ⟨?_, size, hauth, ?_, cap⟩
    · rw [rowsWith, if_neg hany, ← hoperator, ← hepoch]
      rfl
    · intro row hrow
      rw [absent] at hrow
      cases hrow
  | remove kind | rename kind | promote kind | demote kind | rotate kind =>
    rw [hkind] at kind
    cases kind

/-- The other way round, an addition that the table allows succeeds. -/
theorem mutate_addMember {name : String} (hkind : op.kind = .addMember p .member name)
    (hsize : p.length = identityKeySize)
    (hout : ∀ row, h.members.find? (fun m => m.peerId = p) = some row → row.status = .removed)
    (hroom : h.activeMembers.length < maxMembers) : ∃ h₁, h.mutate op = .ok h₁ := by
  have hok : (h.executeMutation op {}).1 = .ok := by
    rw [executeMutation, hkind]
    dsimp only [mutateAddMember]
    rw [if_neg (fun hne => hne hsize)]
    cases hfind : h.members.find? (fun m => m.peerId = p) with
    | none => simp only [if_neg (Nat.not_le.mpr hroom)]
    | some row => simp only [hout row hfind, ne_eq, not_true_eq_false, if_false,
        if_neg (Nat.not_le.mpr hroom)]
  cases hmutate : h.mutate op with
  | ok h₁ => exact ⟨h₁, rfl⟩
  | error reason =>
    obtain ⟨sx', hexec⟩ := executeMutation_eq h op {}
    rw [hmutate] at hexec
    rw [hexec] at hok
    cases hok

namespace Invitation

variable {s' : ChatStore} {name : String} {g₁ : ChatGroup} {snapshot : Option GroupBootstrap}
  {bytes : Bytes}

/-- The op is for the epoch after the admin's. -/
theorem epoch_eq (hinv : Invitation env me p name groupId s s' g g₁ op snapshot frames) :
    op.epoch = g.currentEpoch + 1 := by
  have hnext := hinv.issued.next
  rw [nextEpoch] at hnext
  split at hnext
  · exact (Option.some.inj hnext).symm
  · cases hnext

/-- On a group at the admin's place of the chain the op lands, or it is refused and the
chain stays. -/
theorem receive_op_in_place (hinv : Invitation env me p name groupId s s' g g₁ op snapshot frames)
    (amb : Ambient) (hready : Ready p me t) (hheld : t.findGroup op.groupId = some h)
    (hepoch : h.currentEpoch = g.currentEpoch) (hlast : h.lastOpDigest = g.lastOpDigest)
    (hroot : h.memberSetRoot env = g.memberSetRoot env)
    (hqueue : NoChild h.pendingOps (env.hash op.wire)) :
    (∃ h₁ kept h' fs, Lands env op (env.hash op.wire) h h₁ ∧ Keeps (h₁.withPending kept) h' ∧
        t.receive env amb me ⟨p, .groupOp, op.wire⟩ = some (t.setGroup h', fs)) ∨
      (∀ h₁, ¬ Lands env op (env.hash op.wire) h h₁) ∧
        ∃ h', t.receive env amb me ⟨p, .groupOp, op.wire⟩ = some (t.setGroup h', []) ∧
          h'.id = h.id ∧ h'.lastOpDigest = h.lastOpDigest := by
  obtain ⟨session, -, hhandle⟩ := handleGroupOp_held env amb me hready hinv.decode_wire
    hinv.not_create hheld
  have hid : h.id = g.id := (findGroup_id hheld).trans hinv.issued.groupId
  have hkind : ∀ peerId, op.kind ≠ .removeMember peerId := by
    intro peerId
    rw [hinv.issued.kind]
    simp
  rcases hinv.issued.apply_cases hid hepoch hlast hroot hqueue { localIdentityPub := some p } with
    ⟨h₁, kept, epoch, hlands, happly⟩ | ⟨outcome, sx', happly, hrefused⟩
  · obtain ⟨hrotation, hclear⟩ := executeMutation_flags hkind h { localIdentityPub := some p }
    obtain ⟨h', fs, hhooks, hkeeps, -⟩ := applyPostMutationSideEffects_quiet env amb session
      (h₁.withPending kept) { (h.executeMutation op { localIdentityPub := some p }).2.2 with
        equivocationEpoch := epoch } (t.setGroup (h₁.withPending kept)) hclear (.inl hrotation)
    refine .inl ⟨h₁, kept, h', fs, hlands, hkeeps, ?_⟩
    show t.handleGroupOp env amb op.wire me = _
    rw [hhandle, happly]
    dsimp only
    rw [hhooks, setGroup_setGroup hkeeps.id]
  · refine .inr ⟨fun h₁ hlands => ?_, ?_⟩
    · -- an op that lands is not refused
      have hstep : (h.apply env op { localIdentityPub := some p }).map visible =
          applyStep env (some p) op h := apply_applyStep op h _
      rw [happly, applyStep_of_ok (hinv.issued.groupId.trans hid.symm) hinv.issued.encoded
        hinv.issued.signed (hepoch ▸ hinv.issued.next), if_neg (UInt64.lt_irrefl _),
        if_neg (UInt64.lt_irrefl _), hlands.land_eq] at hstep
      obtain ⟨h₂, -, hsettled⟩ := Option.map_eq_some_iff.mp hstep.symm
      have houtcome : ApplyOutcome.applied op.epoch = outcome := congrArg Prod.fst hsettled
      rcases hrefused with rfl | ⟨reason, rfl⟩
      · cases houtcome
      · cases houtcome
    · refine ⟨(outcomeText outcome).elim h h.appendSystem, ?_, ?_⟩
      · show t.handleGroupOp env amb op.wire me = _
        rw [hhandle, happly]
        rcases hrefused with rfl | ⟨reason, rfl⟩
        · rfl
        · rfl
      · cases outcomeText outcome with
        | none => exact ⟨rfl, rfl⟩
        | some text => exact ⟨rfl, rfl⟩

/-- On a group that knows nothing of the op, the op is applied at the admin's place of
the chain, or it leaves the last op as it was. -/
theorem receive_op_elsewhere (hinv : Invitation env me p name groupId s s' g g₁ op snapshot frames)
    (hready : Ready p me t) (hheld : t.findGroup op.groupId = some h)
    {r : ChatStore × List Frame}
    (hreceive : t.receive env amb me ⟨p, .groupOp, op.wire⟩ = some r) :
    (h.currentEpoch = g.currentEpoch ∧ h.lastOpDigest = g.lastOpDigest ∧
        h.memberSetRoot env = g.memberSetRoot env) ∨
      ∃ h', r.1 = t.setGroup h' ∧ h'.id = h.id ∧ h'.lastOpDigest = h.lastOpDigest := by
  obtain ⟨session, -, hhandle⟩ := handleGroupOp_held env amb me hready hinv.decode_wire
    hinv.not_create hheld
  replace hreceive : t.handleGroupOp env amb op.wire me = some r := hreceive
  have hstep : (h.apply env op { localIdentityPub := some p }).map visible =
      applyStep env (some p) op h := apply_applyStep op h _
  rw [hhandle] at hreceive
  rcases happly : h.apply env op { localIdentityPub := some p } with _ | ⟨outcome, h', sx'⟩
  · rw [happly] at hreceive
    cases hreceive
  rw [happly] at hreceive hstep
  obtain ⟨hsame, hnot⟩ | ⟨bytes, -, -, hqueued⟩ | ⟨bytes, h₁, -, -, -, hnext, hlands, -, -⟩ :=
    applyStep_cases hstep.symm
  · -- the op changes nothing
    refine .inr ⟨(outcomeText outcome).elim h h.appendSystem, ?_, ?_⟩
    · replace hsame : h' = h := hsame
      subst hsame
      cases outcome with
      | applied e => exact absurd rfl (hnot e)
      | _ =>
        cases hreceive
        rfl
    · cases outcomeText outcome with
      | none => exact ⟨rfl, rfl⟩
      | some text => exact ⟨rfl, rfl⟩
  · -- the op is parked
    obtain ⟨rfl, rfl⟩ := Prod.mk.inj hqueued
    cases hreceive
    refine .inr ⟨h.queuePending bytes, rfl, ?_⟩
    rw [queuePending_eq]
    exact ⟨rfl, rfl⟩
  · refine .inl ⟨?_, ?_, ?_⟩
    · have hnext' := nextEpoch_eq_some_iff.mp hnext
      have hepoch := nextEpoch_eq_some_iff.mp hinv.issued.next
      exact UInt64.toNat_inj.mp (by omega)
    · rw [← hlands.parent, hinv.issued.parent]
    · rw [hlands.root, hinv.issued.root]

/-- The admin's view is the chain position of the op and the table after it. -/
theorem sharesView_iff (hinv : Invitation env me p name groupId s s' g g₁ op snapshot frames)
    (t' : ChatStore) :
    SharesView env groupId s' t' ↔ ∃ h, t'.findGroup groupId = some h ∧
      h.currentEpoch = op.epoch ∧ h.lastOpDigest = env.hash op.wire ∧
      h.memberSetRoot env = g₁.memberSetRoot env := by
  obtain ⟨kept, g', hfind, hkeeps⟩ := hinv.held
  obtain ⟨-, hepoch, hlast, -⟩ := hinv.lands.frame
  have hepoch : g'.currentEpoch = op.epoch := by
    rw [hkeeps.currentEpoch, withPending_currentEpoch, hepoch]
  have hlast : g'.lastOpDigest = env.hash op.wire := by
    rw [hkeeps.lastOpDigest, withPending_lastOpDigest, hlast]
  have hroot : g'.memberSetRoot env = g₁.memberSetRoot env := by
    rw [memberSetRoot, hkeeps.members, withPending_members, memberSetRoot]
  rw [← hepoch, ← hlast, ← hroot]
  constructor
  · rintro ⟨g'', h, hfind', hview⟩
    cases hfind.symm.trans hfind'
    exact ⟨h, hview⟩
  · rintro ⟨h, hview⟩
    exact ⟨g', h, hfind, hview⟩

/-- What the newcomer that holds the group makes of the op. -/
theorem receive_op_held (hinv : Invitation env me p name groupId s s' g g₁ op snapshot frames)
    (hready : Ready p me t) (hheld : t.findGroup op.groupId = some h)
    (hqueue : NoChild h.pendingOps (env.hash op.wire)) {r : ChatStore × List Frame}
    (hreceive : t.receive env amb me ⟨p, .groupOp, op.wire⟩ = some r) :
    ∃ h', r.1 = t.setGroup h' ∧ h'.id = h.id := by
  rcases hinv.receive_op_elsewhere hready hheld hreceive with
    ⟨hepoch, hlast, hroot⟩ | ⟨h', hr, hid, -⟩
  · rcases hinv.receive_op_in_place amb hready hheld hepoch hlast hroot hqueue with
      ⟨h₁, kept, h', fs, hlands, hkeeps, hr⟩ | ⟨-, h', hr, hid, -⟩
    · cases hreceive.symm.trans hr
      exact ⟨h', rfl, hkeeps.id.trans hlands.frame.1⟩
    · cases hreceive.symm.trans hr
      exact ⟨h', rfl, hid⟩
  · exact ⟨h', hr, hid⟩

/-- The op alone gives the newcomer the admin's view if and only if its group has
caught up. -/
theorem sharesView_op_iff (hinv : Invitation env me p name groupId s s' g g₁ op snapshot frames)
    (amb : Ambient) (hready : Ready p me t) (hgroup : op.groupId = groupId)
    (hheld : t.findGroup groupId = some h) (hunaware : h.Unaware (env.hash op.wire)) :
    (∃ r, t.receive env amb me ⟨p, .groupOp, op.wire⟩ = some r ∧
        SharesView env groupId s' r.1) ↔ CaughtUp env me p name g h := by
  subst hgroup
  obtain ⟨hrows, hsize, -⟩ :=
    hinv.lands.addMember hinv.issued.kind hinv.issued.operator hinv.epoch_eq
  have hkept : ∀ h' : ChatGroup, h'.id = h.id → h'.lastOpDigest = h.lastOpDigest →
      ¬ SharesView env op.groupId s' (t.setGroup h') := by
    intro h' hid hlast hview
    obtain ⟨h'', hfind, -, hdigest, -⟩ := (hinv.sharesView_iff _).mp hview
    rw [findGroup_setGroup hheld (hid.trans (findGroup_id hheld))] at hfind
    cases hfind
    exact hunaware.last (hlast.symm.trans hdigest)
  constructor
  · rintro ⟨r, hreceive, hview⟩
    rcases hinv.receive_op_elsewhere hready hheld hreceive with
      ⟨hepoch, hlast, hroot⟩ | ⟨h', hr, hid, hlast⟩
    · rcases hinv.receive_op_in_place amb hready hheld hepoch hlast hroot hunaware.queue with
        ⟨h₁, kept, h', fs, hlands, hkeeps, hr⟩ | ⟨-, h', hr, hid, hlast⟩
      · cases hreceive.symm.trans hr
        have hid' : h'.id = op.groupId :=
          hkeeps.id.trans (hlands.frame.1.trans (findGroup_id hheld))
        obtain ⟨h'', hfind, -, -, hsame⟩ := (hinv.sharesView_iff _).mp hview
        rw [findGroup_setGroup hheld hid'] at hfind
        cases hfind
        obtain ⟨hrows', -, hadmin, hout, hroom⟩ :=
          hlands.addMember hinv.issued.kind hinv.issued.operator (hepoch ▸ hinv.epoch_eq)
        rw [memberSetRoot, hkeeps.members, withPending_members, hrows', memberSetRoot, hrows]
          at hsame
        exact ⟨hepoch, hlast, hroot, hsame, hadmin, hout, hroom⟩
      · cases hreceive.symm.trans hr
        exact absurd hview (hkept h' hid hlast)
    · rw [hr] at hview
      exact absurd hview (hkept h' hid hlast)
  · intro hcaught
    obtain ⟨h₁, hmutate⟩ := mutate_addMember hinv.issued.kind hsize hcaught.out hcaught.room
    have hlands : Lands env op (env.hash op.wire) h (h₁.advance op.epoch (env.hash op.wire)) := by
      constructor
      · rw [hinv.issued.parent, hcaught.last]
      · rw [hinv.issued.operator, hinv.issued.kind]
        exact hcaught.admin
      · rw [hcaught.root, hinv.issued.root]
      · exact ⟨h₁, hmutate, rfl⟩
    rcases hinv.receive_op_in_place amb hready hheld hcaught.epoch hcaught.last hcaught.root
        hunaware.queue with
      ⟨h₂, kept, h', fs, hlands', hkeeps, hr⟩ | ⟨hnone, -⟩
    · refine ⟨_, hr, (hinv.sharesView_iff _).mpr ⟨h', ?_, ?_, ?_, ?_⟩⟩
      · exact findGroup_setGroup hheld
          (hkeeps.id.trans (hlands'.frame.1.trans (findGroup_id hheld)))
      · exact hkeeps.currentEpoch.trans hlands'.frame.2.1
      · exact hkeeps.lastOpDigest.trans hlands'.frame.2.2.1
      · obtain ⟨hrows', -⟩ :=
          hlands'.addMember hinv.issued.kind hinv.issued.operator (hcaught.epoch ▸ hinv.epoch_eq)
        rw [memberSetRoot, hkeeps.members, withPending_members, hrows', memberSetRoot, hrows]
        exact hcaught.rootWith
    · exact absurd hlands (hnone _)

/-- The newcomer that makes its group from the snapshot has the admin's view. -/
theorem sharesView_snapshot (hinv : Invitation env me p name groupId s s' g g₁ op snapshot frames)
    (hsnap : Snapshots env me g₁ b bytes) (hinto : b.intoChatGroup p = some h)
    (hfind : t.findGroup groupId = some h) : SharesView env groupId s' t := by
  obtain ⟨-, hmembers, hepoch, hlast, -⟩ := hinv.snapshot_group hsnap hinto
  rw [hinv.sharesView_iff]
  refine ⟨h, hfind, hepoch, hlast, ?_⟩
  rw [memberSetRoot, hmembers, memberSetRoot]

end Invitation

/-! ## The newcomer's view -/

theorem findGroup_append (habsent : t.findGroup groupId = none) (hid : h.id = groupId) :
    ChatStore.findGroup { t with groups := t.groups ++ [h] } groupId = some h := by
  show (t.groups ++ [h]).find? _ = _
  rw [List.find?_append, show t.groups.find? (fun g => g.id = groupId) = none from habsent,
    Option.none_or, List.find?_singleton, if_pos (by simpa using hid)]

namespace Invitation

variable {s' : ChatStore} {name : String} {g₁ : ChatGroup} {snapshot : Option GroupBootstrap}

/-- The frames to the newcomer are its snapshot, if the table fits one, and the op. -/
theorem framesTo_cases (hinv : Invitation env me p name groupId s s' g g₁ op snapshot frames)
    (hsigns : SignsFor env me session) {now : UInt64}
    (hsign : signBootstrap env session g₁ me now = some snapshot) (hgid : g.id = groupId) :
    (∃ b bytes, Snapshots env me g₁ b bytes ∧ b.groupId = groupId ∧ SnapshotFits g p ∧
        framesTo p frames =
          [⟨p, .groupBootstrap, withGroupId b.groupId bytes⟩, ⟨p, .groupOp, op.wire⟩]) ∨
      ¬ SnapshotFits g p ∧ framesTo p frames = [⟨p, .groupOp, op.wire⟩] := by
  obtain ⟨hidSize, hmeSize, -⟩ := encoded_sizes hinv.issued.encoded
  obtain ⟨hid₁, -, hlast₁, -⟩ := hinv.lands.frame
  have hframes := hinv.framesTo_eq
  rcases signBootstrap_cases hsigns hsign
      (by rw [hid₁, ← hinv.issued.groupId]; exact hidSize)
      (by rw [hlast₁]; exact env.length_hash _)
      (by rw [← hinv.issued.operator]; exact hmeSize) with
    ⟨⟨b, bytes, rfl, hsnap⟩, hfits⟩ | ⟨rfl, hunfit⟩
  · refine .inl ⟨b, bytes, hsnap, ?_, hinv.fits_iff.mp hfits, ?_⟩
    · rw [hsnap.groupId, hid₁]
      exact hgid
    · rw [hframes, Option.toList_some, List.flatMap_singleton, broadcastGroupBootstrap,
        hsnap.encoded]
      simp [framesTo, hinv.contact]
  · exact .inr ⟨fun hfits => hunfit (hinv.fits_iff.mpr hfits), hframes⟩

/-- A newcomer that holds the group makes the same of either order as of the op alone. -/
theorem deliver_held (hinv : Invitation env me p name groupId s s' g g₁ op snapshot frames)
    (amb : Ambient) (hready : Ready p me t) (hgroup : op.groupId = groupId)
    (hheld : t.findGroup groupId = some h) (hqueue : NoChild h.pendingOps (env.hash op.wire))
    {before fs : List Frame}
    (hbefore : before = [] ∨ ∃ b bytes, Snapshots env me g₁ b bytes ∧ b.groupId = groupId ∧
      before = [⟨p, .groupBootstrap, withGroupId b.groupId bytes⟩])
    (hperm : fs.Perm (before ++ [⟨p, .groupOp, op.wire⟩])) :
    deliver env amb me fs t =
      (t.receive env amb me ⟨p, .groupOp, op.wire⟩).map Prod.fst := by
  have hone : deliver env amb me [⟨p, .groupOp, op.wire⟩] t =
      (t.receive env amb me ⟨p, .groupOp, op.wire⟩).map Prod.fst := by
    rw [deliver]
    cases t.receive env amb me ⟨p, .groupOp, op.wire⟩ <;> rfl
  rcases hbefore with rfl | ⟨b, bytes, hsnap, hbid, rfl⟩
  · rw [List.nil_append, List.perm_singleton] at hperm
    rw [hperm, hone]
  · rcases List.perm_pair.mp hperm with rfl | rfl
    · rw [deliver, hinv.receive_snapshot_held hready hsnap (hbid ▸ hheld), Option.bind_some, hone]
    · rw [deliver]
      cases hreceive : t.receive env amb me ⟨p, .groupOp, op.wire⟩ with
      | none => rfl
      | some r =>
        -- the group is still there when the snapshot comes
        obtain ⟨h', hr, hid⟩ := hinv.receive_op_held hready (hgroup ▸ hheld) hqueue hreceive
        have hready' : Ready p me r.1 := by
          rw [hr]
          exact ⟨hready.session, hready.card, hready.relays, hready.contact⟩
        have hheld' : r.1.findGroup groupId = some h' := by
          rw [hr]
          exact findGroup_setGroup hheld (hid.trans (findGroup_id hheld))
        rw [Option.bind_some, deliver, hinv.receive_snapshot_held hready' hsnap (hbid ▸ hheld')]
        rfl

/-- A newcomer without the group. -/
theorem deliver_absent_iff (hinv : Invitation env me p name groupId s s' g g₁ op snapshot frames)
    (amb : Ambient) (hready : Ready p me t) (hgroup : op.groupId = groupId)
    (habsent : t.findGroup groupId = none) (hsnap : Snapshots env me g₁ b bytes)
    (hbid : b.groupId = groupId) :
    (∀ fs : List Frame, fs.Perm [⟨p, .groupBootstrap, withGroupId b.groupId bytes⟩,
          ⟨p, .groupOp, op.wire⟩] →
        ∃ t', deliver env amb me fs t = some t' ∧ SharesView env groupId s' t') ↔
      op.epoch.toNat + 1 < 2 ^ 64 := by
  obtain ⟨h, hinto, hreceive⟩ := hinv.receive_snapshot amb hready hsnap (hbid ▸ habsent)
  have hhid := (hinv.snapshot_group hsnap hinto).1.trans hgroup
  have hfound := findGroup_append habsent hhid
  have hready' : Ready p me { t with groups := t.groups ++ [h] } :=
    ⟨hready.session, hready.card, hready.relays, hready.contact⟩
  constructor
  · intro hall
    by_contra hend
    obtain ⟨t', hdeliver, -⟩ := hall _ (.refl _)
    rw [deliver, hreceive, Option.bind_some, deliver,
      hinv.receive_op_after hready' hsnap hinto (hgroup ▸ hfound), if_neg hend] at hdeliver
    cases hdeliver
  · intro hroom fs hperm
    rcases List.perm_pair.mp hperm with rfl | rfl
    · refine ⟨_, ?_, hinv.sharesView_snapshot hsnap hinto (findGroup_setGroup hfound hhid)⟩
      rw [deliver, hreceive, Option.bind_some, deliver,
        hinv.receive_op_after hready' hsnap hinto (hgroup ▸ hfound), if_pos hroom]
      rfl
    · refine ⟨_, ?_, hinv.sharesView_snapshot hsnap hinto hfound⟩
      have hdropped : t.receive env amb me ⟨p, .groupOp, op.wire⟩ = some (t, []) :=
        handleGroupOp_absent hready hinv.decode_wire hinv.not_create (hgroup ▸ habsent)
      rw [deliver, hdropped, Option.bind_some, deliver, hreceive]
      rfl

end Invitation

/-- After an invitation and the delivery of its snapshot and its op, in either
order, the newcomer has the admin's view

- without the group: if and only if the table fits a snapshot and the epoch after the
  addition is not the last one;
- with the group, from an earlier membership: if and only if its group has caught up
  with the admin's from before the addition.

The digest of the op, which is signed in this call, is news to both queues and to the
newcomer's chain. -/
theorem invited_sharesView_iff {s' : ChatStore} {contact : Contact} (amb' : Ambient)
    (hsession : s.session = some session) (hme : s.myCard = some me)
    (hfind : s.findGroup groupId = some g) (hsigns : SignsFor env me session)
    (hinvite : s.inviteToGroup env amb groupId contact = some (true, s', frames))
    (hfresh : ∀ op, signNext env session me
        (.addMember contact.identityPub .member contact.displayName) amb.now g = some (some op) →
      NoChild g.pendingOps (env.hash op.wire) ∧
        ∀ h, t.findGroup groupId = some h → h.Unaware (env.hash op.wire))
    (hready : Ready contact.identityPub me t) :
    (∀ fs, fs.Perm (framesTo contact.identityPub frames) →
        ∃ t', deliver env amb' me fs t = some t' ∧ SharesView env groupId s' t') ↔
      match t.findGroup groupId with
      | none => SnapshotFits g contact.identityPub ∧ g.currentEpoch.toNat + 2 < 2 ^ 64
      | some h => CaughtUp env me contact.identityPub contact.displayName g h := by
  obtain ⟨op, g₁, snapshot, hinv, hsign, hissued⟩ :=
    inviteToGroup_spec hsession hme hfind hsigns hinvite fun op hop => (hfresh op hop).1
  have hgroup : op.groupId = groupId := hinv.issued.groupId.trans (findGroup_id hfind)
  have hepoch := nextEpoch_eq_some_iff.mp hinv.issued.next
  have hframes := hinv.framesTo_cases hsigns hsign (findGroup_id hfind)
  cases hheld : t.findGroup groupId with
  | none =>
    rcases hframes with ⟨b, bytes, hsnap, hbid, hfits, hpair⟩ | ⟨hunfit, hone⟩
    · rw [hpair, hinv.deliver_absent_iff amb' hready hgroup hheld hsnap hbid]
      dsimp only
      rw [and_iff_right hfits, hepoch]
    · rw [hone]
      refine iff_of_false (fun hall => ?_) fun hcond => hunfit hcond.1
      -- only the op arrives, and it is dropped
      obtain ⟨t', hdeliver, hview⟩ := hall _ (.refl _)
      have hdropped : t.receive env amb' me ⟨contact.identityPub, .groupOp, op.wire⟩ =
          some (t, []) :=
        handleGroupOp_absent hready hinv.decode_wire hinv.not_create (hgroup ▸ hheld)
      rw [deliver, hdropped] at hdeliver
      cases hdeliver
      obtain ⟨_, h, -, hfound, -⟩ := hview
      rw [hheld] at hfound
      cases hfound
  | some h =>
    have hunaware := (hfresh op hissued).2 h hheld
    obtain ⟨before, hbefore, hbeforeFrames⟩ : ∃ before, (before = [] ∨ ∃ b bytes,
        Snapshots env me g₁ b bytes ∧ b.groupId = groupId ∧
          before = [⟨contact.identityPub, .groupBootstrap, withGroupId b.groupId bytes⟩]) ∧
        framesTo contact.identityPub frames =
          before ++ [⟨contact.identityPub, .groupOp, op.wire⟩] := by
      rcases hframes with ⟨b, bytes, hsnap, hbid, -, hpair⟩ | ⟨-, hone⟩
      · exact ⟨_, .inr ⟨b, bytes, hsnap, hbid, rfl⟩, hpair⟩
      · exact ⟨[], .inl rfl, hone⟩
    dsimp only
    rw [hbeforeFrames, ← hinv.sharesView_op_iff amb' hready hgroup hheld hunaware]
    constructor
    · intro hall
      obtain ⟨t', hdeliver, hview⟩ := hall _ (.refl _)
      rw [hinv.deliver_held amb' hready hgroup hheld hunaware.queue hbefore (.refl _)] at hdeliver
      obtain ⟨r, hreceive, rfl⟩ := Option.map_eq_some_iff.mp hdeliver
      exact ⟨r, hreceive, hview⟩
    · rintro ⟨r, hreceive, hview⟩ fs hperm
      refine ⟨r.1, ?_, hview⟩
      rw [hinv.deliver_held amb' hready hgroup hheld hunaware.queue hbefore hperm, hreceive]
      rfl

/-! ## A newcomer and a returning member -/

/-- The context byte of the sample signatures. -/
def SignatureContext.sampleByte : SignatureContext → UInt8
  | .groupOp => 1
  | .groupBootstrap => 2

/-- A session that signs for `me` in the sample environment; its sender keys are
the distribution ids. -/
def sampleSession (me : Bytes) : Session where
  identitySign := fun context message => some (sampleSignature context.sampleByte me message)
  senderKeyDistributionCreate := fun dist => some dist.1
  senderKeyDistributionProcess := fun _ skdm =>
    if h : skdm.length = 16 then some ⟨skdm, h⟩ else none

theorem sampleSession_signsFor (me : Bytes) : SignsFor sampleEnv me (sampleSession me) := by
  have hop : ∀ message sig, sig = sampleSignature 1 me message →
      sampleEnv.verifyGroupOp me message sig = true := fun _ _ heq => decide_eq_true heq
  have hbootstrap : ∀ message sig, sig = sampleSignature 2 me message →
      sampleEnv.verifyGroupBootstrap me message sig = true := fun _ _ heq => decide_eq_true heq
  constructor
  · intro message
    exact ⟨_, rfl, length_sampleSignature 1 me message, hop message _ rfl⟩
  · intro message
    exact ⟨_, rfl, length_sampleSignature 2 me message, hbootstrap message _ rfl⟩

/-- The device of peer `b`, paired with the given peers. -/
def sampleDevice (b : UInt8) (contacts : List UInt8) (groups : List ChatGroup) : ChatStore where
  session := some (sampleSession (samplePeer b))
  myCard := some (samplePeer b)
  readyRelays := true
  contacts := contacts.map fun c => ⟨samplePeer c, "friend"⟩
  groups := groups

/-- Clock readings and fresh ids made from one number. -/
def sampleAmbient (n : UInt8) : Ambient where
  now := n.toUInt64
  bootstrapNow := n.toUInt64
  rotateNow := n.toUInt64
  rotateId := FixedBytes.replicate 16 n
  chainId := FixedBytes.replicate 16 (n + 100)

/-- Peer 1 is the admin of the sample group of peers 1 and 2. -/
def sampleAdminDevice : ChatStore :=
  sampleDevice 1 [2, 3] [{ sampleGroup with pendingInvitation := false }]

theorem invited_sharesView_iff_newcomer :
    ∃ s' frames, sampleAdminDevice.inviteToGroup sampleEnv (sampleAmbient 1) sampleGroupId
        ⟨samplePeer 3, "carol"⟩ = some (true, s', frames) ∧
      ∀ fs, fs.Perm (framesTo (samplePeer 3) frames) →
        ∃ t', deliver sampleEnv (sampleAmbient 2) (samplePeer 1) fs (sampleDevice 3 [1] []) =
          some t' ∧ SharesView sampleEnv sampleGroupId s' t' := by
  have htrue : (sampleAdminDevice.inviteToGroup sampleEnv (sampleAmbient 1) sampleGroupId
      ⟨samplePeer 3, "carol"⟩).map Prod.fst = some true := by decide +kernel
  obtain ⟨⟨-, s', frames⟩, hinvite, rfl⟩ := Option.map_eq_some_iff.mp htrue
  refine ⟨s', frames, hinvite, ?_⟩
  have hid : sampleGroup.id = sampleGroupId := by decide +kernel
  have hqueue : sampleGroup.pendingOps = [] := by decide +kernel
  have hfind : sampleAdminDevice.findGroup sampleGroupId =
      some { sampleGroup with pendingInvitation := false } := by
    show List.find? _ [_] = _
    rw [List.find?_singleton, if_pos (by simpa using hid)]
  have hready : Ready (samplePeer 3) (samplePeer 1) (sampleDevice 3 [1] []) :=
    ⟨⟨_, rfl⟩, rfl, rfl, by decide +kernel⟩
  refine (invited_sharesView_iff (sampleAmbient 2) rfl rfl hfind (sampleSession_signsFor _) hinvite
    (fun op _ => ⟨fun bytes hbytes => ?_, fun h hheld => by cases hheld⟩) hready).mpr ⟨?_, ?_⟩
  · rw [show ChatGroup.pendingOps { sampleGroup with pendingInvitation := false } = [] from
      hqueue] at hbytes
    cases hbytes
  · constructor <;> decide +kernel
  · decide +kernel

theorem eq_some_get {α β : Type} {x : Option (α × β)} (hx : x.isSome = true) {a : α}
    (ha : (x.get hx).1 = a) : x = some (a, (x.get hx).2) := by
  rw [← ha]
  exact (Option.some_get hx).symm

/-- Peer 1 removes peer 2, the store after it. -/
def sampleRemoval : Bool × ChatStore × List Frame :=
  (sampleAdminDevice.removeFromGroup sampleEnv (sampleAmbient 1) sampleGroupId (samplePeer 2)).get
    (by decide +kernel)

/-- Then peer 1 invites peer 2 again. -/
def sampleReturn : Bool × ChatStore × List Frame :=
  (sampleRemoval.2.1.inviteToGroup sampleEnv (sampleAmbient 2) sampleGroupId
    ⟨samplePeer 2, "bob"⟩).get (by decide +kernel)

/-- Peer 2's device still has the group as it was created. -/
def sampleReturning : ChatStore :=
  sampleDevice 2 [1] [{ sampleGroup with pendingInvitation := false }]

/-- Peer 2 hears nothing of its removal; invited again, it stays at epoch 0 while
the admin is at epoch 3. -/
theorem returning_member_is_left_behind :
    sampleAdminDevice.removeFromGroup sampleEnv (sampleAmbient 1) sampleGroupId (samplePeer 2) =
        some (true, sampleRemoval.2) ∧
      framesTo (samplePeer 2) sampleRemoval.2.2 = [] ∧
      sampleRemoval.2.1.inviteToGroup sampleEnv (sampleAmbient 2) sampleGroupId
        ⟨samplePeer 2, "bob"⟩ = some (true, sampleReturn.2) ∧
      ¬ ∀ fs, fs.Perm (framesTo (samplePeer 2) sampleReturn.2.2) →
        ∃ t', deliver sampleEnv (sampleAmbient 3) (samplePeer 1) fs sampleReturning = some t' ∧
          SharesView sampleEnv sampleGroupId sampleReturn.2.1 t' := by
  have hremoval : sampleRemoval.1 = true := by decide +kernel
  have hreturn : sampleReturn.1 = true := by decide +kernel
  have hadmin : (sampleReturn.2.1.findGroup sampleGroupId).map ChatGroup.currentEpoch = some 3 := by
    decide +kernel
  have hmember : (deliver sampleEnv (sampleAmbient 3) (samplePeer 1)
      (framesTo (samplePeer 2) sampleReturn.2.2) sampleReturning).map
        (fun t' => (t'.findGroup sampleGroupId).map ChatGroup.currentEpoch) = some (some 0) := by
    decide +kernel
  refine ⟨?_, by decide +kernel, ?_, fun hall => ?_⟩
  · rw [sampleRemoval] at hremoval ⊢
    exact eq_some_get _ hremoval
  · rw [sampleReturn] at hreturn ⊢
    exact eq_some_get _ hreturn
  · obtain ⟨t', hdeliver, g, h, hfind, hfound, hepoch, -⟩ := hall _ (.refl _)
    rw [hdeliver, Option.map_some, hfound] at hmember
    rw [hfind] at hadmin
    have hg : g.currentEpoch = 3 := Option.some.inj hadmin
    have hh : h.currentEpoch = 0 := Option.some.inj (Option.some.inj hmember)
    rw [hg, hh] at hepoch
    exact absurd hepoch (by decide)

end Pizzini.Group
