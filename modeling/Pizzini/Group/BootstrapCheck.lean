import Pizzini.Group.ChatStoreGroups
import Pizzini.Group.SampleEnv

/-!
# What `handleGroupBootstrap` lets in

A group comes into being in two ways: from a `Create` op, whose member list
`ChatGroup.create` checks, and from the snapshot of an admin, which takes the
whole member table from the wire. `Admits` collects the guards that a snapshot
passes, spread over the envelope, the codec, the handler and `intoChatGroup`.

Together they give most of what a group should satisfy (`Sound`). Three relations
between the rows are checked nowhere: that the ids are distinct, that the local
user's row is not a removed one, and that no row is from a later epoch than the
snapshot. A bootstrapped group is sound exactly if its snapshot has them
(`bootstrapped_sound_iff`).
-/

namespace Pizzini.Group

open Wire ChatStore

variable {env : GroupEnv} {payload sender me : Bytes} {s : ChatStore} {b : GroupBootstrap}
  {g : ChatGroup}

/-! ## The guards -/

/-- The snapshot in the body of a bootstrap frame. -/
def snapshotOf (payload : Bytes) : Option (Bytes × GroupBootstrap) :=
  (splitGroupId payload).bind fun parts =>
    (GroupBootstrap.decode parts.2).map fun b => (parts.1, b)

/-- A row of an admin that is not removed, as the handler looks for it. -/
def GroupBootstrap.hasAdmin (b : GroupBootstrap) (peerId : Bytes) : Bool :=
  b.members.any fun m => m.peerId = peerId && m.role = .admin && m.status ≠ .removed

/-- The guards of `handleGroupBootstrap` on a snapshot `b` for the local user `me`,
up to the question whether the group is already held. -/
structure Admits (env : GroupEnv) (s : ChatStore) (payload sender me : Bytes)
    (b : GroupBootstrap) : Prop where
  card : s.myCard = some me
  body : snapshotOf payload = some (b.groupId, b)
  issuer : sender = b.operatorIdentity
  contact : s.isContact b.operatorIdentity = true
  signed : b.verifySignature env = true
  root : b.verifyMemberSetRoot env = some true
  admin : b.hasAdmin b.operatorIdentity = true
  present : b.members.any (fun m => m.peerId = me) = true

/-- The group of an admitted snapshot is appended, unless the device has it. -/
theorem Admits.handle (h : Admits env s payload sender me b) :
    ∃ g, b.intoChatGroup me = some g ∧
      s.handleGroupBootstrap env payload sender =
        if (s.findGroup b.groupId).isSome then some s
        else some { s with groups := s.groups ++ [g] } := by
  obtain ⟨g, hg⟩ : ∃ g, b.intoChatGroup me = some g := by
    rw [GroupBootstrap.intoChatGroup, if_neg (fun hno => hno h.present)]
    exact ⟨_, rfl⟩
  refine ⟨g, hg, ?_⟩
  obtain ⟨⟨envelopeGroupId, bytes⟩, hsplit, hrest⟩ := Option.bind_eq_some_iff.mp h.body
  obtain ⟨b', hdecode, heq⟩ := Option.map_eq_some_iff.mp hrest
  obtain ⟨rfl, rfl⟩ := Prod.mk.inj heq
  have hadmin := h.admin
  rw [GroupBootstrap.hasAdmin] at hadmin
  rw [handleGroupBootstrap, h.card, hsplit]
  simp only [hdecode, ne_eq, not_true_eq_false, if_false, h.issuer, h.contact, h.signed, h.root,
    hadmin, h.present, hg]

theorem Admits.handle_absent (h : Admits env s payload sender me b)
    (habsent : s.findGroup b.groupId = none) :
    ∃ g, b.intoChatGroup me = some g ∧
      s.handleGroupBootstrap env payload sender = some { s with groups := s.groups ++ [g] } := by
  obtain ⟨g, hinto, hhandle⟩ := h.handle
  refine ⟨g, hinto, ?_⟩
  rw [hhandle, habsent]
  rfl

/-- Only an admitted snapshot appends a group. -/
theorem admits_of_appended
    (h : s.handleGroupBootstrap env payload sender = some { s with groups := s.groups ++ [g] }) :
    ∃ me b, Admits env s payload sender me b ∧ b.intoChatGroup me = some g := by
  have hsame : ¬ some s = some { s with groups := s.groups ++ [g] } := by
    intro hstay
    have hgroups := congrArg (fun s' => s'.groups.length) (Option.some.inj hstay)
    simp at hgroups
  rw [handleGroupBootstrap] at h
  split at h
  · rename_i me envelopeGroupId bytes hcard hsplit
    split at h
    · exact absurd h hsame
    · rename_i b hdecode
      split at h
      · exact absurd h hsame
      · rename_i hid
        split at h
        · exact absurd h hsame
        · rename_i hissuer
          split at h
          · exact absurd h hsame
          · rename_i hcontact
            split at h
            · exact absurd h hsame
            · rename_i hsigned
              split at h
              · cases h
              · exact absurd h hsame
              · rename_i hroot
                split at h
                · exact absurd h hsame
                · rename_i hadmin
                  split at h
                  · exact absurd h hsame
                  · rename_i hpresent
                    split at h
                    · exact absurd h hsame
                    · split at h
                      · exact absurd h hsame
                      · rename_i g' hinto
                        refine ⟨me, b, ⟨hcard, ?_, Classical.not_not.mp hissuer,
                          Classical.not_not.mp hcontact, Classical.not_not.mp hsigned, hroot,
                          Classical.not_not.mp hadmin, Classical.not_not.mp hpresent⟩, ?_⟩
                        · rw [snapshotOf, hsplit, Option.bind_some, hdecode, Option.map_some,
                            Classical.not_not.mp hid]
                        · have hgroups := congrArg ChatStore.groups (Option.some.inj h)
                          have hlast := List.append_cancel_left hgroups
                          rw [hinto, List.head_eq_of_cons_eq hlast]
  · exact absurd h hsame

/-! ## Sound groups -/

/-- What a group that a device holds should satisfy. -/
structure Sound (me : Bytes) (g : ChatGroup) : Prop where
  distinct : (g.members.map GroupMember.peerId).Nodup
  admin : ∃ m ∈ g.members, m.role = .admin ∧ m.status ≠ .removed
  size : g.activeMembers.length ≤ maxMembers
  localMember : g.hasMember me = true
  joined : ∀ m ∈ g.members, m.joinedAtEpoch ≤ g.currentEpoch
  recent : g.digest g.currentEpoch = some g.lastOpDigest

/-- What no guard looks at. -/
structure RowsOk (me : Bytes) (b : GroupBootstrap) : Prop where
  distinct : (b.members.map GroupMember.peerId).Nodup
  notRemoved : ∃ m ∈ b.members, m.peerId = me ∧ m.status ≠ .removed
  joined : ∀ m ∈ b.members, m.joinedAtEpoch ≤ b.currentEpoch

/-- The fields of a snapshot's group that matter here. -/
theorem intoChatGroup_fields (h : b.intoChatGroup me = some g) :
    g.members = b.members ∧ g.currentEpoch = b.currentEpoch ∧
      g.digest g.currentEpoch = some g.lastOpDigest := by
  rw [GroupBootstrap.intoChatGroup] at h
  split at h
  · cases h
  · cases h
    exact ⟨rfl, rfl, AList.lookup_insert _⟩

theorem hasMember_iff : g.hasMember me = true ↔
    ∃ m ∈ g.members, m.peerId = me ∧ m.status ≠ .removed := by
  simp [ChatGroup.hasMember]

/-- The group that a snapshot brings in is sound if and only if the snapshot has
the three relations that no guard checks. -/
theorem bootstrapped_sound_iff (hme : s.myCard = some me)
    (h : s.handleGroupBootstrap env payload sender = some { s with groups := s.groups ++ [g] }) :
    ∃ b, snapshotOf payload = some (b.groupId, b) ∧ (Sound me g ↔ RowsOk me b) := by
  obtain ⟨me', b, hadmits, hinto⟩ := admits_of_appended h
  obtain rfl : me' = me := Option.some.inj (hadmits.card.symm.trans hme)
  obtain ⟨hmembers, hepoch, hrecent⟩ := intoChatGroup_fields hinto
  refine ⟨b, hadmits.body, ?_⟩
  constructor
  · intro hsound
    constructor
    · rw [← hmembers]
      exact hsound.distinct
    · rw [← hmembers]
      exact hasMember_iff.mp hsound.localMember
    · rw [← hmembers, ← hepoch]
      exact hsound.joined
  · intro hrows
    constructor
    · rw [hmembers]
      exact hrows.distinct
    · obtain ⟨m, hm, hrow⟩ := List.any_eq_true.mp hadmits.admin
      have hrow : (m.peerId = b.operatorIdentity ∧ m.role = .admin) ∧ m.status ≠ .removed := by
        simpa using hrow
      exact ⟨m, hmembers ▸ hm, hrow.1.2, hrow.2⟩
    · -- the codec caps the rows, removed ones included
      obtain ⟨parts, -, hrest⟩ := Option.bind_eq_some_iff.mp hadmits.body
      obtain ⟨b', hdecode, heq⟩ := Option.map_eq_some_iff.mp hrest
      obtain ⟨-, rfl⟩ := Prod.mk.inj heq
      refine Nat.le_trans ?_ (GroupBootstrap.decode_members hdecode).1
      rw [ChatGroup.activeMembers, hmembers]
      exact List.length_filter_le _ _
    · rw [hasMember_iff, hmembers]
      exact hrows.notRemoved
    · rw [hmembers, hepoch]
      exact hrows.joined
    · exact hrecent

/-! ## Two snapshots -/

/-- Peer 1's snapshot of the sample group at epoch 3, with the given rows. -/
def sampleSnapshot (members : List GroupMember) : GroupBootstrap :=
  let unsigned : GroupBootstrap :=
    { groupId := sampleGroupId
      displayName := "trip"
      members := members
      currentEpoch := 3
      lastOpDigest := List.replicate parentDigestSize 9
      operatorIdentity := samplePeer 1
      timestampMillis := 1000
      memberSetRoot := (memberSetRootOf sampleEnv members).getD []
      signature := List.replicate signatureSize 0 }
  match unsigned.encodedHeader with
  | .ok header => { unsigned with signature := sampleSignature 2 (samplePeer 1) header }
  | .error _ => unsigned

/-- The body of the bootstrap frame with a snapshot. -/
def samplePayload (b : GroupBootstrap) : Bytes :=
  match b.encoded with
  | .ok bytes => withGroupId b.groupId bytes
  | .error _ => []

/-- Peer 2's device, paired with peer 1. -/
def sampleNewcomer : ChatStore where
  session := none
  myCard := some (samplePeer 2)
  readyRelays := true
  contacts := [⟨samplePeer 1, "alice"⟩]
  groups := []

/-- A snapshot as an honest admin makes it. -/
def soundSnapshot : GroupBootstrap :=
  sampleSnapshot
    [⟨samplePeer 1, "", .admin, 0, .active, some (samplePeer 1)⟩,
      ⟨samplePeer 2, "bob", .member, 3, .pendingSKDM, some (samplePeer 1)⟩]

theorem bootstrapped_sound_iff_newcomer :
    ∃ g, sampleNewcomer.handleGroupBootstrap sampleEnv (samplePayload soundSnapshot)
        (samplePeer 1) = some { sampleNewcomer with groups := sampleNewcomer.groups ++ [g] } ∧
      Sound (samplePeer 2) g := by
  have hadmits : Admits sampleEnv sampleNewcomer (samplePayload soundSnapshot) (samplePeer 1)
      (samplePeer 2) soundSnapshot := by
    constructor
    · rfl
    all_goals decide +kernel
  obtain ⟨g, -, hhandle⟩ := hadmits.handle_absent rfl
  obtain ⟨b, hbody, hiff⟩ := bootstrapped_sound_iff hadmits.card hhandle
  obtain rfl : b = soundSnapshot :=
    congrArg Prod.snd (Option.some.inj (hbody.symm.trans hadmits.body))
  refine ⟨g, hhandle, hiff.mpr ?_⟩
  constructor <;> decide +kernel

/-- A snapshot in which the newcomer's row stands twice, the second one removed. -/
def doubledSnapshot : GroupBootstrap :=
  sampleSnapshot
    [⟨samplePeer 1, "", .admin, 0, .active, some (samplePeer 1)⟩,
      ⟨samplePeer 2, "bob", .member, 3, .pendingSKDM, some (samplePeer 1)⟩,
      ⟨samplePeer 2, "bob", .member, 3, .removed, some (samplePeer 1)⟩]

/-- A validly signed snapshot with a doubled id passes every guard. -/
theorem doubled_row_is_bootstrapped :
    ∃ g, sampleNewcomer.handleGroupBootstrap sampleEnv (samplePayload doubledSnapshot)
        (samplePeer 1) = some { sampleNewcomer with groups := sampleNewcomer.groups ++ [g] } ∧
      ¬ Sound (samplePeer 2) g := by
  have hadmits : Admits sampleEnv sampleNewcomer (samplePayload doubledSnapshot) (samplePeer 1)
      (samplePeer 2) doubledSnapshot := by
    constructor
    · rfl
    all_goals decide +kernel
  obtain ⟨g, hinto, hhandle⟩ := hadmits.handle_absent rfl
  refine ⟨g, hhandle, fun hsound => ?_⟩
  have hdistinct := hsound.distinct
  rw [(intoChatGroup_fields hinto).1] at hdistinct
  exact absurd hdistinct (by decide +kernel)

end Pizzini.Group
