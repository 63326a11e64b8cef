import Pizzini.Group.RemovedPeers

/-!
# Who is recorded as having the key (`pizzini/pizzini/ChatStoreGroups.swift`)

`broadcastSenderKeyDistribution` records a peer in `mySkdmRecipients` once its
frame is sealed, and `ensureMySKDMReachesActiveMembers` skips the peers that are
recorded. What `sendSealedToRelays` answers, the number of relays that the frame
was handed to, is not looked at.

`Sender` is a client with the frames that a relay has got from it. A call has
the frames of `Call.perform`; those that get a delivery token and are sealed go to
the relays, if one is ready, and the peers of the others are not recorded
(`shipKey_unsealed`). In a run that seals no key while no relay is ready, whoever
is recorded has been sent the current key (`recipients_were_sent`).
-/

namespace Pizzini.Group

open Wire ChatGroup ChatStore

/-! ## Sealing -/

/-- `broadcastSenderKeyDistribution` (`ChatStoreGroups.swift:2226`) with its two
ways to fail: `seals` says of a frame that a token was minted for it and
`encryptSealed` did not throw. -/
def ChatStore.broadcastSealedKey (seals : Frame → Bool) (s : ChatStore) (skdm recipient : Bytes)
    (g : ChatGroup) : ChatGroup × List Frame :=
  if s.isContact recipient ∧ seals (keyFrame g.id skdm recipient) then
    ({ g with mySkdmRecipients := insert recipient g.mySkdmRecipients },
      [keyFrame g.id skdm recipient])
  else (g, [])

/-- The loops over it. -/
def ChatStore.shipSealedKey (seals : Frame → Bool) (s : ChatStore) (skdm : Bytes)
    (first : Bytes → List Frame) : List Bytes → ChatGroup → ChatGroup × List Frame
  | [], g => (g, [])
  | peer :: peers, g =>
    let sent := s.broadcastSealedKey seals skdm peer g
    let rest := s.shipSealedKey seals skdm first peers sent.1
    (rest.1, (first peer).filter seals ++ sent.2 ++ rest.2)

/-- A frame of a call that hands the key of `g` to `peer`. -/
def KeyFrameTo (g : ChatGroup) (peer : Bytes) (f : Frame) : Prop :=
  f.kind = .groupKeyDistribution ∧ f.recipient = peer ∧ g.id <+: f.body

instance (g : ChatGroup) (peer : Bytes) (f : Frame) : Decidable (KeyFrameTo g peer f) :=
  inferInstanceAs (Decidable (_ ∧ _ ∧ _))

/-- The group after a call that answered `frames`, without the records of the peers
whose frame was not sealed. -/
def ChatGroup.unsealed (seals : Frame → Bool) (frames : List Frame) (g : ChatGroup) : ChatGroup :=
  { g with
    mySkdmRecipients := g.mySkdmRecipients.filter fun peer =>
      ∀ f ∈ frames, KeyFrameTo g peer f → seals f = true }

/-- The store after a call. -/
def ChatStore.unsealed (seals : Frame → Bool) (frames : List Frame) (s : ChatStore) : ChatStore :=
  { s with groups := s.groups.map (ChatGroup.unsealed seals frames) }

/-! ## The sender -/

/-- A device, and what its relays have got from it. -/
structure Sender where
  store : ChatStore
  /-- The frames that were handed to at least one relay. -/
  relayed : List Frame

/-- A device that has no group yet. -/
def Sender.fresh (s : ChatStore) : Sender where
  store := { s with groups := [] }
  relayed := []

/-- What happens to a device; a call comes with the frames that it can seal. -/
inductive SendEvent where
  | call (amb : Ambient) (call : Call) (seals : Frame → Bool)
  | bookkeeping (groups : List ChatGroup)
  | relaunch (groups : List ChatGroup)
  | surroundings (session : Option Session) (readyRelays : Bool) (contacts : List Contact)

/-- The device after a call that answered `s'` and `frames`: `sendSealedToRelays` hands a
sealed frame to every relay that is ready. -/
def Sender.after (c : Sender) (seals : Frame → Bool) (s' : ChatStore) (frames : List Frame) :
    Sender where
  store := s'.unsealed seals frames
  relayed := if c.store.readyRelays then c.relayed ++ frames.filter seals else c.relayed

/-- One event. -/
def Sender.Step (env : GroupEnv) (c : Sender) : SendEvent → Sender → Prop
  | .call amb call seals, c' =>
    ∃ s' frames, call.perform env amb c.store = some (s', frames) ∧ c' = c.after seals s' frames
  | .bookkeeping groups, c' =>
    List.Forall₂ Bookkept c.store.groups groups ∧
      c' = { c with store := { c.store with groups := groups } }
  | .relaunch groups, c' =>
    Relaunched c.store.groups groups ∧ c' = { c with store := { c.store with groups := groups } }
  | .surroundings session readyRelays contacts, c' =>
    c' = { c with
      store := { c.store with
        session := session
        readyRelays := readyRelays
        contacts := contacts } }

variable {env : GroupEnv} {amb : Ambient} {s s' : ChatStore} {g g' : ChatGroup} {me : Bytes}
  {keyId : Bytes → Option UUID} {session : Session} {frames sent sent' : List Frame} {op : GroupOp}
  {seals : Frame → Bool} {groupId : Bytes} {dist : UUID}

/-- What the code relies on in `senderKeyDistributionCreate`: the message it answers names the
id that it was asked for. -/
def Mints (keyId : Bytes → Option UUID) (session : Session) : Prop :=
  ∀ dist skdm, session.senderKeyDistributionCreate dist = some skdm → keyId skdm = some dist

/-- What is assumed of an event: the sessions mint. -/
def Minting (keyId : Bytes → Option UUID) (c : Sender) : SendEvent → Prop
  | .call _ _ _ => ∀ session, c.store.session = some session → Mints keyId session
  | _ => True

/-- And with no relay ready the call seals no key. -/
def Connected (env : GroupEnv) (keyId : Bytes → Option UUID) (c : Sender) (e : SendEvent) : Prop :=
  Minting keyId c e ∧ ∀ amb call seals, e = .call amb call seals → c.store.readyRelays = false →
    ∀ s' frames, call.perform env amb c.store = some (s', frames) →
      ∀ f ∈ frames, f.kind = .groupKeyDistribution → seals f = false

/-- Whoever is recorded was sent the key of the id in use. -/
def Backed (keyId : Bytes → Option UUID) (sent : List Frame) (g : ChatGroup) : Prop :=
  ∀ peer ∈ g.mySkdmRecipients, ∃ d skdm, g.myCurrentDistributionId = some d ∧
    keyId skdm = some d ∧ keyFrame g.id skdm peer ∈ sent

/-! ## The loop and its seals -/

/-- What the loop that seals leaves. -/
theorem shipSealedKey_eq (seals : Frame → Bool) (s : ChatStore) (skdm : Bytes)
    (first : Bytes → List Frame) (peers : List Bytes) (g : ChatGroup) :
    s.shipSealedKey seals skdm first peers g =
      ({ g with
          mySkdmRecipients := g.mySkdmRecipients ∪ (peers.filter fun peer =>
            s.isContact peer && seals (keyFrame g.id skdm peer)).toFinset },
        (peers.flatMap (keyFramesTo s g.id skdm first)).filter seals) := by
  induction peers generalizing g with
  | nil =>
    rw [shipSealedKey, List.filter_nil, List.toFinset_nil, Finset.union_empty]
    rfl
  | cons peer peers ih =>
    rw [shipSealedKey, List.flatMap_cons, List.filter_append, List.filter_cons]
    by_cases hsent : s.isContact peer = true ∧ seals (keyFrame g.id skdm peer) = true
    · have hone : s.broadcastSealedKey seals skdm peer g =
          ({ g with mySkdmRecipients := insert peer g.mySkdmRecipients },
            [keyFrame g.id skdm peer]) := if_pos hsent
      rw [hone, ih, if_pos (Bool.and_eq_true_iff.mpr hsent), List.toFinset_cons,
        Finset.insert_union, Finset.union_insert, keyFramesTo, if_pos hsent.1, List.filter_append,
        List.filter_cons_of_pos hsent.2, List.filter_nil]
    · have hone : s.broadcastSealedKey seals skdm peer g = (g, []) := if_neg hsent
      have hnone : (if s.isContact peer = true then [keyFrame g.id skdm peer] else []).filter
          seals = [] := by
        split
        · next hcontact =>
          exact List.filter_eq_nil_iff.mpr fun f hf hseal =>
            hsent ⟨hcontact, List.mem_singleton.mp hf ▸ hseal⟩
        · rfl
      rw [hone, ih, if_neg (by rwa [Bool.and_eq_true]), keyFramesTo, List.filter_append, hnone]

/-- A peer that is shipped to is not recorded yet, and so the loop that seals leaves what the
loop without seals leaves, less the records of the frames that were not sealed. -/
theorem shipKey_unsealed (seals : Frame → Bool) (s : ChatStore) (skdm : Bytes)
    (first : Bytes → List Frame) {peers : List Bytes} {g : ChatGroup}
    (hfirst : ∀ peer, ∀ f ∈ first peer, f.kind ≠ .groupKeyDistribution)
    (hnew : ∀ peer ∈ peers, peer ∉ g.mySkdmRecipients) :
    s.shipSealedKey seals skdm first peers g =
      ((s.shipKey skdm first peers g).1.unsealed seals (s.shipKey skdm first peers g).2,
        (s.shipKey skdm first peers g).2.filter seals) := by
  rw [shipSealedKey_eq, shipKey_eq, ChatGroup.unsealed]
  refine Prod.ext ?_ rfl
  dsimp only
  congr 1
  -- the key frames are those to the contacts among the peers
  have hframe : ∀ {peer f}, f ∈ peers.flatMap (keyFramesTo s g.id skdm first) →
      KeyFrameTo g peer f → peer ∈ peers ∧ s.isContact peer = true ∧ f = keyFrame g.id skdm peer := by
    rintro peer f hf ⟨hkind, rfl, -⟩
    obtain ⟨p, hp, hf⟩ := List.mem_flatMap.mp hf
    rcases List.mem_append.mp hf with hf | hf
    · exact absurd hkind (hfirst p f hf)
    · split at hf
      · next hcontact =>
        obtain rfl := List.mem_singleton.mp hf
        exact ⟨hp, hcontact, rfl⟩
      · cases hf
  ext peer
  simp only [Finset.mem_union, List.mem_toFinset, List.mem_filter, Finset.mem_filter,
    Bool.and_eq_true]
  constructor
  · rintro (hold | ⟨hpeer, hcontact, hseal⟩)
    · exact ⟨.inl hold, fun f hf hto => absurd hold (hnew peer (hframe hf hto).1)⟩
    · refine ⟨.inr ⟨hpeer, hcontact⟩, fun f hf hto => ?_⟩
      rw [(hframe hf hto).2.2]
      exact hseal
  · rintro ⟨hold | ⟨hpeer, hcontact⟩, hsealed⟩
    · exact .inl hold
    · refine .inr ⟨hpeer, hcontact, hsealed _ ?_ ⟨rfl, rfl, List.prefix_append _ _⟩⟩
      refine List.mem_flatMap.mpr ⟨peer, hpeer, List.mem_append_right _ ?_⟩
      rw [if_pos hcontact]
      exact List.mem_singleton_self _

/-! ## One group -/

/-- What a run keeps of a group; the lengths are those that the database packs the set with. -/
structure Recorded (keyId : Bytes → Option UUID) (sent : List Frame) (g : ChatGroup) : Prop where
  rows : ∀ m ∈ g.members, m.peerId.length = identityKeySize
  recipients : ∀ peer ∈ g.mySkdmRecipients, peer.length = identityKeySize
  backed : Backed keyId sent g

namespace Recorded

theorem mono (h : Recorded keyId sent g) (hsub : ∀ f ∈ sent, f ∈ sent') :
    Recorded keyId sent' g where
  rows := h.rows
  recipients := h.recipients
  backed peer hpeer := by
    obtain ⟨d, skdm, hdist, hkey, hf⟩ := h.backed peer hpeer
    exact ⟨d, skdm, hdist, hkey, hsub _ hf⟩

/-- A change that keeps the id in use and records nobody. -/
theorem keep (h : Recorded keyId sent g) (hid : g'.id = g.id)
    (hdist : g'.myCurrentDistributionId = g.myCurrentDistributionId)
    (hrows : ∀ m ∈ g'.members, m.peerId.length = identityKeySize)
    (hrecipients : g'.mySkdmRecipients ⊆ g.mySkdmRecipients) : Recorded keyId sent g' where
  rows := hrows
  recipients peer hpeer := h.recipients peer (hrecipients hpeer)
  backed peer hpeer := by
    obtain ⟨d, skdm, hd, hkey, hf⟩ := h.backed peer (hrecipients hpeer)
    exact ⟨d, skdm, hdist.trans hd, hkey, hid ▸ hf⟩

/-- A new id, with nobody recorded. -/
theorem blank (hrows : ∀ m ∈ g.members, m.peerId.length = identityKeySize)
    (hrecipients : g.mySkdmRecipients = ∅) : Recorded keyId sent g where
  rows := hrows
  recipients peer hpeer := by
    rw [hrecipients] at hpeer
    cases hpeer
  backed peer hpeer := by
    rw [hrecipients] at hpeer
    cases hpeer

/-- The key of the id in use is shipped to members. -/
theorem ship (h : Recorded keyId sent g) (s : ChatStore) {skdm : Bytes}
    (first : Bytes → List Frame) {peers : List Bytes} (hdist : g.myCurrentDistributionId = some dist)
    (hkey : keyId skdm = some dist) (hpeers : ∀ peer ∈ peers, peer.length = identityKeySize) :
    Recorded keyId (sent ++ (s.shipKey skdm first peers g).2) (s.shipKey skdm first peers g).1 := by
  rw [shipKey_eq]
  refine ⟨h.rows, fun peer hpeer => ?_, fun peer hpeer => ?_⟩
  · rcases Finset.mem_union.mp hpeer with hold | hnew
    · exact h.recipients peer hold
    · exact hpeers peer (List.mem_filter.mp (List.mem_toFinset.mp hnew)).1
  · rcases Finset.mem_union.mp hpeer with hold | hnew
    · obtain ⟨d, skdm', hd, hkey', hf⟩ := h.backed peer hold
      exact ⟨d, skdm', hd, hkey', List.mem_append_left _ hf⟩
    · obtain ⟨hlisted, hcontact⟩ := List.mem_filter.mp (List.mem_toFinset.mp hnew)
      refine ⟨dist, skdm, hdist, hkey, List.mem_append_right _ ?_⟩
      refine List.mem_flatMap.mpr ⟨peer, hlisted, List.mem_append_right _ ?_⟩
      rw [if_pos hcontact]
      exact List.mem_singleton_self _

/-- Only sealed frames count, and only their peers stay recorded. -/
theorem unsealed (h : Recorded keyId (sent ++ frames) g) (seals : Frame → Bool) :
    Recorded keyId (sent ++ frames.filter seals) (g.unsealed seals frames) where
  rows := h.rows
  recipients peer hpeer := h.recipients peer (Finset.mem_filter.mp hpeer).1
  backed peer hpeer := by
    obtain ⟨hrecorded, hsealed⟩ := Finset.mem_filter.mp hpeer
    obtain ⟨d, skdm, hd, hkey, hf⟩ := h.backed peer hrecorded
    refine ⟨d, skdm, hd, hkey, ?_⟩
    rcases List.mem_append.mp hf with hold | hnew
    · exact List.mem_append_left _ hold
    · exact List.mem_append_right _ (List.mem_filter.mpr
        ⟨hnew, hsealed _ hnew ⟨rfl, rfl, List.prefix_append _ _⟩⟩)

end Recorded

/-- Every row is that of a whole identity. -/
def WholeIds (ms : List GroupMember) : Prop := ∀ m ∈ ms, m.peerId.length = identityKeySize

theorem WholeIds.updateFirst {p : GroupMember → Bool} {f : GroupMember → GroupMember}
    {ms : List GroupMember} (h : WholeIds ms)
    (hf : ∀ m ∈ ms, (f m).peerId.length = identityKeySize) : WholeIds (updateFirst p f ms) := by
  intro m hm
  rcases mem_updateFirst hm with hold | ⟨old, hold, -, rfl⟩
  · exact h m hold
  · exact hf old hold

theorem WholeIds.effect (h : WholeIds g.members) (heffect : Effect op g g') :
    WholeIds g'.members := by
  cases heffect with
  | readd _ size => exact h.updateFirst fun _ _ => size
  | add _ size =>
    intro m hm
    rcases List.mem_append.mp hm with hold | hnew
    · exact h m hold
    · rw [List.mem_singleton.mp hnew]
      exact size
  | remove | promote | demote => exact h.updateFirst fun m hm => h m hm
  | rename => exact h
  | @rotate dist =>
    obtain ⟨previous, heq⟩ := setMemberDistId_eq g dist op.operatorIdentity
    rw [heq]
    exact h

/-- `apply` records nobody, and its rows are whole identities. -/
theorem Recorded.apply {outcome : ApplyOutcome} {sx : ApplySideEffects}
    (h : Recorded keyId sent g)
    (happly : g.apply env op { localIdentityPub := some me } = some (outcome, g', sx)) :
    Recorded keyId sent g' := by
  have hflags := Flags.of_apply happly
  have hrows : WholeIds g'.members := by
    refine apply_invariant (fun k => WholeIds k.members) happly (fun _ _ hk => hk)
      (fun _ hlands hk => ?_) h.rows
    obtain ⟨g₁, hmutate, rfl⟩ := hlands.mutated
    have hrows := hk.effect (mutate_effect hmutate)
    exact hrows
  exact h.keep hflags.id hflags.dist hrows hflags.recipients

theorem others_whole (h : WholeIds g.members) : ∀ peer ∈ others g me, peer.length = identityKeySize := by
  intro peer hpeer
  obtain ⟨m, hm, rfl, -⟩ := hasMember_iff.mp (mem_others.mp hpeer).1
  exact h m hm

/-! ## All groups -/

/-- What a run keeps. -/
def AllRecorded (keyId : Bytes → Option UUID) (sent : List Frame) (groups : List ChatGroup) : Prop :=
  ∀ g ∈ groups, Recorded keyId sent g

theorem AllRecorded.mono {groups : List ChatGroup} (h : AllRecorded keyId sent groups)
    (hsub : ∀ f ∈ sent, f ∈ sent') : AllRecorded keyId sent' groups :=
  fun g hg => (h g hg).mono hsub

theorem AllRecorded.later {groups : List ChatGroup} (h : AllRecorded keyId sent groups)
    (frames : List Frame) : AllRecorded keyId (sent ++ frames) groups :=
  h.mono fun _ => List.mem_append_left _

/-- A write of one group. -/
theorem AllRecorded.setGroup (h : AllRecorded keyId sent s.groups) (hg : Recorded keyId sent g) :
    AllRecorded keyId sent (s.setGroup g).groups := by
  intro k hk
  rcases mem_setFirst hk with rfl | hk
  · exact hg
  · exact h k hk

theorem AllRecorded.found (h : AllRecorded keyId sent s.groups)
    (hfind : s.findGroup groupId = some g) : Recorded keyId sent g :=
  h g (List.mem_of_find?_eq_some hfind)

/-- A rotation records nobody under the old id, and the others under the new one. -/
theorem rotate_recorded (hmints : ∀ session, s.session = some session → Mints keyId session)
    (h : AllRecorded keyId sent s.groups)
    (hrotate : rotateMyGroupChain env amb groupId s = some (s', frames)) :
    AllRecorded keyId (sent ++ frames) s'.groups := by
  rw [rotateMyGroupChain] at hrotate
  split at hrotate
  · next session me g hsession hcard hfind =>
    split at hrotate
    · cases hrotate
      exact h.later []
    split at hrotate
    · cases hrotate
      exact h.later []
    next skdm hskdm =>
    split at hrotate
    · cases hrotate
    · cases hrotate
      exact h.later []
    split at hrotate
    · cases hrotate
    · next g' sx happly =>
      have hrotated : Recorded keyId sent (g'.rotated amb me) :=
        .blank ((h.found hfind).apply happly).rows rfl
      dsimp only at hrotate
      split at hrotate
      · cases hrotate
        exact (h.setGroup hrotated).later []
      · cases hrotate
        exact (h.later _).setGroup
          (hrotated.ship s _ rfl (hmints session hsession _ _ hskdm) (others_whole hrotated.rows))
    · next happly =>
      cases hrotate
      exact (h.setGroup ((h.found hfind).apply happly)).later []
  · cases hrotate
    exact h.later []

/-- The hooks reach the members without the key. -/
theorem ensure_recorded (hcard : s.myCard = some me) (hmints : Mints keyId session)
    (h : Recorded keyId sent g) :
    Recorded keyId (sent ++ (s.ensureMySKDMReachesActiveMembers session g).2)
      (s.ensureMySKDMReachesActiveMembers session g).1 := by
  rw [ensureMySKDMReachesActiveMembers, hcard]
  have hquiet : Recorded keyId (sent ++ []) g := h.mono fun _ => List.mem_append_left _
  split
  · next hcard' hdist =>
    cases hcard'
    dsimp only
    split
    · exact hquiet
    split
    · exact hquiet
    · next hskdm =>
      exact h.ship s _ hdist (hmints _ _ hskdm) fun peer hpeer =>
        others_whole h.rows peer (List.mem_filter.mp hpeer).1
  · exact hquiet

/-- The first join draws an id and ships its key. -/
theorem enrol_recorded (hmints : Mints keyId session) (h : Recorded keyId sent g) :
    Recorded keyId (sent ++ (s.enrolMyChainOnFirstJoin amb session g).2)
      (s.enrolMyChainOnFirstJoin amb session g).1 := by
  have hquiet : Recorded keyId (sent ++ []) g := h.mono fun _ => List.mem_append_left _
  rw [enrolMyChainOnFirstJoin]
  split
  · next me _ _ =>
    split
    · exact hquiet
    · next hskdm =>
      have hwhole : WholeIds (g.enrolled amb me).members :=
        WholeIds.updateFirst h.rows fun m hm => h.rows m hm
      have henrolled : Recorded keyId sent (g.enrolled amb me) := .blank hwhole rfl
      exact henrolled.ship s _ rfl (hmints _ _ hskdm) (others_whole hwhole)
  · exact hquiet

theorem hooks_recorded {sx : ApplySideEffects} (hcard : s.myCard = some me)
    (hmints : ∀ session, s.session = some session → Mints keyId session)
    (hsession : s.session = some session) (h : AllRecorded keyId sent s.groups)
    (hg : Recorded keyId sent g)
    (hhooks : applyPostMutationSideEffects env amb session g sx s = some (s', frames)) :
    AllRecorded keyId (sent ++ frames) s'.groups := by
  have hhooked : Recorded keyId sent (g.hooked amb me sx) := by
    rw [hooked]
    split
    · exact .blank hg.rows rfl
    · exact hg
  obtain ⟨-, rfl, rfl⟩ | ⟨-, -, ⟨-, hrotate⟩ | ⟨-, r, hship, rfl, rfl⟩⟩ := hooks_cases hcard hhooks
  · exact (h.setGroup hhooked).later []
  · exact rotate_recorded (s := s.setGroup (g.hooked amb me sx)) hmints (h.setGroup hhooked) hrotate
  · have hreached := ensure_recorded hcard (hmints session hsession) hhooked
    rw [hship] at hreached
    obtain ⟨log, hlog⟩ := surfaceUnverified_eq s sx.newActiveMembers r.1
    refine (h.later _).setGroup ?_
    rw [hlog]
    exact hreached.keep rfl rfl hreached.rows (Finset.Subset.refl _)

/-! ## One call -/

theorem Does.recorded {arrived : List GroupOp} (hcard : s.myCard = some me)
    (hmints : ∀ session, s.session = some session → Mints keyId session)
    (h : AllRecorded keyId sent s.groups) (hdoes : Does env amb me arrived s s' frames) :
    AllRecorded keyId (sent ++ frames) s'.groups := by
  have hrow : ∀ {t : ChatStore} {sent' : List Frame} {groupId : Bytes} {g : ChatGroup}
      (text : String), AllRecorded keyId sent' t.groups → t.findGroup groupId = some g →
      AllRecorded keyId sent' (t.setGroup (g.appendSystem text)).groups := by
    intro t sent' groupId g text ht hfind
    have hg := ht.found hfind
    exact ht.setGroup (hg.keep rfl rfl hg.rows (Finset.Subset.refl _))
  cases hdoes with
  | nothing => exact h.later []
  | row text hfind => exact (hrow text h hfind).later []
  | @refused _ _ g' _ _ _ log hfind happly =>
    have hg := (h.found hfind).apply happly
    have hlogged : Recorded keyId sent { g' with log := log } :=
      hg.keep rfl rfl hg.rows (Finset.Subset.refl _)
    exact (h.setGroup hlogged).later []
  | @hooked _ g g' _ _ _ session _ before fs hsession hfind happly _ _ hhooks =>
    have hg := (h.found hfind).apply happly
    have hkept := hooks_recorded (s := s.setGroup g') hcard hmints hsession (h.setGroup hg) hg hhooks
    exact hkept.mono fun f hf => by
      rcases List.mem_append.mp hf with hold | hnew
      · exact List.mem_append_left _ hold
      · exact List.mem_append_right _ (List.mem_append_right _ hnew)
  | @keyArrived _ sender g dist session _ _ hsession hfind hhooks =>
    have hg := h.found hfind
    have hkeyed : Recorded keyId sent (g.keyed dist sender) := by
      obtain ⟨previous, heq⟩ := setMemberDistId_eq g dist sender
      rw [keyed, flipActive, heq]
      refine hg.keep rfl rfl ?_ (Finset.Subset.refl _)
      exact WholeIds.updateFirst hg.rows fun m hm => hg.rows m hm
    exact hooks_recorded (s := s.setGroup (g.keyed dist sender)) hcard hmints hsession
      (h.setGroup hkeyed) hkeyed hhooks
  | rotated _ hrotate hshown =>
    have hrotated := rotate_recorded hmints h hrotate
    rcases hshown with rfl | ⟨g, text, hfind, rfl⟩
    · exact hrotated
    · exact hrow text hrotated hfind
  | left hrotate =>
    exact fun g hg => rotate_recorded hmints h hrotate g (List.mem_of_mem_eraseP hg)
  | removed => exact fun g hg => h.later [] g (List.mem_of_mem_eraseP hg)
  | @resent _ g _ _ _ hsession hfind hdist _ hskdm =>
    have hg := h.found hfind
    have hblank : Recorded keyId sent { g with mySkdmRecipients := ∅ } := .blank hg.rows rfl
    exact (h.later _).setGroup
      (hblank.ship s _ hdist (hmints _ hsession _ _ hskdm) (others_whole hg.rows))
  | @accepted _ g session hsession hfind =>
    have hg := h.found hfind
    have hanswered : Recorded keyId sent { g with pendingInvitation := false } :=
      hg.keep rfl rfl hg.rows (Finset.Subset.refl _)
    exact (h.later _).setGroup (enrol_recorded (hmints session hsession) hanswered)
  | @created g _ _ first _ hsession hinvited hrows _ _ hskdm =>
    have hwhole : WholeIds (g.founded amb me).members :=
      WholeIds.updateFirst hinvited.rows fun m hm => hinvited.rows m hm
    have hfounded : Recorded keyId sent (g.founded amb me) := .blank hwhole hinvited.recipients
    have hshipped := hfounded.ship s first rfl (hmints _ hsession _ _ hskdm) fun peer hpeer => by
      obtain ⟨m, hm, rfl⟩ := (hrows peer).mpr (.inr hpeer)
      exact hinvited.rows m hm
    intro k hk
    rcases List.mem_append.mp hk with hold | hnew
    · exact h.later _ k hold
    · rw [List.mem_singleton.mp hnew]
      exact hshipped
  | joined hinvited =>
    intro g hg
    rcases List.mem_append.mp hg with hold | hnew
    · exact h.later [] g hold
    · rw [List.mem_singleton.mp hnew]
      exact .blank hinvited.rows hinvited.recipients

/-- Every call, a rotation of an invitation that waits for its answer too. -/
theorem perform_recorded {call : Call} (hcard : s.myCard = some me)
    (hmints : ∀ session, s.session = some session → Mints keyId session)
    (h : AllRecorded keyId sent s.groups) (hperform : call.perform env amb s = some (s', frames)) :
    AllRecorded keyId (sent ++ frames) s'.groups := by
  by_cases hanswered : call.Answered s
  · exact (perform_does hcard hanswered hperform).recorded hcard hmints h
  · cases call with
    | rotateMyGroupChain groupId => exact rotate_recorded hmints h hperform
    | _ => exact absurd trivial hanswered

theorem perform_writes {call : Call} (hcard : s.myCard = some me)
    (hperform : call.perform env amb s = some (s', frames)) : Writes s s' := by
  by_cases hanswered : call.Answered s
  · exact (perform_does hcard hanswered hperform).writes hcard
  · cases call with
    | rotateMyGroupChain groupId => exact rotateMyGroupChain_writes hperform
    | _ => exact absurd trivial hanswered

/-! ## Runs -/

/-- The invariant of a run. -/
structure Truthful (keyId : Bytes → Option UUID) (me : Bytes) (c : Sender) : Prop where
  card : c.store.myCard = some me
  recorded : AllRecorded keyId c.relayed c.store.groups

/-- Groups that are reloaded or that the rest of the app has written to. -/
theorem AllRecorded.forall₂ {groups groups' : List ChatGroup}
    (h : AllRecorded keyId sent groups)
    (hpairs : List.Forall₂ (fun k k' => Recorded keyId sent k → Recorded keyId sent k')
      groups groups') : AllRecorded keyId sent groups' := by
  induction hpairs with
  | nil => exact h
  | cons hpair _ ih =>
    intro k hk
    rcases List.mem_cons.mp hk with rfl | hk
    · exact hpair (h _ List.mem_cons_self)
    · exact ih (fun k hk => h k (List.mem_cons_of_mem _ hk)) k hk

/-- The rows of the database bring the set back. -/
theorem Recorded.fromDisk (h : Recorded keyId sent g) (hdisk : FromDisk g g') :
    Recorded keyId sent g' := by
  obtain ⟨hid, hmembers, -, hdist, -⟩ := fromDisk_fields hdisk
  obtain ⟨db, db', createdAt, -, -, rfl⟩ := hdisk
  have hrecipients : ChatGroup.mySkdmRecipients
      (loadGroup db' { groupRow g with createdAt := createdAt }) = g.mySkdmRecipients :=
    unpack33ByteSet_pack33ByteSet h.recipients
  refine h.keep hid hdist (fun m hm => ?_) hrecipients.subset
  obtain ⟨k, hk, rfl⟩ := List.mem_map.mp (hmembers.subset hm)
  exact h.rows k hk

/-- What one event keeps. -/
theorem Truthful.step {c c' : Sender} {e : SendEvent} (hc : Truthful keyId me c)
    (hok : Connected env keyId c e) (hstep : c.Step env e c') : Truthful keyId me c' := by
  cases e with
  | call amb call seals =>
    obtain ⟨s', frames, hperform, rfl⟩ := hstep
    obtain ⟨hmints, hconnected⟩ := hok
    have hrecorded := perform_recorded hc.card hmints hc.recorded hperform
    obtain ⟨written, rfl⟩ := perform_writes hc.card hperform
    refine ⟨hc.card, fun k hk => ?_⟩
    obtain ⟨g, hg, rfl⟩ := List.mem_map.mp hk
    have hsealed := (hrecorded g hg).unsealed seals
    rw [Sender.after]
    dsimp only
    split
    · exact hsealed
    · next hnone =>
      -- no relay is ready, and no key was sealed: what is recorded was sent before
      refine ⟨hsealed.rows, hsealed.recipients, fun peer hpeer => ?_⟩
      obtain ⟨d, skdm, hd, hkey, hf⟩ := hsealed.backed peer hpeer
      refine ⟨d, skdm, hd, hkey, ?_⟩
      rcases List.mem_append.mp hf with hold | hnew
      · exact hold
      · obtain ⟨hf, hseal⟩ := List.mem_filter.mp hnew
        rw [hconnected amb call seals rfl (Bool.eq_false_iff.mpr hnone) _ frames hperform _ hf rfl]
          at hseal
        cases hseal
  | bookkeeping groups =>
    obtain ⟨hpairs, rfl⟩ := hstep
    refine ⟨hc.card, hc.recorded.forall₂ (hpairs.imp ?_)⟩
    rintro k _ ⟨log, count, rfl⟩ hk
    exact hk.keep rfl rfl hk.rows (Finset.Subset.refl _)
  | relaunch groups =>
    obtain ⟨⟨kept, hkept, hpairs⟩, rfl⟩ := hstep
    have hsome : AllRecorded keyId c.relayed kept := fun k hk => hc.recorded k (hkept.subset hk)
    exact ⟨hc.card, hsome.forall₂ (hpairs.imp fun k k' hdisk hk => hk.fromDisk hdisk)⟩
  | surroundings session readyRelays contacts =>
    cases hstep
    exact ⟨hc.card, hc.recorded⟩

/-- In a run that seals no key while no relay is ready, whoever is recorded as having the key was
sent the key of the id in use by a relay; so nobody whom `ensureMySKDMReachesActiveMembers` passes
over was never sent it. -/
theorem recipients_were_sent {c : Sender} {s₀ : ChatStore} (hcard : s₀.myCard = some me)
    (hrun : Runs.Reach (Sender.Step env) (Connected env keyId) (.fresh s₀) c) :
    ∀ g ∈ c.store.groups, Backed keyId c.relayed g ∧
      ∀ session skdm d, g.myCurrentDistributionId = some d →
        session.senderKeyDistributionCreate d = some skdm →
        ∀ peer ∈ others g me, c.store.isContact peer = true →
          keyFrame g.id skdm peer ∈ (c.store.ensureMySKDMReachesActiveMembers session g).2 ∨
            ∃ skdm', keyId skdm' = some d ∧ keyFrame g.id skdm' peer ∈ c.relayed := by
  have hc : Truthful keyId me c :=
    hrun.invariant (Truthful keyId me) (fun hc hok hstep => hc.step hok hstep)
      ⟨hcard, fun _ hg => absurd hg List.not_mem_nil⟩
  intro g hg
  have hbacked := (hc.recorded g hg).backed
  refine ⟨hbacked, fun session skdm d hd hskdm peer hpeer hcontact => ?_⟩
  by_cases hrecorded : peer ∈ g.mySkdmRecipients
  · obtain ⟨d', skdm', hd', hkey, hf⟩ := hbacked peer hrecorded
    rw [hd] at hd'
    cases hd'
    exact .inr ⟨skdm', hkey, hf⟩
  · have hneeds : peer ∈ (others g me).filter fun peerId => peerId ∉ g.mySkdmRecipients :=
      List.mem_filter.mpr ⟨hpeer, decide_eq_true hrecorded⟩
    refine .inl ?_
    rw [ensureMySKDMReachesActiveMembers, hc.card, hd]
    dsimp only
    rw [if_neg (List.ne_nil_of_mem hneeds), hskdm]
    exact (shipKey_ships c.store skdm _ _ g).reached peer hneeds hcontact

/-! ### Peer 2 accepts, online and offline -/

/-- The device after a call whose frames are all sealed. -/
def Sender.did (n : UInt8) (call : Call) (c : Sender) : Sender :=
  match call.perform namingEnv (sampleAmbient n) c.store with
  | some (s', frames) => c.after (fun _ => true) s' frames
  | none => c

/-- The relays go or come back. -/
def Sender.withRelays (readyRelays : Bool) (c : Sender) : Sender :=
  { c with store := { c.store with readyRelays := readyRelays } }

/-- The device is the one of peer 2. -/
structure Sender.OfPeer2 (c : Sender) : Prop where
  card : c.store.myCard = some (samplePeer 2)
  session : c.store.session = some (sampleSession (samplePeer 2))

theorem sampleSession_mints (me : Bytes) : Mints asUUID (sampleSession me) := by
  intro dist skdm h
  cases h
  exact asUUID_val dist

namespace Sender.OfPeer2

variable {c c₀ : Sender}

theorem mints (h : c.OfPeer2) : ∀ session, c.store.session = some session → Mints asUUID session := by
  intro session hsession
  rw [h.session] at hsession
  cases hsession
  exact sampleSession_mints _

theorem withRelays (h : c.OfPeer2) (readyRelays : Bool) : (c.withRelays readyRelays).OfPeer2 :=
  ⟨h.card, h.session⟩

/-- A sample call is a step of a run. -/
theorem did (h : c.OfPeer2) {ok : Sender → SendEvent → Prop} (n : UInt8) (call : Call)
    (hrun : Runs.Reach (Sender.Step namingEnv) ok c₀ c)
    (hdone : (call.perform namingEnv (sampleAmbient n) c.store).isSome = true)
    (hok : ok c (.call (sampleAmbient n) call fun _ => true)) :
    (c.did n call).OfPeer2 ∧ Runs.Reach (Sender.Step namingEnv) ok c₀ (c.did n call) := by
  obtain ⟨⟨s', frames⟩, hperform⟩ := Option.isSome_iff_exists.mp hdone
  have hdid : c.did n call = c.after (fun _ => true) s' frames := by
    rw [Sender.did, hperform]
  have hstep : c.Step namingEnv (.call (sampleAmbient n) call fun _ => true) (c.did n call) :=
    ⟨s', frames, hperform, hdid⟩
  refine ⟨?_, hrun.snoc hstep hok⟩
  rw [hdid]
  obtain ⟨groups, rfl⟩ := perform_writes h.card hperform
  exact ⟨h.card, h.session⟩

end Sender.OfPeer2

/-- Peer 1 has invited peer 2 to a group with peer 3. -/
def sampleWaiting : Sender :=
  (Sender.fresh (sampleDevice 2 [1, 3] [])).did 1 (arrivesFrom1 (sampleCreate [1, 2, 3]))

/-- Peer 2 accepts. -/
def sampleEnrolled : Sender := sampleWaiting.did 2 (.acceptGroupInvitation sampleGroupId)

/-- Peer 2 accepts while no relay is ready, then the relays come back. -/
def sampleUnheard : Sender :=
  ((sampleWaiting.withRelays false).did 2 (.acceptGroupInvitation sampleGroupId)).withRelays true

theorem recipients_were_sent_enrolled :
    ∃ g ∈ sampleEnrolled.store.groups, g.mySkdmRecipients = {samplePeer 1, samplePeer 3} ∧
      Backed asUUID sampleEnrolled.relayed g := by
  have hready : ∀ {c : Sender} {n : UInt8} {call : Call}, c.OfPeer2 → c.store.readyRelays = true →
      Connected namingEnv asUUID c (.call (sampleAmbient n) call fun _ => true) := by
    refine fun hpeer hrelays => ⟨hpeer.mints, fun _ _ _ _ hnone => ?_⟩
    rw [hrelays] at hnone
    cases hnone
  have hfresh : (Sender.fresh (sampleDevice 2 [1, 3] [])).OfPeer2 := ⟨rfl, rfl⟩
  obtain ⟨hpeer, hwaiting⟩ : sampleWaiting.OfPeer2 ∧
      Runs.Reach (Sender.Step namingEnv) (Connected namingEnv asUUID)
        (.fresh (sampleDevice 2 [1, 3] [])) sampleWaiting :=
    hfresh.did 1 (arrivesFrom1 (sampleCreate [1, 2, 3])) .refl (by decide +kernel)
      (hready hfresh rfl)
  have hrelays : sampleWaiting.store.readyRelays = true := by decide +kernel
  obtain ⟨-, henrolled⟩ : sampleEnrolled.OfPeer2 ∧
      Runs.Reach (Sender.Step namingEnv) (Connected namingEnv asUUID)
        (.fresh (sampleDevice 2 [1, 3] [])) sampleEnrolled :=
    hpeer.did 2 (.acceptGroupInvitation sampleGroupId) hwaiting (by decide +kernel)
      (hready hpeer hrelays)
  have hrow : (sampleEnrolled.store.groups.any fun g =>
      g.mySkdmRecipients = {samplePeer 1, samplePeer 3}) = true := by
    decide +kernel
  obtain ⟨g, hg, hrecipients⟩ := List.any_eq_true.mp hrow
  exact ⟨g, hg, of_decide_eq_true hrecipients, (recipients_were_sent rfl henrolled g hg).1⟩

/-- Offline, the key of the new chain reaches no relay and its peers are recorded all the same;
once the relays are back nothing is sent to peer 3. -/
theorem offline_enrolment_records_unsent :
    Runs.Reach (Sender.Step namingEnv) (Minting asUUID) (.fresh (sampleDevice 2 [1, 3] []))
        sampleUnheard ∧
      sampleUnheard.relayed = [] ∧
      ∃ g ∈ sampleUnheard.store.groups, samplePeer 3 ∈ g.mySkdmRecipients ∧
        samplePeer 3 ∈ others g (samplePeer 2) ∧
        (sampleUnheard.store.ensureMySKDMReachesActiveMembers (sampleSession (samplePeer 2)) g).2 =
          [] ∧
        ¬ Backed asUUID sampleUnheard.relayed g := by
  have hfresh : (Sender.fresh (sampleDevice 2 [1, 3] [])).OfPeer2 := ⟨rfl, rfl⟩
  obtain ⟨hpeer, hwaiting⟩ : sampleWaiting.OfPeer2 ∧
      Runs.Reach (Sender.Step namingEnv) (Minting asUUID) (.fresh (sampleDevice 2 [1, 3] []))
        sampleWaiting :=
    hfresh.did 1 (arrivesFrom1 (sampleCreate [1, 2, 3])) .refl (by decide +kernel) hfresh.mints
  have hturn : ∀ (ready : Bool) (c : Sender), c.Step namingEnv
      (.surroundings c.store.session ready c.store.contacts) (c.withRelays ready) :=
    fun _ _ => rfl
  have hoffline : Runs.Reach (Sender.Step namingEnv) (Minting asUUID)
      (.fresh (sampleDevice 2 [1, 3] [])) (sampleWaiting.withRelays false) :=
    hwaiting.snoc (hturn false _) trivial
  have hoff := hpeer.withRelays false
  have hdone : (Call.perform namingEnv (sampleAmbient 2) (sampleWaiting.withRelays false).store
      (.acceptGroupInvitation sampleGroupId)).isSome = true := by
    decide +kernel
  have hminting : Minting asUUID (sampleWaiting.withRelays false) (.call (sampleAmbient 2)
      (.acceptGroupInvitation sampleGroupId) fun _ => true) := hoff.mints
  obtain ⟨-, haccepted⟩ := hoff.did 2 (.acceptGroupInvitation sampleGroupId) hoffline hdone hminting
  have hrun : Runs.Reach (Sender.Step namingEnv) (Minting asUUID)
      (.fresh (sampleDevice 2 [1, 3] [])) sampleUnheard :=
    haccepted.snoc (hturn true _) trivial
  have hrelayed : sampleUnheard.relayed = [] := by decide +kernel
  have hrow : (sampleUnheard.store.groups.any fun g =>
      decide (samplePeer 3 ∈ g.mySkdmRecipients) &&
        decide (samplePeer 3 ∈ others g (samplePeer 2)) &&
        decide ((sampleUnheard.store.ensureMySKDMReachesActiveMembers
          (sampleSession (samplePeer 2)) g).2 = [])) = true := by
    decide +kernel
  obtain ⟨g, hg, hrow⟩ := List.any_eq_true.mp hrow
  simp only [Bool.and_eq_true, decide_eq_true_eq] at hrow
  obtain ⟨⟨hrecorded, hmember⟩, hskipped⟩ := hrow
  refine ⟨hrun, hrelayed, g, hg, hrecorded, hmember, hskipped, fun hbacked => ?_⟩
  obtain ⟨_, _, -, -, hf⟩ := hbacked _ hrecorded
  rw [hrelayed] at hf
  cases hf

end Pizzini.Group
