import Pizzini.Relay.Server

/-!
# On whose word the relay forwards

Nothing that the relay hands to a connection is its own, except the answers to
STATUS_REQUESTs. In every run of the whole relay (`served_frames_vouched`)

- a SEND or ACK that is handed to a channel was read from a connection, goes to
  a connection whose HELLO the recipient signed, and carries a token of a chain
  that the recipient registered: the token passes `HashChainToken.verify`;
- a CHAIN_SEED_DELIVERY, BUNDLE_REQUEST or BUNDLE_RESPONSE names as its sender
  the peer that signed the HELLO of the connection it was read from, and a
  request has its proof of work.

What was read is the only thing the argument needs of the other tables, so the
invariant is about the part of the state in `Traffic`.
-/

namespace Pizzini.Relay

open Runs Wire Delivery Client

/-! ## Vouching -/

section Vouching

variable {Pub : Type} (env : ServerEnv Pub) (prior : List ChainRegistration) (log : ServerLog)

/-- The HELLO of the connection on `ch` is `p`'s, signed with `p`'s identity key. -/
def OpenedBy (ch : ChanId) (p : PeerId) : Prop :=
  ∃ h, (ch, h) ∈ log.greeted ∧ h.peerId = p ∧ h.Proven env.keys

/-- The chain was registered by the peer it is for: in an earlier process, or on
a connection of its own. -/
def RegisteredBy (reg : ChainRegistration) : Prop :=
  reg ∈ prior ∨ ∃ ch, (ch, reg) ∈ log.registered ∧ OpenedBy env log ch reg.peerId.1

/-- A frame that may be queued for `toId`, and was read on the channel `src`. -/
inductive Vouched (src : ChanId) : PeerId → Bytes → Prop where
  | sealed {frameType : UInt8} {body : Bytes} {parsed : ParsedSealed} {chainId : ChainId}
      {index : UInt32} {value : ChainValue} {reg : ChainRegistration}
      (hread : (src, frameType :: body) ∈ log.read)
      (htype : frameType = FRAME_TYPE_SEND ∨ frameType = FRAME_TYPE_ACK)
      (hparse : parseSealed body = .ok parsed)
      (htoken : parseV2Token parsed.token = .ok (chainId, index, value))
      (hreg : RegisteredBy env prior log reg) (hkey : reg.key = (parsed.toId, chainId))
      (hverify : verify env.blake3 ⟨chainId, index.toNat, value⟩ reg.root reg.length.toNat = true) :
      Vouched src parsed.toId (frameType :: body)
  | seed {body : Bytes} {parsed : ParsedRouted}
      (hread : (src, FRAME_TYPE_CHAIN_SEED_DELIVERY :: body) ∈ log.read)
      (hparse : parseRouted body = .ok parsed) (hfrom : OpenedBy env log src parsed.fromId) :
      Vouched src parsed.toId (FRAME_TYPE_CHAIN_SEED_DELIVERY :: body)

/-- A bundle frame for `toId` that was read on the channel `src`. -/
inductive Introduced (src : ChanId) : PeerId → Bytes → Prop where
  | request {body : Bytes} {parsed : ParsedBundleRequest} {hour : UInt64}
      (hread : (src, FRAME_TYPE_BUNDLE_REQUEST :: body) ∈ log.read)
      (hparse : parseBundleRequest body = .ok parsed) (hfrom : OpenedBy env log src parsed.fromId)
      (hwork : verifyHashcash env.blake3 hour parsed.toId parsed.hashcashNonce = true) :
      Introduced src parsed.toId (FRAME_TYPE_BUNDLE_REQUEST :: body)
  | response {body : Bytes} {parsed : ParsedRouted}
      (hread : (src, FRAME_TYPE_BUNDLE_RESPONSE :: body) ∈ log.read)
      (hparse : parseRouted body = .ok parsed) (hfrom : OpenedBy env log src parsed.fromId) :
      Introduced src parsed.toId (FRAME_TYPE_BUNDLE_RESPONSE :: body)

/-- What an arm still has to do is for a frame that was vouched for. -/
def Arm.Sound (src : ChanId) : Arm → Prop
  | .dedupe _ frameType body parsed => Vouched env prior log src parsed.toId (frameType :: body)
  | .deliver f => Vouched env prior log src f.toId f.bytes
  | .exchange toId frame => Introduced env log src toId frame

end Vouching

/-- What vouching rests on is never taken back. -/
structure ServerLog.Grows (before after : ServerLog) : Prop where
  greeted : before.greeted ⊆ after.greeted
  read : before.read ⊆ after.read
  registered : before.registered ⊆ after.registered

section Growth

variable {Pub : Type} {env : ServerEnv Pub} {prior : List ChainRegistration} {log log' : ServerLog}
  {src ch : ChanId} {p : PeerId} {bytes : Bytes}

theorem ServerLog.Grows.of_eq (hgreeted : log'.greeted = log.greeted) (hread : log'.read = log.read)
    (hregistered : log'.registered = log.registered) : log.Grows log' where
  greeted := hgreeted ▸ List.Subset.refl _
  read := hread ▸ List.Subset.refl _
  registered := hregistered ▸ List.Subset.refl _

theorem OpenedBy.mono (h : OpenedBy env log ch p) (hgrows : log.Grows log') :
    OpenedBy env log' ch p := by
  obtain ⟨hello, hmem, hpeer, hproven⟩ := h
  exact ⟨hello, hgrows.greeted hmem, hpeer, hproven⟩

theorem RegisteredBy.mono {reg : ChainRegistration} (h : RegisteredBy env prior log reg)
    (hgrows : log.Grows log') : RegisteredBy env prior log' reg := by
  rcases h with hprior | ⟨ch, hmem, hopen⟩
  · exact .inl hprior
  · exact .inr ⟨ch, hgrows.registered hmem, hopen.mono hgrows⟩

theorem Vouched.mono (h : Vouched env prior log src p bytes) (hgrows : log.Grows log') :
    Vouched env prior log' src p bytes := by
  cases h with
  | sealed hread htype hparse htoken hreg hkey hverify =>
    exact .sealed (hgrows.read hread) htype hparse htoken (hreg.mono hgrows) hkey hverify
  | seed hread hparse hfrom => exact .seed (hgrows.read hread) hparse (hfrom.mono hgrows)

theorem Introduced.mono (h : Introduced env log src p bytes) (hgrows : log.Grows log') :
    Introduced env log' src p bytes := by
  cases h with
  | request hread hparse hfrom hwork =>
    exact .request (hgrows.read hread) hparse (hfrom.mono hgrows) hwork
  | response hread hparse hfrom => exact .response (hgrows.read hread) hparse (hfrom.mono hgrows)

theorem Arm.Sound.mono {arm : Arm} (h : arm.Sound env prior log src) (hgrows : log.Grows log') :
    arm.Sound env prior log' src := by
  cases arm with
  | dedupe selfId frameType body parsed => exact Vouched.mono h hgrows
  | deliver f => exact Vouched.mono h hgrows
  | exchange toId frame => exact Introduced.mono h hgrows

end Growth

/-! ## The invariant -/

variable {K Pub : Type}

/-- The part of the relay that decides what is forwarded. -/
structure Traffic where
  relay : RelayState
  chains : Dict ChainKey ChainState
  openings : List Opening
  arms : List (ChanId × Arm)
  log : ServerLog

def Server.traffic (s : Server K) : Traffic := ⟨s.relay, s.chains.map, s.openings, s.arms, s.log⟩

/-- The frames a relay started with. -/
def Server.loaded (s : Server K) (a : Accepted) : Prop :=
  ∃ f ∈ s.relay.tables.pending.queue a.toId, f.origin = a

/-- A frame in the tables was loaded or routed. -/
def Known (loaded : Accepted → Prop) (log : ServerLog) (a : Accepted) : Prop :=
  loaded a ∨ ∃ src, (src, a) ∈ log.routed

structure Traffic.Sound (env : ServerEnv Pub) (prior : List ChainRegistration)
    (loaded : Accepted → Prop) (t : Traffic) : Prop where
  tables : t.relay.Holds (Known loaded t.log) (OpenedBy env t.log)
  routed : ∀ x ∈ t.log.routed, Vouched env prior t.log x.1 x.2.toId x.2.bytes
  exchanged : ∀ x ∈ t.log.exchanged, ∃ toId, Introduced env t.log x.1 toId x.2.2 ∧
    OpenedBy env t.log x.2.1 toId
  replied : ∀ x ∈ t.log.replied, x.2 = env.status.encodeResponse ∧
    ∃ body, (x.1, FRAME_TYPE_STATUS_REQUEST :: body) ∈ t.log.read
  chains : SoundMap env.chains (prior ++ t.log.registered.map Prod.snd) t.chains
  registered : ∀ x ∈ t.log.registered, OpenedBy env t.log x.1 x.2.peerId.1
  openings : ∀ o ∈ t.openings, o.hello.Proven env.keys
  arms : ∀ x ∈ t.arms, x.2.Sound env prior t.log x.1
  /-- a channel has one HELLO -/
  channels : ∀ x ∈ t.log.greeted, x.1 < t.relay.nextChan
  single : (t.log.greeted.map Prod.fst).Nodup

/-! ## The chain store -/

section Chains

variable {env : ChainEnv} {regs : List ChainRegistration} {store : ChainValidatorStore}

/-- A request keeps the entries sound, whether its writes go through or not. -/
theorem perform_soundMap (maxAge : UInt64) (rand : Rand) (now : UInt64) (req : Request)
    (hmap : SoundMap env regs store.map) (hnew : ∀ reg, req = .register reg → reg ∈ regs) :
    SoundMap env regs (perform env maxAge rand now store req).1.map := by
  obtain hnoop | ⟨k, state, hchange, happend⟩ | ⟨-, hcompact⟩ :=
    perform_shape env maxAge rand now store req
  · rw [hnoop]
    exact hmap
  · rw [happend]
    show SoundMap env regs (appendJournal env rand _ k.1 k.2.1 state).store.map
    rw [appendJournal_map]
    exact hmap.insert (hchange.sound hmap hnew)
  · rw [hcompact]
    exact hmap.retain _

theorem checkDeliveryToken_soundMap (rand : Rand) (now : UInt64) (toId token : Bytes)
    (hmap : SoundMap env regs store.map) :
    SoundMap env regs (checkDeliveryToken env rand now store toId token).1.map := by
  unfold checkDeliveryToken
  split
  · exact hmap
  · next chainId index value _ =>
    exact perform_soundMap 0 rand now (.validate toId chainId index value) hmap (by rintro reg ⟨⟩)

/-- A token that passes is on a chain that was registered for the recipient. -/
theorem checkDeliveryToken_verifies {blake3 : Bytes → ChainValue} (hsame : SameHash env blake3)
    (hmap : SoundMap env regs store.map) {rand : Rand} {now : UInt64} {toId token : Bytes}
    {u : Unit} (hok : (checkDeliveryToken env rand now store toId token).2 = .ok u) :
    ∃ chainId index value, parseV2Token token = .ok (chainId, index, value) ∧
      ∃ reg ∈ regs, reg.key = (toId, chainId) ∧
        verify blake3 ⟨chainId, index.toNat, value⟩ reg.root reg.length.toNat = true := by
  unfold checkDeliveryToken at hok
  split at hok
  · cases hok
  · next chainId index value hparse =>
    have hacc : (validate env rand now store toId chainId index value).result = .ok .accepted := by
      simp only [outcomeAnswer] at hok
      split at hok
      · cases hok
      · assumption
      · cases hok
      · cases hok
      · cases hok
    obtain ⟨-, reg, hreg, -, hkey, -, -, hverify⟩ :=
      accepted_verifies hsame hmap (k := (toId, chainId)) hacc
    exact ⟨chainId, index, value, hparse, reg, hreg, hkey, hverify⟩

end Chains

/-! ## A frame is read -/

/-- What the first region of the arm of `frame` makes of the traffic. -/
inductive Dispatched (env : ServerEnv Pub) (prior : List ChainRegistration) (ch : ChanId)
    (frame : Bytes) (t : Traffic) : Traffic → Prop where
  | quiet : Dispatched env prior ch frame t t
  | replied (hread : ∃ body, (ch, FRAME_TYPE_STATUS_REQUEST :: body) ∈ t.log.read) :
      Dispatched env prior ch frame t
        { t with log :=
          { t.log with replied := t.log.replied ++ [(ch, env.status.encodeResponse)] } }
  | registered {reg : ChainRegistration} {chains : Dict ChainKey ChainState}
      (hself : OpenedBy env t.log ch reg.peerId.1)
      (hchains : ∀ regs, reg ∈ regs → SoundMap env.chains regs t.chains →
        SoundMap env.chains regs chains) :
      Dispatched env prior ch frame t
        { t with
          chains
          log := { t.log with registered := t.log.registered ++ [(ch, reg)] } }
  | refused {chains : Dict ChainKey ChainState}
      (hchains : ∀ regs, SoundMap env.chains regs t.chains → SoundMap env.chains regs chains) :
      Dispatched env prior ch frame t { t with chains }
  | proceeds {chains : Dict ChainKey ChainState} {arm : Arm}
      (hchains : ∀ regs, SoundMap env.chains regs t.chains → SoundMap env.chains regs chains)
      (harm : arm.Sound env prior t.log ch) (hframe : arm.frame = frame) :
      Dispatched env prior ch frame t { t with chains, arms := t.arms ++ [(ch, arm)] }

theorem parseRegisterChain_peerId {body selfId : Bytes} {reg : ChainRegistration}
    (h : parseRegisterChain body selfId = .ok reg) : reg.peerId.1 = selfId := by
  unfold parseRegisterChain at h
  split at h
  · obtain ⟨⟨chainId, c⟩, -, h⟩ := bind_eq_ok.mp h
    obtain ⟨⟨root, c⟩, -, h⟩ := bind_eq_ok.mp h
    obtain ⟨⟨length, c⟩, -, h⟩ := bind_eq_ok.mp h
    simp only at h
    split at h
    · cases h
    · cases h
      rfl
  · cases h

section Dispatch

variable {env : ServerEnv Pub} {prior : List ChainRegistration} {loaded : Accepted → Prop}
  {s : Server K} {ch : ChanId} {selfId : PeerId} {frameType : UInt8} {body : Bytes}

theorem registerChain_dispatched (at' : Reading K) {frame : Bytes}
    (hself : OpenedBy env s.log ch selfId) :
    Dispatched env prior ch frame s.traffic (s.registerChain env at' selfId ch body).traffic := by
  unfold Server.registerChain
  split
  · exact .quiet
  · next reg hparse =>
    refine .registered ?_ fun regs hreg hmap => perform_soundMap env.maxAge _ _ _ hmap ?_
    · rw [parseRegisterChain_peerId hparse]
      exact hself
    · rintro reg' ⟨⟩
      exact hreg

theorem sealedFrame_dispatched (at' : Reading K) (hsound : s.traffic.Sound env prior loaded)
    (hread : (ch, frameType :: body) ∈ s.log.read)
    (htype : frameType = FRAME_TYPE_SEND ∨ frameType = FRAME_TYPE_ACK) :
    Dispatched env prior ch (frameType :: body) s.traffic
      (s.sealedFrame env at' selfId ch frameType body).traffic := by
  unfold Server.sealedFrame
  split
  · exact .quiet
  · next parsed hparse =>
    have hchains : ∀ regs, SoundMap env.chains regs s.chains.map → SoundMap env.chains regs
        (checkDeliveryToken env.chains at'.rand at'.nowUnix s.chains parsed.toId
          parsed.token).1.map :=
      fun regs => checkDeliveryToken_soundMap _ _ _ _
    split
    · next chains _ hcheck =>
      rw [hcheck] at hchains
      exact .refused hchains
    · next chains _ hcheck =>
      have hok := congrArg Prod.snd hcheck
      obtain ⟨chainId, index, value, htoken, reg, hreg, hkey, hverify⟩ :=
        checkDeliveryToken_verifies env.sameHash hsound.chains hok
      have hregistered : RegisteredBy env prior s.log reg := by
        rcases List.mem_append.mp hreg with hprior | hlog
        · exact .inl hprior
        · obtain ⟨⟨ch', _⟩, hmem, rfl⟩ := List.mem_map.mp hlog
          exact .inr ⟨ch', hmem, hsound.registered _ hmem⟩
      rw [hcheck] at hchains
      split
      · exact .proceeds hchains (.sealed hread htype hparse htoken hregistered hkey hverify) rfl
      · exact .refused hchains

theorem bundleRequestFrame_dispatched (at' : Reading K)
    (hread : (ch, FRAME_TYPE_BUNDLE_REQUEST :: body) ∈ s.log.read)
    (hself : OpenedBy env s.log ch selfId) :
    Dispatched env prior ch (FRAME_TYPE_BUNDLE_REQUEST :: body) s.traffic
      (s.bundleRequestFrame env at' selfId ch FRAME_TYPE_BUNDLE_REQUEST body).traffic := by
  have hpassed : ∀ toId, (bundleRequest (verifyHashcash env.blake3 at'.workHour) selfId body at'.hour
      s.bundleRates).1 = .passed toId →
        Introduced env s.log ch toId (FRAME_TYPE_BUNDLE_REQUEST :: body) := by
    intro toId hverdict
    unfold bundleRequest at hverdict
    split at hverdict
    · cases hverdict
    · next parsed hparse =>
      split at hverdict
      · cases hverdict
      · next hfrom =>
        split at hverdict
        · cases hverdict
        · next hwork =>
          simp only at hverdict
          split at hverdict
          · cases hverdict
          · cases hverdict
            have hdone : verifyHashcash env.blake3 at'.workHour parsed.toId parsed.hashcashNonce =
                true := by simpa using hwork
            refine .request hread hparse ?_ hdone
            rw [not_not.mp hfrom]
            exact hself
  unfold Server.bundleRequestFrame
  simp only
  split
  · next toId hverdict => exact .proceeds (fun _ hmap => hmap) (hpassed toId hverdict) rfl
  · exact .quiet

theorem bundleResponseFrame_dispatched
    (hread : (ch, FRAME_TYPE_BUNDLE_RESPONSE :: body) ∈ s.log.read)
    (hself : OpenedBy env s.log ch selfId) :
    Dispatched env prior ch (FRAME_TYPE_BUNDLE_RESPONSE :: body) s.traffic
      (s.bundleResponseFrame selfId ch FRAME_TYPE_BUNDLE_RESPONSE body).traffic := by
  unfold Server.bundleResponseFrame
  split
  · exact .quiet
  · next parsed hparse =>
    split
    · exact .quiet
    · next hfrom =>
      refine .proceeds (fun _ hmap => hmap) (.response hread hparse ?_) rfl
      rw [not_not.mp hfrom]
      exact hself

variable [Ring K] [LinearOrder K]

/-- What `chainSeedDelivery` accepts is routed by the frame's own header. -/
theorem chainSeedDelivery_accepted {now : K} {conn : SeedConn} {rate : ChainSeedRate K}
    {toId : PeerId} (h : (chainSeedDelivery now body conn rate).1 = .accepted toId) :
    ∃ parsed, parseRouted body = .ok parsed ∧ parsed.fromId = conn.selfId ∧ parsed.toId = toId := by
  unfold chainSeedDelivery at h
  split at h
  · cases h
  · next parsed hparse =>
    split at h
    · cases h
    · next hfrom =>
      split at h
      · cases h
      · split at h
        · cases h
        · cases h
        · cases h
          exact ⟨parsed, hparse, not_not.mp hfrom, rfl⟩

theorem chainSeedFrame_dispatched (now : K)
    (hread : (ch, FRAME_TYPE_CHAIN_SEED_DELIVERY :: body) ∈ s.log.read)
    (hself : OpenedBy env s.log ch selfId) :
    Dispatched env prior ch (FRAME_TYPE_CHAIN_SEED_DELIVERY :: body) s.traffic
      (s.chainSeedFrame now selfId ch FRAME_TYPE_CHAIN_SEED_DELIVERY body).traffic := by
  unfold Server.chainSeedFrame
  simp only
  split
  · next toId hverdict =>
    obtain ⟨parsed, hparse, hfrom, rfl⟩ := chainSeedDelivery_accepted hverdict
    refine .proceeds (fun _ hmap => hmap) (.seed hread hparse ?_) rfl
    rw [hfrom]
    exact hself
  · exact .quiet

omit [Ring K] [LinearOrder K] in
theorem Dispatched.ite {c : Prop} [Decidable c] {t : Traffic} {frame : Bytes} {s' s'' : Server K}
    (hpos : c → Dispatched env prior ch frame t s'.traffic)
    (hneg : ¬ c → Dispatched env prior ch frame t s''.traffic) :
    Dispatched env prior ch frame t (if c then s' else s'').traffic := by
  split
  · next h => exact hpos h
  · next h => exact hneg h

/-- The arms of `read_loop`. -/
theorem dispatch_dispatched (at' : Reading K) {frame : Bytes}
    (hsound : s.traffic.Sound env prior loaded) (hread : (ch, frame) ∈ s.log.read)
    (hself : OpenedBy env s.log ch selfId) :
    Dispatched env prior ch frame s.traffic (s.dispatch env at' selfId ch frame).traffic := by
  cases frame with
  | nil => exact .quiet
  | cons frameType body =>
    have hcover : Dispatched env prior ch (frameType :: body) s.traffic
        (s.coverFrame ch body).traffic :=
      .ite (fun _ => .quiet) fun _ => .quiet
    have hderegister : Dispatched env prior ch (frameType :: body) s.traffic
        (s.deregisterPush selfId body).traffic :=
      .ite (fun _ => .quiet) fun _ => .quiet
    have hregister : Dispatched env prior ch (frameType :: body) s.traffic
        (s.registerPush selfId body at'.nowUnix).traffic := by
      unfold Server.registerPush
      split
      · exact .quiet
      · exact .quiet
    have hstatus : frameType = FRAME_TYPE_STATUS_REQUEST →
        Dispatched env prior ch (frameType :: body) s.traffic
          (s.statusRequest env.status ch).traffic := by
      rintro rfl
      exact .ite (fun _ => .quiet) fun _ => .replied ⟨body, hread⟩
    -- in the order of the arms; those that only refuse or keep to their own table are quiet
    rw [Server.dispatch]
    refine .ite (fun _ => .quiet) fun _ => .ite hstatus fun _ => ?_
    refine .ite (fun _ => .quiet) fun _ => .ite (fun _ => hcover) fun _ => ?_
    refine .ite (fun _ => hregister) fun _ => ?_
    refine .ite (fun _ => registerChain_dispatched at' hself) fun _ => ?_
    refine .ite (fun _ => hderegister) fun _ => ?_
    refine .ite (fun htype => sealedFrame_dispatched at' hsound hread htype) fun _ => ?_
    refine .ite ?_ fun _ => .ite ?_ fun _ => .ite ?_ fun _ => .quiet
    · rintro rfl
      exact bundleRequestFrame_dispatched at' hread hself
    · rintro rfl
      exact bundleResponseFrame_dispatched hread hself
    · rintro rfl
      exact chainSeedFrame_dispatched at'.now hread hself

end Dispatch

/-! ## One step -/

section Steps

variable {env : ServerEnv Pub} {prior : List ChainRegistration} {loaded : Accepted → Prop}

theorem Known.mono {log log' : ServerLog} {a : Accepted} (h : Known loaded log a)
    (hrouted : log.routed ⊆ log'.routed) : Known loaded log' a := by
  rcases h with hloaded | ⟨src, hmem⟩
  · exact .inl hloaded
  · exact .inr ⟨src, hrouted hmem⟩

namespace Traffic.Sound

variable {t : Traffic} {ch : ChanId}

/-- What has been passed on rests on what a longer record still holds. -/
theorem carried (h : t.Sound env prior loaded) {log : ServerLog} (hgrows : t.log.Grows log) :
    (∀ x ∈ t.log.routed, Vouched env prior log x.1 x.2.toId x.2.bytes) ∧
      (∀ x ∈ t.log.exchanged, ∃ toId, Introduced env log x.1 toId x.2.2 ∧
        OpenedBy env log x.2.1 toId) ∧
      (∀ x ∈ t.log.registered, OpenedBy env log x.1 x.2.peerId.1) ∧
      ∀ x ∈ t.arms, x.2.Sound env prior log x.1 := by
  refine ⟨fun x hx => (h.routed x hx).mono hgrows, fun x hx => ?_,
    fun x hx => (h.registered x hx).mono hgrows, fun x hx => (h.arms x hx).mono hgrows⟩
  obtain ⟨toId, hintro, hopen⟩ := h.exchanged x hx
  exact ⟨toId, hintro.mono hgrows, hopen.mono hgrows⟩

theorem tables_carried (h : t.Sound env prior loaded) {log : ServerLog}
    (hgrows : t.log.Grows log) (hrouted : t.log.routed ⊆ log.routed) :
    t.relay.Holds (Known loaded log) (OpenedBy env log) :=
  h.tables.mono (fun _ hknown => hknown.mono hrouted) fun _ _ hopen => hopen.mono hgrows

/-- More is on record, and nothing else has changed. -/
theorem logs (h : t.Sound env prior loaded) {log : ServerLog} (hgrows : t.log.Grows log)
    (hgreeted : log.greeted = t.log.greeted) (hregistered : log.registered = t.log.registered)
    (hrouted : log.routed = t.log.routed) (hexchanged : log.exchanged = t.log.exchanged)
    (hreplied : ∀ x ∈ log.replied, x.2 = env.status.encodeResponse ∧
      ∃ body, (x.1, FRAME_TYPE_STATUS_REQUEST :: body) ∈ log.read) :
    ({ t with log } : Traffic).Sound env prior loaded where
  tables := h.tables_carried hgrows (hrouted ▸ List.Subset.refl _)
  routed := by
    intro x hx
    rw [show ({ t with log } : Traffic).log.routed = t.log.routed from hrouted] at hx
    exact (h.carried hgrows).1 x hx
  exchanged := by
    intro x hx
    rw [show ({ t with log } : Traffic).log.exchanged = t.log.exchanged from hexchanged] at hx
    exact (h.carried hgrows).2.1 x hx
  replied := hreplied
  chains := by
    show SoundMap env.chains (prior ++ log.registered.map Prod.snd) t.chains
    rw [hregistered]
    exact h.chains
  registered := by
    intro x hx
    rw [show ({ t with log } : Traffic).log.registered = t.log.registered from hregistered] at hx
    exact (h.carried hgrows).2.2.1 x hx
  openings := h.openings
  arms := (h.carried hgrows).2.2.2
  channels := by
    intro x hx
    rw [show ({ t with log } : Traffic).log.greeted = t.log.greeted from hgreeted] at hx
    exact h.channels x hx
  single := by
    show (log.greeted.map Prod.fst).Nodup
    rw [hgreeted]
    exact h.single

theorem read (h : t.Sound env prior loaded) (frame : Bytes) :
    ({ t with log := { t.log with read := t.log.read ++ [(ch, frame)] } } : Traffic).Sound env prior
      loaded := by
  refine h.logs ⟨List.Subset.refl _, List.subset_append_left _ _, List.Subset.refl _⟩ rfl rfl rfl
    rfl fun x hx => ?_
  obtain ⟨hbytes, body, hread⟩ := h.replied x hx
  exact ⟨hbytes, body, List.mem_append_left _ hread⟩

/-- The chain store has changed. -/
theorem rechained (h : t.Sound env prior loaded) {chains : Dict ChainKey ChainState}
    (hchains : ∀ regs, SoundMap env.chains regs t.chains → SoundMap env.chains regs chains) :
    ({ t with chains } : Traffic).Sound env prior loaded :=
  { h with chains := hchains _ h.chains }

/-- What is left to do has changed. -/
theorem narrow (h : t.Sound env prior loaded) {openings : List Opening}
    {arms : List (ChanId × Arm)} (hopenings : ∀ o ∈ openings, o.hello.Proven env.keys)
    (harms : ∀ x ∈ arms, x.2.Sound env prior t.log x.1) :
    ({ t with openings, arms } : Traffic).Sound env prior loaded :=
  { h with openings := hopenings, arms := harms }

theorem dispatched (h : t.Sound env prior loaded) {t' : Traffic} {frame : Bytes}
    (hstep : Dispatched env prior ch frame t t') : t'.Sound env prior loaded := by
  cases hstep with
  | quiet => exact h
  | replied hread =>
    refine h.logs (.of_eq rfl rfl rfl) rfl rfl rfl rfl fun x hx => ?_
    rcases List.mem_append.mp hx with hold | hnew
    · exact h.replied x hold
    · cases List.mem_singleton.mp hnew
      exact ⟨rfl, hread⟩
  | @registered reg chains hself hchains =>
    have hgrows : t.log.Grows
        { t.log with registered := t.log.registered ++ [(ch, reg)] } :=
      ⟨List.Subset.refl _, List.Subset.refl _, List.subset_append_left _ _⟩
    have hregs : prior ++ t.log.registered.map Prod.snd ⊆
        prior ++ (t.log.registered ++ [(ch, reg)]).map Prod.snd := by
      rw [List.map_append, ← List.append_assoc]
      exact List.subset_append_left _ _
    obtain ⟨hrouted, hexchanged, hregistered, harms⟩ := h.carried hgrows
    refine ⟨h.tables_carried hgrows (List.Subset.refl _), hrouted, hexchanged, h.replied,
      hchains _ (by simp) (h.chains.mono hregs), fun x hx => ?_, h.openings, harms, h.channels,
      h.single⟩
    rcases List.mem_append.mp hx with hold | hnew
    · exact hregistered x hold
    · cases List.mem_singleton.mp hnew
      exact hself.mono hgrows
  | refused hchains => exact h.rechained hchains
  | @proceeds chains arm hchains harm hframe =>
    refine (h.rechained hchains).narrow h.openings fun x hx => ?_
    rcases List.mem_append.mp hx with hold | hnew
    · exact h.arms x hold
    · cases List.mem_singleton.mp hnew
      exact harm

/-- A HELLO gets its channel. -/
theorem greeted (h : t.Sound env prior loaded) {hello : ParsedHello}
    (hproven : hello.Proven env.keys) :
    ({ t with
        relay := t.relay.hello hello.peerId
        log := { t.log with greeted := t.log.greeted ++ [(t.relay.nextChan, hello)] } } :
      Traffic).Sound env prior loaded := by
  have hgrows : t.log.Grows
      { t.log with greeted := t.log.greeted ++ [(t.relay.nextChan, hello)] } :=
    ⟨List.subset_append_left _ _, List.Subset.refl _, List.Subset.refl _⟩
  have hnew : OpenedBy env { t.log with greeted := t.log.greeted ++ [(t.relay.nextChan, hello)] }
      t.relay.nextChan hello.peerId :=
    ⟨hello, List.mem_append_right _ (List.mem_singleton_self _), rfl, hproven⟩
  obtain ⟨hrouted, hexchanged, hregistered, harms⟩ := h.carried hgrows
  refine ⟨?_, hrouted, hexchanged, h.replied, h.chains, hregistered, h.openings, harms,
    fun x hx => ?_, ?_⟩
  · have hstep : RelayStep t.relay (.hello hello.peerId) (t.relay.hello hello.peerId) := .hello
    refine RelayState.Holds.step ?_ ?_ hstep
    · exact h.tables_carried hgrows (List.Subset.refl _)
    · exact hnew
  · rcases List.mem_append.mp hx with hold | hin
    · exact Nat.lt_succ_of_lt (h.channels x hold)
    · cases List.mem_singleton.mp hin
      exact Nat.lt_succ_self _
  · show ((t.log.greeted ++ [(t.relay.nextChan, hello)]).map Prod.fst).Nodup
    rw [List.map_append]
    refine List.nodup_append.mpr ⟨h.single, List.nodup_singleton _, ?_⟩
    rintro ch hch _ hin rfl
    obtain ⟨x, hx, hxch⟩ := List.mem_map.mp hch
    have hlt := h.channels x hx
    rw [hxch, List.mem_singleton.mp hin] at hlt
    exact Nat.lt_irrefl _ hlt

/-- A step of the routing tables that brings in nothing. -/
theorem relay (h : t.Sound env prior loaded) (ev : RelayEvent) {relay' : RelayState}
    (hev : ev.Brings (Known loaded t.log) (OpenedBy env t.log) t.relay)
    (hnext : relay'.nextChan = t.relay.nextChan) (hstep : RelayStep t.relay ev relay') :
    ({ t with relay := relay' } : Traffic).Sound env prior loaded where
  tables := h.tables.step hev hstep
  routed := h.routed
  exchanged := h.exchanged
  replied := h.replied
  chains := h.chains
  registered := h.registered
  openings := h.openings
  arms := h.arms
  channels := by
    intro x hx
    rw [show ({ t with relay := relay' } : Traffic).relay.nextChan = t.relay.nextChan from hnext]
    exact h.channels x hx
  single := h.single

/-- A frame gets to the lookup of its recipient's route. -/
theorem routes (h : t.Sound env prior loaded) {f : Passed}
    (hvouched : Vouched env prior t.log ch f.toId f.bytes) :
    ({ t with
        relay := t.relay.lookupAndSend (f.accept t.relay.nextTag)
        log := { t.log with
          routed := t.log.routed ++ [(ch, f.accept t.relay.nextTag)] } } : Traffic).Sound env prior
      loaded := by
  have hgrows : t.log.Grows
      { t.log with routed := t.log.routed ++ [(ch, f.accept t.relay.nextTag)] } :=
    .of_eq rfl rfl rfl
  have hlogged : ({ t with log :=
      { t.log with routed := t.log.routed ++ [(ch, f.accept t.relay.nextTag)] } } :
        Traffic).Sound env prior loaded := by
    obtain ⟨hrouted, hexchanged, hregistered, harms⟩ := h.carried hgrows
    refine ⟨h.tables_carried hgrows (List.subset_append_left _ _), fun x hx => ?_, hexchanged,
      h.replied, h.chains, hregistered, h.openings, harms, h.channels, h.single⟩
    rcases List.mem_append.mp hx with hold | hnew
    · exact hrouted x hold
    · cases List.mem_singleton.mp hnew
      exact hvouched.mono hgrows
  refine hlogged.relay (.send (f.accept t.relay.nextTag)) ?_ ?_ (.send rfl)
  · exact .inr ⟨ch, List.mem_append_right _ (List.mem_singleton_self _)⟩
  · unfold RelayState.lookupAndSend
    split
    · rfl
    · rfl

/-- A bundle frame is handed to its recipient's channel. -/
theorem exchanges (h : t.Sound env prior loaded) {toId : PeerId} {frame : Bytes} {target : ChanId}
    (hintro : Introduced env t.log ch toId frame)
    (hlive : t.relay.tables.liveRoute toId = some target) :
    ({ t with log := { t.log with exchanged := t.log.exchanged ++ [(ch, target, frame)] } } :
      Traffic).Sound env prior loaded := by
  have hgrows : t.log.Grows
      { t.log with exchanged := t.log.exchanged ++ [(ch, target, frame)] } :=
    .of_eq rfl rfl rfl
  obtain ⟨hrouted, hexchanged, hregistered, harms⟩ := h.carried hgrows
  refine ⟨h.tables_carried hgrows (List.Subset.refl _), hrouted, fun x hx => ?_, h.replied,
    h.chains, hregistered, h.openings, harms, h.channels, h.single⟩
  rcases List.mem_append.mp hx with hold | hnew
  · exact hexchanged x hold
  · cases List.mem_singleton.mp hnew
    obtain ⟨hlook, -⟩ := Option.filter_eq_some_iff.mp hlive
    exact ⟨toId, hintro.mono hgrows, (h.tables.tables.routes toId target hlook).mono hgrows⟩

end Traffic.Sound

variable {s : Server K}

/-- What is in a list one entry of which has been replaced. -/
theorem mem_of_replaced {α : Type} {x a : α} {pre post l : List α} (h : x ∈ pre ++ l ++ post) :
    x ∈ l ∨ x ∈ pre ++ a :: post := by
  rcases List.mem_append.mp h with hin | hpost
  · rcases List.mem_append.mp hin with hpre | hl
    · exact .inr (List.mem_append_left _ hpre)
    · exact .inl hl
  · exact .inr (List.mem_append_right _ (List.mem_cons_of_mem _ hpost))

theorem firstFrame_sound (h : s.traffic.Sound env prior loaded) (nowSecs : Nat) (now : K)
    (frame : Bytes) : (s.firstFrame env nowSecs now frame).traffic.Sound env prior loaded := by
  unfold Server.firstFrame
  split
  · exact h
  · split
    · exact h
    · split
      · exact h
      · next hello _ =>
        split
        · exact h
        · next helloReplays hok =>
          refine h.narrow (fun o ho => ?_) h.arms
          rcases List.mem_append.mp ho with hold | hnew
          · exact h.openings o hold
          · cases List.mem_singleton.mp hnew
            exact (verifyHello_eq_ok.mp hok).2.1

theorem greet_sound (h : s.traffic.Sound env prior loaded) {pre post : List Opening} {o : Opening}
    (now : K) (hs : s.openings = pre ++ o :: post) :
    Traffic.Sound env prior loaded
      { (s.greet now o).1.traffic with
        openings := pre ++ (s.greet now o).2.toList ++ post } := by
  have hproven : ∀ o' ∈ pre ++ o :: post, o'.hello.Proven env.keys := hs ▸ h.openings
  have ho : o.hello.Proven env.keys := hproven o (by simp)
  cases o with
  | proven hello =>
    refine h.narrow (fun o' ho' => ?_) h.arms
    rcases mem_of_replaced ho' with hin | hold
    · cases List.mem_singleton.mp hin
      exact ho
    · exact hproven o' hold
  | keyed hello =>
    have hgreeted := h.greeted ho
    refine hgreeted.narrow (fun o' ho' => ?_) hgreeted.arms
    rcases mem_of_replaced ho' with hin | hold
    · cases hin
    · exact hproven o' hold

theorem execArm_sound {env : ServerEnv Pub} [LinearOrder K] (h : s.traffic.Sound env prior loaded)
    {pre post : List (ChanId × Arm)} {ch : ChanId} {a : Arm} (oldest : SendDedupeKey) (now : K)
    (hs : s.arms = pre ++ (ch, a) :: post) :
    Traffic.Sound env prior loaded
      { (s.execArm env oldest now ch a).1.traffic with
        arms := pre ++ ((s.execArm env oldest now ch a).2.map fun a' => (ch, a')).toList ++
          post } := by
  have harms : ∀ x ∈ pre ++ (ch, a) :: post, x.2.Sound env prior s.log x.1 := hs ▸ h.arms
  have ha : a.Sound env prior s.log ch := harms (ch, a) (by simp)
  have hsame : ∀ log : ServerLog, log.greeted = s.log.greeted → log.read = s.log.read →
      log.registered = s.log.registered → ∀ x ∈ pre ++ [] ++ post, x.2.Sound env prior log x.1 := by
    intro log hgreeted hread hregistered x hx
    have hgrows : s.log.Grows log := .of_eq hgreeted hread hregistered
    rcases mem_of_replaced hx with hin | hold
    · cases hin
    · exact (harms x hold).mono hgrows
  cases a with
  | dedupe selfId frameType body parsed =>
    unfold Server.execArm
    simp only
    split
    · exact h.narrow h.openings (hsame s.log rfl rfl rfl)
    · refine h.narrow h.openings fun x hx => ?_
      rcases mem_of_replaced hx with hin | hold
      · cases List.mem_singleton.mp hin
        exact ha
      · exact harms x hold
  | deliver f =>
    have hvouched : Vouched env prior s.log ch f.toId f.bytes := ha
    have hrouted := h.routes hvouched
    exact hrouted.narrow hrouted.openings (hsame _ rfl rfl rfl)
  | exchange toId frame =>
    unfold Server.execArm
    simp only
    split
    · exact h.narrow h.openings (hsame s.log rfl rfl rfl)
    · next target hlive =>
      have hintro : Introduced env s.log ch toId frame := ha
      have hexchanged := h.exchanges hintro hlive
      exact hexchanged.narrow hexchanged.openings (hsame _ rfl rfl rfl)

variable [Ring K] [LinearOrder K] {s' : Server K} {e : ServerEvent K}

/-- One lock region, or a tick. -/
theorem ServerStep.sound (h : s.traffic.Sound env prior loaded) (hstep : ServerStep env s e s') :
    s'.traffic.Sound env prior loaded := by
  cases hstep with
  | firstFrame => exact firstFrame_sound h _ _ _
  | greet hs => exact greet_sound h _ hs
  | @read selfId ch at' frame hconn hidle hopen =>
    have hread : Traffic.Sound env prior loaded (Server.traffic
        { s with log := { s.log with read := s.log.read ++ [(ch, frame)] } }) := h.read frame
    refine hread.dispatched (dispatch_dispatched at' hread ?_ ?_)
    · exact List.mem_append_right _ (List.mem_singleton_self _)
    · exact h.tables.tables.conns _ hconn
  | arm hs _ => exact execArm_sound h _ _ hs
  | @relay ev relay' hev hstep =>
    cases hstep with
    | send _ => exact hev.elim
    | hello => exact hev.elim
    | disconnect _ => exact hev.elim
    | @exec pre post hnd now sends hs => exact h.relay (.exec now sends) trivial rfl (.exec hs)
    | @writerExit ch hch => exact h.relay (.writerExit ch) trivial rfl (.writerExit hch)
    | @collect now => exact h.relay (.collect now) trivial rfl .collect
  | @disconnect p ch hconn _ =>
    exact h.relay (.disconnect p ch) trivial rfl (.disconnect hconn)
  | @collect gc =>
    cases gc with
    | chains rand nowUnix =>
      exact h.rechained fun regs hmap =>
        perform_soundMap env.maxAge rand nowUnix .gcExpired hmap (by rintro reg ⟨⟩)
    | verifyKeys now => exact h
    | helloReplays now => exact h
    | chainSeedRate now => exact h
    | dedupes now => exact h
    | pushTokens nowUnix => exact h
    | bundleRates hour => exact h

end Steps

/-! ## Running forward -/

section Forward

variable {env : ServerEnv Pub} {s : Server K}

/-- The `i`-th opening goes on. -/
def Server.greetAt (i : Nat) (now : K) (s : Server K) : Server K :=
  match s.openings[i]? with
  | some o =>
    { (s.greet now o).1 with
      openings := s.openings.take i ++ (s.greet now o).2.toList ++ s.openings.drop (i + 1) }
  | none => s

/-- The `i`-th arm does. -/
def Server.armAt (env : ServerEnv Pub) (i : Nat) (oldest : SendDedupeKey) (now : K)
    (s : Server K) : Server K :=
  match s.arms[i]? with
  | some (ch, a) =>
    { (s.execArm env oldest now ch a).1 with
      arms := s.arms.take i ++ ((s.execArm env oldest now ch a).2.map fun a' => (ch, a')).toList ++
        s.arms.drop (i + 1) }
  | none => s

/-- The `i`-th handler does. -/
def Server.execAt (i : Nat) (now : UInt64) (sends : Nat) (s : Server K) : Server K :=
  { s with relay := s.relay.execAt i now sends }

variable [Ring K] [LinearOrder K]

theorem step_greetAt (i : Nat) (now : K) (hi : i < s.openings.length) :
    ServerStep env s (.greet now) (s.greetAt i now) := by
  rw [Server.greetAt, List.getElem?_eq_getElem hi]
  refine .greet ?_
  rw [List.getElem_cons_drop, List.take_append_drop]

variable (env s) in
theorem step_armAt (i : Nat) (oldest : SendDedupeKey) (now : K) (hi : i < s.arms.length)
    (hroom : s.dedupes.len < SEND_DEDUPE_MAX_ENTRIES) :
    ∃ ch, ServerStep env s (.arm ch oldest now) (s.armAt env i oldest now) := by
  rw [Server.armAt, List.getElem?_eq_getElem hi]
  refine ⟨s.arms[i].1, .arm ?_ fun hfull => absurd hroom (Nat.not_lt_of_le hfull)⟩
  show s.arms = s.arms.take i ++ s.arms[i] :: s.arms.drop (i + 1)
  rw [List.getElem_cons_drop, List.take_append_drop]

theorem step_serverExecAt (i : Nat) (now : UInt64) (sends : Nat)
    (hi : i < s.relay.handlers.length) :
    ServerStep env s (.relay (.exec now sends)) (s.execAt i now sends) :=
  .relay trivial (step_execAt i now sends hi)

/-- A connection that is between two frames, and so are all others. -/
theorem step_readFrame {selfId : PeerId} {ch : ChanId} (at' : Reading K) (frame : Bytes)
    (hconn : (selfId, ch) ∈ s.relay.tables.conns) (harms : s.arms.length = 0)
    (hfailed : s.failed = []) :
    ServerStep env s (.read ch at' frame) (s.readFrame env at' selfId ch frame) := by
  refine .read hconn (fun arm hin => ?_) (fun reason hin => ?_)
  · rw [List.length_eq_zero_iff.mp harms] at hin
    cases hin
  · rw [hfailed] at hin
    cases hin

end Forward

/-! ## Runs -/

section Runs

variable {env : ServerEnv Pub} {prior : List ChainRegistration}

theorem Server.Started.sound {s : Server K} (h : s.Started env prior) :
    s.traffic.Sound env prior s.loaded := by
  have hlog : s.traffic.log = ServerLog.empty := h.log
  refine ⟨⟨⟨?_, ?_, ?_, ?_⟩, ?_⟩, ?_, ?_, ?_, ?_, ?_, ?_, ?_, ?_, ?_⟩
  · intro p ch hlook
    rw [show s.traffic.relay.tables.routes = ∅ from h.relay.routes] at hlook
    cases hlook
  · intro c hc
    rw [show s.traffic.relay.tables.conns = [] from h.conns] at hc
    cases hc
  · intro p f hf
    have hhome : f.origin.toId = p := (h.relay.homed p f hf).1
    exact ⟨hhome, .inl ⟨f, hhome ▸ hf, rfl⟩⟩
  · intro x hx
    rw [show s.traffic.relay.tables.history = History.empty from h.relay.history] at hx
    cases hx
  · intro hnd hmem
    rw [show s.traffic.relay.handlers = [] from h.relay.handlers] at hmem
    cases hmem
  · intro x hx
    rw [hlog] at hx
    cases hx
  · intro x hx
    rw [hlog] at hx
    cases hx
  · intro x hx
    rw [hlog] at hx
    cases hx
  · rw [hlog]
    exact h.chains.mono (List.subset_append_left _ _)
  · intro x hx
    rw [hlog] at hx
    cases hx
  · intro o ho
    rw [show s.traffic.openings = [] from h.openings] at ho
    cases ho
  · intro x hx
    rw [show s.traffic.arms = [] from h.arms] at hx
    cases hx
  · intro x hx
    rw [hlog] at hx
    cases hx
  · rw [hlog]
    exact List.nodup_nil

variable [Ring K] [LinearOrder K] {s₀ s : Server K}

/-- **What is handed to a connection is for the peer that opened it, and somebody
has vouched for it.** In every state of every run:

- a frame handed to a channel was loaded at the start or read from a connection,
  and is a SEND or ACK with a token of a chain that its recipient registered, or
  a seed from the peer that opened the connection;
- a bundle frame comes from the peer it names, and a request has its proof of work;
- a STATUS_RESPONSE answers a STATUS_REQUEST;
- no channel stands for two peers. -/
theorem served_frames_vouched (hstart : s₀.Started env prior)
    (hrun : Reach (ServerStep env) (fun _ _ => True) s₀ s) :
    (∀ dst a, (dst, a) ∈ s.relay.tables.history.handed → OpenedBy env s.log dst a.toId ∧
      (s₀.loaded a ∨ ∃ src, (src, a) ∈ s.log.routed ∧ Vouched env prior s.log src a.toId a.bytes)) ∧
    (∀ src dst frame, (src, dst, frame) ∈ s.log.exchanged → ∃ toId,
      Introduced env s.log src toId frame ∧ OpenedBy env s.log dst toId) ∧
    (∀ dst bytes, (dst, bytes) ∈ s.log.replied → bytes = env.status.encodeResponse ∧
      ∃ body, (dst, FRAME_TYPE_STATUS_REQUEST :: body) ∈ s.log.read) ∧
    ∀ ch p p', OpenedBy env s.log ch p → OpenedBy env s.log ch p' → p = p' := by
  have hsound : s.traffic.Sound env prior s₀.loaded :=
    hrun.invariant (fun s => s.traffic.Sound env prior s₀.loaded)
      (fun h _ hstep => hstep.sound h) hstart.sound
  refine ⟨fun dst a hmem => ?_, fun src dst frame hmem => hsound.exchanged _ hmem,
    fun dst bytes hmem => hsound.replied _ hmem, ?_⟩
  · obtain ⟨hopen, hloaded | ⟨src, hrouted⟩⟩ := hsound.tables.tables.handed _ hmem
    · exact ⟨hopen, .inl hloaded⟩
    · exact ⟨hopen, .inr ⟨src, hrouted, hsound.routed _ hrouted⟩⟩
  · rintro ch p p' ⟨h, hmem, rfl, -⟩ ⟨h', hmem', rfl, -⟩
    have hsame : (ch, h) = (ch, h') := List.inj_on_of_nodup_map hsound.single hmem hmem' rfl
    cases hsame
    rfl

/-- A relay in the plain environment that takes every signature. -/
def sampleServerEnv : ServerEnv Unit where
  keys := lenientKeys
  blake3 := plainBlake3
  chains := plainEnv
  sameHash := plainEnv_sameHash
  maxAge := 100
  status := ⟨"0.1.0", "abc", 0, .replicate _ 1⟩

def emptyServer : Server ℚ where
  relay := emptyRelay
  verifyKeys := ∅
  helloReplays := ∅
  pushTokens := ⟨.replicate _ 0, ∅, false⟩
  chains := emptyStore
  bundleRates := ⟨.replicate _ 0, ∅, false⟩
  chainSeedRate := ∅
  chainSeedToIds := ∅
  dedupes := ∅
  openings := []
  arms := []
  failed := []
  log := ServerLog.empty

theorem started_emptyServer : emptyServer.Started sampleServerEnv [] where
  relay := started_emptyRelay
  conns := rfl
  chains := by
    intro k state hk
    cases hk
  openings := rfl
  arms := rfl
  log := rfl

def sampleReading : Reading ℚ := ⟨sampleRand, 1060, 1060, 0, 0, true⟩

/-- The owner of the sample chain connects and registers it. -/
def registeredServer : Server ℚ :=
  (((emptyServer.firstFrame sampleServerEnv 1060 1060
    (FRAME_TYPE_HELLO :: helloBody samplePeer.1)).greetAt 0 1060).greetAt 0 1060).execAt 0 0 0
    |>.readFrame sampleServerEnv sampleReading samplePeer.1 0
      (FRAME_TYPE_REGISTER_CHAIN ::
        ((sampleRegistration sampleNamespace 2).chainId.1 ++
          ((sampleRegistration sampleNamespace 2).root.1 ++ beBytes 4 2)))

/-- It sends itself a frame with the first token. -/
def servedServer : Server ℚ :=
  ((registeredServer.readFrame sampleServerEnv sampleReading samplePeer.1 0
    (FRAME_TYPE_SEND :: sampleBody 1)).armAt sampleServerEnv 0 ([], .replicate _ 0) 1060).armAt
      sampleServerEnv 0 ([], .replicate _ 0) 1060

theorem reach_servedServer :
    Reach (ServerStep sampleServerEnv) (fun _ _ => True) emptyServer servedServer := by
  have hregistered : Reach (ServerStep sampleServerEnv) (fun _ _ => True) emptyServer
      registeredServer := by
    refine ((((Reach.refl.snoc .firstFrame trivial).snoc (step_greetAt 0 1060 ?_) trivial).snoc
      (step_greetAt 0 1060 ?_) trivial).snoc (step_serverExecAt 0 0 0 ?_) trivial).snoc
      (step_readFrame _ _ ?_ ?_ ?_) trivial
    all_goals decide +kernel
  have hread : Reach (ServerStep sampleServerEnv) (fun _ _ => True) emptyServer
      (registeredServer.readFrame sampleServerEnv sampleReading samplePeer.1 0
        (FRAME_TYPE_SEND :: sampleBody 1)) := by
    refine hregistered.snoc (step_readFrame _ _ ?_ ?_ ?_) trivial
    all_goals decide +kernel
  obtain ⟨ch, hdedupe⟩ := step_armAt sampleServerEnv (registeredServer.readFrame
    sampleServerEnv sampleReading samplePeer.1 0 (FRAME_TYPE_SEND :: sampleBody 1)) 0
    ([], .replicate _ 0) 1060 (by decide +kernel) (by decide +kernel)
  obtain ⟨ch', hdeliver⟩ := step_armAt sampleServerEnv
    ((registeredServer.readFrame sampleServerEnv sampleReading samplePeer.1 0
      (FRAME_TYPE_SEND :: sampleBody 1)).armAt sampleServerEnv 0 ([], .replicate _ 0) 1060) 0
    ([], .replicate _ 0) 1060 (by decide +kernel) (by decide +kernel)
  exact (hread.snoc hdedupe trivial).snoc hdeliver trivial

/-- The frame the sample peer has sent itself. -/
theorem served_frames_vouched_sample :
    ∃ a, (0, a) ∈ servedServer.relay.tables.history.handed ∧ a.bytes = FRAME_TYPE_SEND :: sampleBody 1 ∧
      OpenedBy sampleServerEnv servedServer.log 0 a.toId ∧
      ∃ src, Vouched sampleServerEnv [] servedServer.log src a.toId a.bytes := by
  obtain ⟨hhanded, -⟩ := served_frames_vouched started_emptyServer reach_servedServer
  have hmem : (0, (⟨0, samplePeer.1, .authorized, 60, FRAME_TYPE_SEND :: sampleBody 1⟩ : Accepted)) ∈
      servedServer.relay.tables.history.handed := by decide +kernel
  obtain ⟨hopen, ⟨f, hf, -⟩ | ⟨src, -, hvouched⟩⟩ := hhanded 0 _ hmem
  · cases hf
  · exact ⟨_, hmem, rfl, hopen, src, hvouched⟩

end Runs

end Pizzini.Relay
