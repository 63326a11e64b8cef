import Pizzini.Delivery.SampleChain
import Pizzini.Lib.Runs
import Pizzini.Relay.ChainValidatorCrash

/-!
# Serving chains to contacts

A recipient mints one chain for each contact, registers it at the relay under its
own identity, and ships the seed (`sendChainSeedDelivery`, ChatStore.swift:
3064–3137). A bundle request or a refresh request leads there through
`serveChain`, which holds a contact to one chain in 6 h and in 30 min
respectively. Chains leave the relay only when they have not been used for a TTL.

The relay counts what an identity has registered and refuses the 33rd chain. The
contacts of one recipient share that count. `registered_iff_below_cap`: in every
state of every run, a fresh chain is registered exactly when fewer than
`MAX_CHAINS_PER_PEER` of the chains served so far, to whichever contact, are
still at the relay.
-/

namespace Pizzini.Delivery

open Wire Relay

/-! ## The recipient -/

/-- A point of time, in milliseconds. -/
abbrev Date := Int

/-- `Contact.chainServeCooldown`: 6 h. -/
def chainServeCooldown : Int := 6 * 60 * 60 * 1000

/-- `Contact.chainRefreshCooldown`: 30 min. -/
def chainRefreshCooldown : Int := 30 * 60 * 1000

/-- The fields of a contact that decide whether it is served. -/
structure PairedContact where
  identityPub : Bytes
  sessionEstablished : Bool
  lastBundleServedAt : Option Date
  lastChainServedAt : Option Date
  deriving DecidableEq

/-- What one request reads off the clock, draws at random and meets with. -/
structure Draw where
  now : Date
  /-- `publishBundle` does not throw -/
  publishes : Bool
  /-- `encryptSealed` and `persistSession` both succeed -/
  sealed : Bool
  seed : ChainValue
  chainID : ChainId
  rand : Rand
  relayNow : UInt64

/-- A recipient, its relay, and the chains it has sent REGISTER_CHAIN for, each
with the contact it is for and its name at the relay. -/
structure Recipient where
  contacts : List PairedContact
  relay : ChainValidatorStore
  served : List (Bytes × ChainId)

/-- `Date().timeIntervalSince(last) < cooldown`. -/
def cooling (cooldown : Int) (last : Option Date) (now : Date) : Bool :=
  match last with
  | some last => now - last < cooldown
  | none => false

/-- `contactIndex(forIdentity:)`. -/
def contactFor (contacts : List PairedContact) (peer : Bytes) : Option PairedContact :=
  contacts.find? fun c => c.identityPub = peer

/-- Rewrite the contact with this identity; identities are unique. -/
def updateContact (contacts : List PairedContact) (peer : Bytes)
    (f : PairedContact → PairedContact) : List PairedContact :=
  contacts.map fun c => if c.identityPub = peer then f c else c

section System

variable (env : ChainEnv) (blake3 : Bytes → ChainValue) (peerId : FixedBytes 33)
  (relayNamespace : Bytes)

/-- The relay's name for the chain a request would mint. -/
def Draw.scopedID (draw : Draw) : ChainId :=
  relayScopedChainID blake3 draw.chainID relayNamespace

/-- The registration of the chain a request mints: `mintChain()` with its default
length. -/
def Draw.registration (draw : Draw) : ChainRegistration where
  peerId := peerId
  chainId := draw.scopedID blake3 relayNamespace
  root := (mintChain blake3 draw.seed draw.chainID 16384).root
  length := 16384

/-- `sendChainSeedDelivery`: REGISTER_CHAIN goes out first, whether or not the
seed can be sealed afterwards. -/
def sendChainSeedDelivery (s : Recipient) (peer : Bytes) (draw : Draw) :
    Recipient × Except IoError RegisterOutcome :=
  let call := register env draw.rand draw.relayNow s.relay
    (draw.registration blake3 peerId relayNamespace)
  ({ s with
      relay := call.store
      served := s.served ++ [(peer, draw.scopedID blake3 relayNamespace)] }, call.result)

/-- `serveChain` (ChatStore.swift:3146–3187). Only a sealed seed is stamped. -/
def serveChain (s : Recipient) (peer : Bytes) (cooldown : Int) (draw : Draw) :
    Recipient × Option (Except IoError RegisterOutcome) :=
  match contactFor s.contacts peer with
  | none => (s, none)
  | some contact =>
    if cooling cooldown contact.lastChainServedAt draw.now then (s, none)
    else if !contact.sessionEstablished then (s, none)
    else
      let (s, outcome) := sendChainSeedDelivery env blake3 peerId relayNamespace s peer draw
      if draw.sealed then
        ({ s with contacts := updateContact s.contacts peer fun c =>
            { c with lastChainServedAt := some draw.now } }, some outcome)
      else (s, some outcome)

/-- What can happen. -/
inductive ServeEvent where
  /-- BUNDLE_REQUEST (ChatStore.swift:4925–4985) -/
  | bundleRequest (peer : Bytes) (draw : Draw)
  /-- `chainRefreshRequest` -/
  | chainRefreshRequest (peer : Bytes) (draw : Draw)
  /-- a session with the contact comes about; `maybeServePendingChain` -/
  | sessionLanded (peer : Bytes) (draw : Draw)
  /-- any other request at the relay, its collector included -/
  | elsewhere (req : Request) (maxAge : UInt64) (rand : Rand) (now : UInt64)

/-- One event, and the relay's answer to a REGISTER_CHAIN in it. -/
def Recipient.step (s : Recipient) : ServeEvent → Recipient × Option (Except IoError RegisterOutcome)
  | .bundleRequest peer draw =>
    match contactFor s.contacts peer with
    | none => (s, none)
    | some contact =>
      if cooling chainServeCooldown contact.lastBundleServedAt draw.now then (s, none)
      else if !draw.publishes then (s, none)
      else
        let s := { s with contacts := updateContact s.contacts peer fun c =>
          { c with lastBundleServedAt := some draw.now } }
        serveChain env blake3 peerId relayNamespace s peer chainServeCooldown draw
  | .chainRefreshRequest peer draw =>
    serveChain env blake3 peerId relayNamespace s peer chainRefreshCooldown draw
  | .sessionLanded peer draw =>
    let s := { s with contacts := updateContact s.contacts peer fun c =>
      { c with sessionEstablished := true } }
    match contactFor s.contacts peer with
    | none => (s, none)
    | some contact =>
      if contact.lastBundleServedAt.isSome && contact.lastChainServedAt.isNone then
        serveChain env blake3 peerId relayNamespace s peer chainServeCooldown draw
      else (s, none)
  | .elsewhere req maxAge rand now =>
    ({ s with relay := (perform env maxAge rand now s.relay req).1 }, none)

/-- A chain is fresh when the relay's name for it was never used before (128
random bits), and only this recipient registers under its identity. -/
def FreshEvent (s : Recipient) : ServeEvent → Prop
  | .bundleRequest _ draw => draw.scopedID blake3 relayNamespace ∉ s.served.map Prod.snd
  | .chainRefreshRequest _ draw => draw.scopedID blake3 relayNamespace ∉ s.served.map Prod.snd
  | .sessionLanded _ draw => draw.scopedID blake3 relayNamespace ∉ s.served.map Prod.snd
  | .elsewhere (.register reg) _ _ _ => reg.peerId ≠ peerId
  | .elsewhere _ _ _ _ => True

/-- Runs of the recipient and its relay. -/
def Recipient.Reaches : Recipient → Recipient → Prop :=
  Runs.Reach (fun s e s' => (Recipient.step env blake3 peerId relayNamespace s e).1 = s')
    (FreshEvent blake3 peerId relayNamespace)

end System

/-- How many of the chains served so far, over all contacts, the relay still has. -/
def Recipient.held (peerId : FixedBytes 33) (s : Recipient) : Nat :=
  (s.served.filter fun c => (s.relay.map.lookup (peerId.1, c.2)).isSome).length

/-! ## What one event does -/

section Runs

variable {env : ChainEnv} {blake3 : Bytes → ChainValue} {peerId : FixedBytes 33}
  {relayNamespace : Bytes}

/-- The event that serves `peer` with the chain of `draw`, if it serves at all. -/
def ServeEvent.request : ServeEvent → Option (Bytes × Draw)
  | .bundleRequest peer draw => some (peer, draw)
  | .chainRefreshRequest peer draw => some (peer, draw)
  | .sessionLanded peer draw => some (peer, draw)
  | .elsewhere _ _ _ _ => none

/-- A fresh event that serves a request draws a new name. -/
theorem FreshEvent.notMem_served {s : Recipient} {e : ServeEvent} {peer : Bytes} {draw : Draw}
    (h : FreshEvent blake3 peerId relayNamespace s e) (hreq : e.request = some (peer, draw)) :
    draw.scopedID blake3 relayNamespace ∉ s.served.map Prod.snd := by
  cases e with
  | bundleRequest peer' draw' => cases hreq; exact h
  | chainRefreshRequest peer' draw' => cases hreq; exact h
  | sessionLanded peer' draw' => cases hreq; exact h
  | elsewhere req maxAge rand now => cases hreq

/-- `s'` is `s` after REGISTER_CHAIN for the chain of `draw`, and `outcome` is the
relay's answer. -/
structure Served (env : ChainEnv) (blake3 : Bytes → ChainValue) (peerId : FixedBytes 33)
    (relayNamespace : Bytes) (s s' : Recipient) (peer : Bytes) (draw : Draw)
    (outcome : Except IoError RegisterOutcome) : Prop where
  relay : s'.relay = (register env draw.rand draw.relayNow s.relay
    (draw.registration blake3 peerId relayNamespace)).store
  served : s'.served = s.served ++ [(peer, draw.scopedID blake3 relayNamespace)]
  outcome : outcome = (register env draw.rand draw.relayNow s.relay
    (draw.registration blake3 peerId relayNamespace)).result

/-- `serveChain` registers one chain or none. -/
theorem serveChain_cases (env : ChainEnv) (blake3 : Bytes → ChainValue) (peerId : FixedBytes 33)
    (relayNamespace : Bytes) (s : Recipient) (peer : Bytes) (cooldown : Int) (draw : Draw) :
    let r := serveChain env blake3 peerId relayNamespace s peer cooldown draw
    r = (s, none) ∨
      ∃ outcome, r.2 = some outcome ∧ Served env blake3 peerId relayNamespace s r.1 peer draw outcome := by
  simp only [serveChain]
  split
  · exact .inl rfl
  · split
    · exact .inl rfl
    · split
      · exact .inl rfl
      · refine .inr ?_
        split
        · exact ⟨_, rfl, ⟨rfl, rfl, rfl⟩⟩
        · exact ⟨_, rfl, ⟨rfl, rfl, rfl⟩⟩

/-- An event registers nothing, serves its request, or is a request of somebody
else at the relay. -/
theorem Recipient.step_cases (env : ChainEnv) (blake3 : Bytes → ChainValue)
    (peerId : FixedBytes 33) (relayNamespace : Bytes) (s : Recipient) (e : ServeEvent) :
    let r := Recipient.step env blake3 peerId relayNamespace s e
    (r.2 = none ∧ r.1.relay = s.relay ∧ r.1.served = s.served) ∨
      (∃ peer draw outcome, e.request = some (peer, draw) ∧ r.2 = some outcome ∧
        Served env blake3 peerId relayNamespace s r.1 peer draw outcome) ∨
      ∃ req maxAge rand now, e = .elsewhere req maxAge rand now ∧ r.2 = none ∧
        r.1.relay = (perform env maxAge rand now s.relay req).1 ∧ r.1.served = s.served := by
  -- a contact's fields do not matter to the relay, so serving a rewritten contact list will do
  have hserve : ∀ (contacts : List PairedContact) (peer : Bytes) (cooldown : Int) (draw : Draw),
      let r := serveChain env blake3 peerId relayNamespace { s with contacts } peer cooldown draw
      (r.2 = none ∧ r.1.relay = s.relay ∧ r.1.served = s.served) ∨
        ∃ outcome, r.2 = some outcome ∧
          Served env blake3 peerId relayNamespace s r.1 peer draw outcome := by
    intro contacts peer cooldown draw
    obtain hnone | ⟨outcome, hout, hserved⟩ := serveChain_cases env blake3 peerId
      relayNamespace { s with contacts } peer cooldown draw
    · simp only [hnone]
      exact .inl ⟨trivial, trivial, trivial⟩
    · exact .inr ⟨outcome, hout, ⟨hserved.relay, hserved.served, hserved.outcome⟩⟩
  cases e with
  | bundleRequest peer draw =>
    simp only [Recipient.step]
    split
    · exact .inl ⟨rfl, rfl, rfl⟩
    · split
      · exact .inl ⟨rfl, rfl, rfl⟩
      · split
        · exact .inl ⟨rfl, rfl, rfl⟩
        · obtain hnone | ⟨outcome, hout, hserved⟩ := hserve _ peer chainServeCooldown draw
          · exact .inl hnone
          · exact .inr (.inl ⟨peer, draw, outcome, rfl, hout, hserved⟩)
  | chainRefreshRequest peer draw =>
    obtain hnone | ⟨outcome, hout, hserved⟩ := hserve s.contacts peer chainRefreshCooldown draw
    · exact .inl hnone
    · exact .inr (.inl ⟨peer, draw, outcome, rfl, hout, hserved⟩)
  | sessionLanded peer draw =>
    simp only [Recipient.step]
    split
    · exact .inl ⟨rfl, rfl, rfl⟩
    · split
      · obtain hnone | ⟨outcome, hout, hserved⟩ := hserve _ peer chainServeCooldown draw
        · exact .inl hnone
        · exact .inr (.inl ⟨peer, draw, outcome, rfl, hout, hserved⟩)
      · exact .inl ⟨rfl, rfl, rfl⟩
  | elsewhere req maxAge rand now =>
    exact .inr (.inr ⟨req, maxAge, rand, now, rfl, rfl, rfl, rfl⟩)

/-! ## The invariant -/

/-- What the relay has under the recipient's identity was served, and every chain
served has a name of its own. -/
structure Recipient.Inv (peerId : FixedBytes 33) (s : Recipient) : Prop where
  known : ∀ id, (s.relay.map.lookup (peerId.1, id)).isSome → id ∈ s.served.map Prod.snd
  nodup : (s.served.map Prod.snd).Nodup

/-- The relay's count for the recipient is the number of served chains it holds. -/
theorem Recipient.Inv.chainsOf_eq {s : Recipient} (h : s.Inv peerId) :
    chainsOf s.relay.map peerId.1 = s.held peerId := by
  have hkey : ∀ id, (peerId.1, id) ∈ s.relay.map.keys ↔
      (s.relay.map.lookup (peerId.1, id)).isSome := by
    intro id
    rw [AList.lookup_isSome, AList.mem_keys]
  have hinj : ∀ a ∈ s.relay.map.keys.filter (fun k => k.1 = peerId.1),
      ∀ b ∈ s.relay.map.keys.filter (fun k => k.1 = peerId.1), a.2 = b.2 → a = b := by
    intro a ha b hb heq
    have ha1 : a.1 = peerId.1 := by simpa using (List.mem_filter.mp ha).2
    have hb1 : b.1 = peerId.1 := by simpa using (List.mem_filter.mp hb).2
    exact Prod.ext (ha1.trans hb1.symm) heq
  have hnodup₁ : ((s.relay.map.keys.filter fun k => k.1 = peerId.1).map Prod.snd).Nodup :=
    List.Nodup.map_on hinj (s.relay.map.keys_nodup.filter _)
  have hnodup₂ : ((s.served.filter fun c =>
      (s.relay.map.lookup (peerId.1, c.2)).isSome).map Prod.snd).Nodup :=
    h.nodup.sublist (List.filter_sublist.map _)
  have hperm := (List.perm_ext_iff_of_nodup hnodup₁ hnodup₂).mpr fun id => by
    constructor
    · intro hmem
      obtain ⟨k, hk, rfl⟩ := List.mem_map.mp hmem
      obtain ⟨hin, hpeer⟩ := List.mem_filter.mp hk
      have hpeer : k.1 = peerId.1 := by simpa using hpeer
      have hlive : (s.relay.map.lookup (peerId.1, k.2)).isSome := by
        rw [← hkey, ← hpeer]
        exact hin
      obtain ⟨c, hc, hck⟩ := List.mem_map.mp (h.known k.2 hlive)
      refine List.mem_map.mpr ⟨c, List.mem_filter.mpr ⟨hc, ?_⟩, hck⟩
      rw [hck]
      exact hlive
    · intro hmem
      obtain ⟨c, hc, rfl⟩ := List.mem_map.mp hmem
      obtain ⟨_, hlive⟩ := List.mem_filter.mp hc
      exact List.mem_map.mpr ⟨(peerId.1, c.2),
        List.mem_filter.mpr ⟨(hkey c.2).mpr hlive, by simp⟩, rfl⟩
  have hlen := hperm.length_eq
  rw [List.length_map, List.length_map] at hlen
  exact hlen

/-- Serving a fresh chain keeps the invariant. -/
theorem Recipient.Inv.served {s s' : Recipient} (h : s.Inv peerId) {peer : Bytes} {draw : Draw}
    {outcome : Except IoError RegisterOutcome}
    (hserved : Served env blake3 peerId relayNamespace s s' peer draw outcome)
    (hfresh : draw.scopedID blake3 relayNamespace ∉ s.served.map Prod.snd) : s'.Inv peerId where
  known := by
    intro id hlive
    rw [hserved.served, List.map_append]
    by_cases hid : id = draw.scopedID blake3 relayNamespace
    · rw [hid]
      exact List.mem_append_right _ List.mem_cons_self
    · have hkey : (peerId.1, id) ≠ (draw.registration blake3 peerId relayNamespace).key :=
        fun heq => hid (congrArg Prod.snd heq)
      rw [hserved.relay, register_lookup env draw.rand draw.relayNow hkey] at hlive
      exact List.mem_append_left _ (h.known id hlive)
  nodup := by
    rw [hserved.served, List.map_append]
    refine List.Nodup.append h.nodup (List.nodup_singleton _) ?_
    intro id hold hnew
    rw [List.map_singleton, List.mem_singleton] at hnew
    rw [hnew] at hold
    exact hfresh hold

/-- A request of somebody else adds nothing under the recipient's identity. -/
theorem perform_lookup_isSome {store : ChainValidatorStore} {req : Request} {maxAge : UInt64}
    {rand : Rand} {now : UInt64} {id : ChainId}
    (hother : ∀ reg, req = .register reg → reg.peerId ≠ peerId)
    (h : ((perform env maxAge rand now store req).1.map.lookup (peerId.1, id)).isSome) :
    (store.map.lookup (peerId.1, id)).isSome := by
  cases req with
  | register reg =>
    have hkey : (peerId.1, id) ≠ reg.key := fun heq =>
      hother reg rfl (Subtype.ext (congrArg Prod.fst heq).symm)
    rw [← register_lookup env rand now hkey]
    exact h
  | validate toId chainId index value => exact validate_lookup_isSome rand now h
  | gcExpired => exact gcExpired_lookup_isSome rand now maxAge h

/-- One fresh event. -/
theorem Recipient.Inv.step {s : Recipient} (h : s.Inv peerId) {e : ServeEvent}
    (hfresh : FreshEvent blake3 peerId relayNamespace s e) :
    (Recipient.step env blake3 peerId relayNamespace s e).1.Inv peerId := by
  obtain ⟨_, hrelay, hserved⟩ | ⟨peer, draw, outcome, hreq, _, hserved⟩ |
      ⟨req, maxAge, rand, now, rfl, _, hrelay, hserved⟩ :=
    Recipient.step_cases env blake3 peerId relayNamespace s e
  · exact ⟨by rw [hrelay, hserved]; exact h.known, by rw [hserved]; exact h.nodup⟩
  · exact h.served hserved (hfresh.notMem_served hreq)
  · refine ⟨fun id hlive => ?_, by rw [hserved]; exact h.nodup⟩
    rw [hrelay] at hlive
    rw [hserved]
    refine h.known id (perform_lookup_isSome ?_ hlive)
    rintro reg rfl
    exact hfresh

/-- A relay that has nothing of the recipient yet. -/
def Recipient.start (contacts : List PairedContact) (relay : ChainValidatorStore) : Recipient where
  contacts := contacts
  relay := relay
  served := []

theorem Recipient.Reaches.inv {contacts : List PairedContact} {relay : ChainValidatorStore}
    {s : Recipient} (hnew : ∀ id, relay.map.lookup (peerId.1, id) = none)
    (h : Recipient.Reaches env blake3 peerId relayNamespace (Recipient.start contacts relay) s) :
    s.Inv peerId := by
  refine h.invariant (Recipient.Inv peerId) ?_ ⟨?_, List.nodup_nil⟩
  · intro s e s' hinv hfresh hstep
    rw [← hstep]
    exact hinv.step hfresh
  · intro id hlive
    rw [show (Recipient.start contacts relay).relay = relay from rfl, hnew id] at hlive
    cases hlive

/-- The relay's answer to a REGISTER_CHAIN for a fresh chain. -/
theorem Recipient.Inv.outcome_iff (henv : env.Lawful) {s : Recipient} (h : s.Inv peerId)
    {e : ServeEvent} (hfresh : FreshEvent blake3 peerId relayNamespace s e)
    {outcome : Except IoError RegisterOutcome}
    (hout : (Recipient.step env blake3 peerId relayNamespace s e).2 = some outcome)
    (htotal : s.relay.map.len < MAX_TOTAL_CHAINS) :
    (outcome = .ok .registered ↔ s.held peerId < MAX_CHAINS_PER_PEER) ∧
      (outcome = .ok .rejectedCap ↔ MAX_CHAINS_PER_PEER ≤ s.held peerId) := by
  obtain ⟨hnone, _⟩ | ⟨peer, draw, outcome', hreq, hsome, hserved⟩ |
      ⟨_, _, _, _, _, hnone, _⟩ :=
    Recipient.step_cases env blake3 peerId relayNamespace s e
  · rw [hnone] at hout
    cases hout
  · rw [hsome] at hout
    cases hout
    have hid := hfresh.notMem_served hreq
    have hunused : s.relay.map.lookup (draw.registration blake3 peerId relayNamespace).key =
        none := by
      rw [← Option.not_isSome_iff_eq_none]
      exact fun hlive => hid (h.known _ hlive)
    have hspec := register_fresh henv draw.rand draw.relayNow s.relay
      (draw.registration blake3 peerId relayNamespace)
      (show ¬ ((16384 : UInt32) = 0 ∨ MAX_CHAIN_LENGTH < 16384) by decide) hunused
    have hcount : chainsOf s.relay.map
        (draw.registration blake3 peerId relayNamespace).peerId.1 = s.held peerId := h.chainsOf_eq
    rw [hserved.outcome]
    simp only [hcount] at hspec
    split at hspec
    · next hroom =>
      rw [hspec.1]
      exact ⟨⟨fun _ => hroom.2, fun _ => rfl⟩, ⟨nofun, fun hle => by omega⟩⟩
    · next hfull =>
      rw [hspec.1]
      exact ⟨⟨nofun, fun hlt => absurd ⟨htotal, hlt⟩ hfull⟩, ⟨fun _ => by omega, fun _ => rfl⟩⟩
  · rw [hnone] at hout
    cases hout

/-- In every state of every run, below the global cap: the REGISTER_CHAIN for a
freshly minted chain is answered `Registered` exactly when fewer than
`MAX_CHAINS_PER_PEER` of the chains the recipient has served, to all its contacts
together, are still at the relay, and `RejectedCap` otherwise. -/
theorem registered_iff_below_cap (henv : env.Lawful) {contacts : List PairedContact}
    {relay : ChainValidatorStore} (hnew : ∀ id, relay.map.lookup (peerId.1, id) = none)
    {s : Recipient}
    (h : Recipient.Reaches env blake3 peerId relayNamespace (Recipient.start contacts relay) s)
    {e : ServeEvent} (hfresh : FreshEvent blake3 peerId relayNamespace s e)
    {outcome : Except IoError RegisterOutcome}
    (hout : (Recipient.step env blake3 peerId relayNamespace s e).2 = some outcome)
    (htotal : s.relay.map.len < MAX_TOTAL_CHAINS) :
    (outcome = .ok .registered ↔ s.held peerId < MAX_CHAINS_PER_PEER) ∧
      (outcome = .ok .rejectedCap ↔ MAX_CHAINS_PER_PEER ≤ s.held peerId) :=
  (h.inv hnew).outcome_iff henv hfresh hout htotal

end Runs

/-! ## One contact rotates, another is refused -/

/-- A hash that keeps the end of its input, so that different chain ids get
different names at a relay. -/
def tailHash (bs : Bytes) : ChainValue :=
  ⟨(bs.reverse ++ List.replicate CHAIN_VALUE_LEN 0).take CHAIN_VALUE_LEN, by
    rw [List.length_take, List.length_append, List.length_replicate]
    omega⟩

/-- The request of round `n`: every half hour, each with an id of its own. -/
def roundDraw (n : Nat) : Draw where
  now := n * chainRefreshCooldown
  publishes := true
  sealed := true
  seed := sampleSeed
  chainID := ⟨beBytes CHAIN_ID_LEN n, length_beBytes _ _⟩
  rand := sampleRand
  relayNow := 100

theorem roundDraw_scopedID (n : Nat) :
    ((roundDraw n).scopedID tailHash sampleNamespace).1 = (beBytes CHAIN_ID_LEN n).reverse := by
  have hlen : (beBytes CHAIN_ID_LEN n).reverse.length = CHAIN_ID_LEN := by
    rw [List.length_reverse, length_beBytes]
  show (List.take CHAIN_ID_LEN (List.take CHAIN_VALUE_LEN _)) = _
  rw [List.take_take, List.reverse_append, List.reverse_append, List.reverse_append]
  simp only [List.append_assoc]
  exact List.take_left' hlen

theorem roundDraw_inj {n m : Nat} (hn : n < 2 ^ 32) (hm : m < 2 ^ 32)
    (h : (roundDraw n).scopedID tailHash sampleNamespace =
      (roundDraw m).scopedID tailHash sampleNamespace) : n = m := by
  have hrev := congrArg (fun id : ChainId => beNat id.1.reverse) h
  simp only [roundDraw_scopedID, List.reverse_reverse] at hrev
  have hwide : (2 : Nat) ^ 32 < 256 ^ CHAIN_ID_LEN := by decide
  rwa [beNat_beBytes (by omega), beNat_beBytes (by omega)] at hrev

/-- The contact that keeps asking for a new chain; it was last served in round
`n - 1`. -/
def rotatingContact (last : Option Date) : PairedContact := ⟨[1], true, none, last⟩

/-- A contact that has not been served yet. -/
def waitingContact : PairedContact := ⟨[2], true, none, none⟩

/-- Two contacts and a relay nobody has registered at. -/
def twoContacts : Recipient := Recipient.start [rotatingContact none, waitingContact] emptyStore

/-- The recipient behind `n` rounds. -/
def rotated : Nat → Recipient
  | 0 => twoContacts
  | n + 1 => (Recipient.step plainEnv tailHash samplePeer sampleNamespace (rotated n)
      (.chainRefreshRequest [1] (roundDraw n))).1

/-- What `n` rounds have led to. -/
structure Rounds (n : Nat) (s : Recipient) : Prop where
  reaches : Recipient.Reaches plainEnv tailHash samplePeer sampleNamespace twoContacts s
  contacts : ∃ last, s.contacts = [rotatingContact last, waitingContact] ∧
    ∀ t ∈ last, t = (n - 1 : Int) * chainRefreshCooldown
  served : s.served = (List.range n).map fun i =>
    ([1], (roundDraw i).scopedID tailHash sampleNamespace)
  live : ∀ c ∈ s.served, (s.relay.map.lookup (samplePeer.1, c.2)).isSome
  len : s.relay.map.len = n

theorem emptyStore_lookup (id : ChainId) : emptyStore.map.lookup (samplePeer.1, id) = none := rfl

namespace Rounds

variable {n : Nat} {s : Recipient}

theorem held (h : Rounds n s) : s.held samplePeer = n := by
  rw [Recipient.held, List.filter_eq_self.mpr h.live, h.served, List.length_map, List.length_range]

/-- A later round's chain is fresh. -/
theorem fresh (h : Rounds n s) (hn : n ≤ 32) :
    (roundDraw n).scopedID tailHash sampleNamespace ∉ s.served.map Prod.snd := by
  rw [h.served, List.map_map]
  intro hmem
  obtain ⟨i, hi, heq⟩ := List.mem_map.mp hmem
  have hlt : i < n := List.mem_range.mp hi
  have hsame : i = n := roundDraw_inj (by omega) (by omega) heq
  omega

/-- A contact off its cooldown is served. -/
theorem serves (s : Recipient) {contact : PairedContact} (peer : Bytes) (draw : Draw)
    (hfind : contactFor s.contacts peer = some contact)
    (hcool : cooling chainRefreshCooldown contact.lastChainServedAt draw.now = false)
    (hsession : contact.sessionEstablished = true) (hsealed : draw.sealed = true) :
    let call := register plainEnv draw.rand draw.relayNow s.relay
      (draw.registration tailHash samplePeer sampleNamespace)
    Recipient.step plainEnv tailHash samplePeer sampleNamespace s (.chainRefreshRequest peer draw) =
      ({ contacts := updateContact s.contacts peer fun c =>
           { c with lastChainServedAt := some draw.now }
         relay := call.store
         served := s.served ++ [(peer, draw.scopedID tailHash sampleNamespace)] },
        some call.result) := by
  simp only [Recipient.step, serveChain, hfind, hcool, hsession, hsealed, sendChainSeedDelivery]
  rfl

/-- One more round below the cap. -/
theorem next (h : Rounds n s) (hn : n < 32) :
    Rounds (n + 1) (Recipient.step plainEnv tailHash samplePeer sampleNamespace s
      (.chainRefreshRequest [1] (roundDraw n))).1 := by
  obtain ⟨last, hcontacts, hlast⟩ := h.contacts
  have hfind : contactFor s.contacts [1] = some (rotatingContact last) := by
    rw [hcontacts]
    rfl
  have hcool : cooling chainRefreshCooldown (rotatingContact last).lastChainServedAt
      (roundDraw n).now = false := by
    cases last with
    | none => rfl
    | some t =>
      have hpause : (n : Int) * chainRefreshCooldown - t = chainRefreshCooldown := by
        rw [hlast t rfl, Int.sub_mul]
        omega
      show decide ((n : Int) * chainRefreshCooldown - t < chainRefreshCooldown) = false
      rw [hpause]
      decide
  have hstep := serves s [1] (roundDraw n) hfind hcool rfl rfl
  have hfresh := h.fresh (Nat.le_of_lt hn)
  have hinv : s.Inv samplePeer := h.reaches.inv emptyStore_lookup
  have hunused : s.relay.map.lookup
      ((roundDraw n).registration tailHash samplePeer sampleNamespace).key = none := by
    rw [← Option.not_isSome_iff_eq_none]
    exact fun hlive => hfresh (hinv.known _ hlive)
  have hspec := register_fresh plainEnv_lawful (roundDraw n).rand (roundDraw n).relayNow s.relay
    ((roundDraw n).registration tailHash samplePeer sampleNamespace)
    (show ¬ ((16384 : UInt32) = 0 ∨ MAX_CHAIN_LENGTH < 16384) by decide) hunused
  have hcount : chainsOf s.relay.map
      ((roundDraw n).registration tailHash samplePeer sampleNamespace).peerId.1 = n :=
    hinv.chainsOf_eq.trans h.held
  simp only [hcount, h.len] at hspec
  rw [if_pos (show n < MAX_TOTAL_CHAINS ∧ n < MAX_CHAINS_PER_PEER from
    ⟨Nat.lt_trans hn (by decide), hn⟩)] at hspec
  obtain ⟨_, hmap⟩ := hspec
  refine ⟨h.reaches.snoc rfl hfresh, ?_, ?_, ?_, ?_⟩
  · refine ⟨some ((roundDraw n).now), ?_, ?_⟩
    · rw [hstep, hcontacts]
      rfl
    · rintro t ⟨⟩
      simp [roundDraw]
  · rw [hstep, h.served, List.range_succ, List.map_append]
    rfl
  · intro c hc
    rw [hstep] at hc ⊢
    simp only [hmap]
    rcases List.mem_append.mp hc with hold | hnew
    · rw [AList.lookup_insert_of_eq_or_ne]
      split
      · rfl
      · exact h.live c hold
    · rw [List.mem_singleton.mp hnew]
      rw [show (samplePeer.1, (roundDraw n).scopedID tailHash sampleNamespace) =
        ((roundDraw n).registration tailHash samplePeer sampleNamespace).key from rfl,
        AList.lookup_insert]
      rfl
  · rw [hstep]
    simp only [hmap, AList.len, AList.entries_insert_of_notMem (AList.lookup_eq_none.mp hunused)]
    exact congrArg (· + 1) h.len

end Rounds

theorem rotated_rounds : ∀ n, n ≤ 32 → Rounds n (rotated n)
  | 0, _ =>
    { reaches := Runs.Reach.refl
      contacts := ⟨none, rfl, nofun⟩
      served := rfl
      live := nofun
      len := rfl }
  | n + 1, h => (rotated_rounds n (by omega)).next (by omega)

/-- With 31 chains of one contact at the relay, the first chain for the other contact is
registered. -/
theorem first_chain_registered :
    (rotated 31).held samplePeer = 31 ∧
      ∃ outcome, (Recipient.step plainEnv tailHash samplePeer sampleNamespace (rotated 31)
          (.chainRefreshRequest [2] (roundDraw 31))).2 = some outcome ∧
        outcome = .ok .registered := by
  have h := rotated_rounds 31 (by decide)
  have hfresh : FreshEvent tailHash samplePeer sampleNamespace (rotated 31)
      (.chainRefreshRequest [2] (roundDraw 31)) := h.fresh (by decide)
  have htotal : (rotated 31).relay.map.len < MAX_TOTAL_CHAINS := by
    rw [h.len]
    decide
  obtain ⟨last, hcontacts, _⟩ := h.contacts
  have hfind : contactFor (rotated 31).contacts [2] = some waitingContact := by
    rw [hcontacts]
    rfl
  have hout := congrArg Prod.snd (Rounds.serves (rotated 31) [2] (roundDraw 31) hfind rfl rfl rfl)
  refine ⟨h.held, _, hout, (registered_iff_below_cap plainEnv_lawful emptyStore_lookup h.reaches
    hfresh hout htotal).1.mpr ?_⟩
  rw [h.held]
  decide

/-- One contact has been served a new chain every half hour for 16 hours. The
relay refuses the first chain for the other contact, with room for 99968 more. -/
theorem rotations_block_other_contact :
    Recipient.Reaches plainEnv tailHash samplePeer sampleNamespace twoContacts (rotated 32) ∧
      (∀ c ∈ (rotated 32).served, c.1 = [1]) ∧
      (rotated 32).relay.map.len < MAX_TOTAL_CHAINS ∧
      FreshEvent tailHash samplePeer sampleNamespace (rotated 32)
        (.chainRefreshRequest [2] (roundDraw 32)) ∧
      (Recipient.step plainEnv tailHash samplePeer sampleNamespace (rotated 32)
        (.chainRefreshRequest [2] (roundDraw 32))).2 = some (.ok .rejectedCap) := by
  have h := rotated_rounds 32 (Nat.le_refl 32)
  have hfresh : FreshEvent tailHash samplePeer sampleNamespace (rotated 32)
      (.chainRefreshRequest [2] (roundDraw 32)) := h.fresh (Nat.le_refl 32)
  have htotal : (rotated 32).relay.map.len < MAX_TOTAL_CHAINS := by
    rw [h.len]
    decide
  obtain ⟨last, hcontacts, _⟩ := h.contacts
  have hfind : contactFor (rotated 32).contacts [2] = some waitingContact := by
    rw [hcontacts]
    rfl
  have hout := congrArg Prod.snd (Rounds.serves (rotated 32) [2] (roundDraw 32) hfind rfl rfl rfl)
  have hrefused := ((h.reaches.inv emptyStore_lookup).outcome_iff plainEnv_lawful hfresh hout
    htotal).2.mpr (Nat.le_of_eq h.held.symm)
  refine ⟨h.reaches, ?_, htotal, hfresh, hout.trans (congrArg some hrefused)⟩
  intro c hc
  rw [h.served] at hc
  obtain ⟨i, _, rfl⟩ := List.mem_map.mp hc
  rfl

end Pizzini.Delivery
