import Pizzini.Relay.HelloReplay
import Pizzini.Relay.PushTokenStore
import Pizzini.Relay.RoutingSafety
import Pizzini.Relay.SeedRate

/-!
# Peer ids as keys

Seven tables of the relay have peer ids for keys: `routes`, `verify_keys`,
`hello_replays`, `push_tokens`, the offline queue, the chain-seed rates and the
set of recipients that each connection keeps. Ids reach them in two ways, in
the HELLO of a connection and in the header of a routed frame.

`read_peer_id` refuses a header with an id of more than `MAX_PEER_ID_BYTES`
bytes. `parse_hello` reads the id of a HELLO as it reads any other blob, and so
leaves its length to `IdentityKey::decode`. In every run in which no HELLO with
a longer id passes its checks the keys stay small (`keys_stay_small`); a longer
id that passes them becomes a key of `hello_replays` at once and of `routes` two
lock regions later (`hello_routed`).
-/

namespace Pizzini.Relay

open Runs Wire

variable {K : Type}

/-! ## The tables -/

/-- `MAX_VERIFY_KEYS` (main.rs:620). -/
def MAX_VERIFY_KEYS : Nat := 500000

/-- `VERIFY_KEY_TTL` (main.rs:605). -/
def VERIFY_KEY_TTL [Ring K] : K := 2592000

/-- `VerifyKeys`: a verify key, and when it was last registered. -/
abbrev VerifyKeys (K : Type) := Dict PeerId (Bytes × K)

/-- The lock region of `verify_keys` in `handle_connection` (main.rs:1322–1339). -/
def VerifyKeys.register (verifyKeys : VerifyKeys K) (now : K) (h : ParsedHello) : VerifyKeys K :=
  let isKnown := (verifyKeys.lookup h.peerId).isSome
  if admitsNewSoftState isKnown verifyKeys.len MAX_VERIFY_KEYS then
    verifyKeys.insert h.peerId (h.verifyKey, now)
  else verifyKeys

/-- `handle_connection` between an accepted HELLO and its route. -/
inductive Greeting where
  /-- the lock region of `verify_keys` is next -/
  | proven (h : ParsedHello)
  /-- the lock region of `routes` is next -/
  | keyed (peerId : PeerId)

def Greeting.peerId : Greeting → PeerId
  | .proven h => h.peerId
  | .keyed peerId => peerId

/-- A frame that has passed the checks of its arm of `read_loop`; the lookup of
its recipient's route is next. -/
structure Passed where
  toId : PeerId
  pclass : PendingClass
  ttlSeconds : UInt32
  bytes : Bytes

def Passed.accept (tag : Nat) (f : Passed) : Accepted :=
  ⟨tag, f.toId, f.pclass, f.ttlSeconds, f.bytes⟩

/-- The tables with peer ids for keys, and the handlers under way. A connection's
`chain_seed_to_ids` stands under its channel. -/
structure KeyedRelay (K : Type) where
  relay : RelayState
  verifyKeys : VerifyKeys K
  helloReplays : HelloReplays K
  pushTokens : PushTokenStore
  chainSeedRate : ChainSeedRate K
  chainSeedToIds : Dict ChanId (Finset PeerId)
  greetings : List Greeting
  passed : List Passed

/-- The collectors of the tables in memory. -/
inductive Collector (K : Type) where
  | verifyKeys (now : K)
  | helloReplays (now : K)
  | chainSeedRate (now : K)
  | pushTokens (now : UInt64)

namespace KeyedRelay

variable (s : KeyedRelay K)

/-- The first frame of a connection, up to the end of
`verify_hello_possession_proof` (main.rs:1290–1311). -/
def firstFrame {Pub : Type} (keys : IdentityKeys Pub) (nowSecs : Nat) (now : K) :
    Bytes → KeyedRelay K
  | [] => s
  | frameType :: body =>
    if frameType ≠ FRAME_TYPE_HELLO then s
    else match parseHello body with
      | .error _ => s
      | .ok h =>
        match verifyHelloPossessionProof keys h nowSecs now s.helloReplays with
        | .error _ => s
        | .ok helloReplays =>
          { s with
            helloReplays
            greetings := s.greetings ++ [.proven h] }

/-- The next lock region of a greeting, and what is left of it (main.rs:1322–1355). -/
def greet (now : K) : Greeting → KeyedRelay K × Option Greeting
  | .proven h => ({ s with verifyKeys := s.verifyKeys.register now h }, some (.keyed h.peerId))
  | .keyed peerId => ({ s with relay := s.relay.hello peerId }, none)

/-- A frame goes on to the lookup of its recipient's route. -/
def pass (f : Passed) : KeyedRelay K := { s with passed := s.passed ++ [f] }

/-- The arms of REGISTER_PUSH and DEREGISTER_PUSH (main.rs:1568–1600, 1648–1676). -/
def registerPush (selfId : PeerId) (body : Bytes) (nowUnix : UInt64) : KeyedRelay K :=
  match parseRegisterPush body with
  | .error _ => s
  | .ok token => { s with pushTokens := s.pushTokens.insert selfId token nowUnix }

def deregisterPush (selfId : PeerId) (body : Bytes) : KeyedRelay K :=
  if !body.isEmpty then s else { s with pushTokens := (s.pushTokens.remove selfId).1 }

/-- The arm of SEND and ACK up to the lookup (main.rs:1677–1738). `passes` is the
answer of the delivery token's check and of the dedupe table. -/
def sealedFrame (frameType : UInt8) (body : Bytes) (passes : Bool) : KeyedRelay K :=
  match parseSealed body with
  | .error _ => s
  | .ok parsed =>
    if passes then s.pass ⟨parsed.toId, .authorized, parsed.ttlSeconds, frameType :: body⟩ else s

variable [Ring K] [LinearOrder K]

/-- The arm of CHAIN_SEED_DELIVERY up to the lookup (main.rs:1904–2013). -/
def seedFrame (selfId : PeerId) (ch : ChanId) (frameType : UInt8) (body : Bytes) (now : K) :
    KeyedRelay K :=
  let toIds := (s.chainSeedToIds.lookup ch).getD ∅
  let (verdict, conn, chainSeedRate) := chainSeedDelivery now body ⟨selfId, toIds⟩ s.chainSeedRate
  let s' := { s with
    chainSeedRate
    chainSeedToIds := s.chainSeedToIds.insert ch conn.toIds }
  match verdict with
  | .accepted toId => s'.pass ⟨toId, .seed, MAX_PENDING_TTL.toUInt32, frameType :: body⟩
  | _ => s'

/-- A frame of the connection of `selfId` on channel `ch`. The other arms of
`read_loop` leave these tables as they are. -/
def readFrame (selfId : PeerId) (ch : ChanId) (passes : Bool) (now : K) (nowUnix : UInt64) :
    Bytes → KeyedRelay K
  | [] => s
  | frameType :: body =>
    if frameType = FRAME_TYPE_REGISTER_PUSH then s.registerPush selfId body nowUnix
    else if frameType = FRAME_TYPE_DEREGISTER_PUSH then s.deregisterPush selfId body
    else if frameType = FRAME_TYPE_SEND ∨ frameType = FRAME_TYPE_ACK then
      s.sealedFrame frameType body passes
    else if frameType = FRAME_TYPE_CHAIN_SEED_DELIVERY then s.seedFrame selfId ch frameType body now
    else s

/-- A connection ends: its set goes with it. -/
def disconnect (p : PeerId) (ch : ChanId) : KeyedRelay K :=
  { s with
    relay := { s.relay with tables := s.relay.tables.disconnect p ch }
    chainSeedToIds := s.chainSeedToIds.erase ch }

/-- A collector's tick (main.rs:2256–2325, 2768–2845). -/
def collect : Collector K → KeyedRelay K
  | .verifyKeys now =>
    let cutoff := instantCutoff now VERIFY_KEY_TTL
    { s with verifyKeys := s.verifyKeys.retain fun _ entry => decide (cutoff < entry.2) }
  | .helloReplays now =>
    { s with
      helloReplays := retainAfter (instantCutoff now HELLO_REPLAY_WINDOW) s.helloReplays }
  | .chainSeedRate now => { s with chainSeedRate := s.chainSeedRate.gc now }
  | .pushTokens now => { s with pushTokens := (s.pushTokens.gcExpired MAX_TOKEN_AGE now).1 }

end KeyedRelay

/-! ## Steps -/

inductive KeyEvent (K : Type) where
  | firstFrame (nowSecs : Nat) (now : K) (frame : Bytes)
  | greet (now : K)
  | readFrame (ch : ChanId) (passes : Bool) (now : K) (nowUnix : UInt64) (frame : Bytes)
  | route
  | relay (ev : RelayEvent)
  | disconnect (p : PeerId) (ch : ChanId)
  | collect (c : Collector K)

/-- The steps of the routing tables that no frame and no connection's end is
part of: a handler's next lock region, a writer task's exit, a collection. -/
def RelayEvent.Background : RelayEvent → Prop
  | .exec _ _ | .writerExit _ | .collect _ => True
  | .send _ | .hello _ | .disconnect _ _ => False

/-- One lock region of one connection, or a tick. -/
inductive KeyStep [Ring K] [LinearOrder K] {Pub : Type} (keys : IdentityKeys Pub) :
    KeyedRelay K → KeyEvent K → KeyedRelay K → Prop where
  | firstFrame {s : KeyedRelay K} {nowSecs : Nat} {now : K} {frame : Bytes} :
      KeyStep keys s (.firstFrame nowSecs now frame) (s.firstFrame keys nowSecs now frame)
  | greet {s : KeyedRelay K} {pre post : List Greeting} {g : Greeting} {now : K}
      (hs : s.greetings = pre ++ g :: post) :
      KeyStep keys s (.greet now)
        { (s.greet now g).1 with greetings := pre ++ (s.greet now g).2.toList ++ post }
  | readFrame {s : KeyedRelay K} {selfId : PeerId} {ch : ChanId} {passes : Bool} {now : K}
      {nowUnix : UInt64} {frame : Bytes} (hconn : (selfId, ch) ∈ s.relay.tables.conns) :
      KeyStep keys s (.readFrame ch passes now nowUnix frame)
        (s.readFrame selfId ch passes now nowUnix frame)
  | route {s : KeyedRelay K} {pre post : List Passed} {f : Passed}
      (hs : s.passed = pre ++ f :: post) :
      KeyStep keys s .route
        { s with
          relay := s.relay.lookupAndSend (f.accept s.relay.nextTag)
          passed := pre ++ post }
  | relay {s : KeyedRelay K} {ev : RelayEvent} {relay' : RelayState} (hev : ev.Background)
      (hstep : RelayStep s.relay ev relay') :
      KeyStep keys s (.relay ev) { s with relay := relay' }
  | disconnect {s : KeyedRelay K} {p : PeerId} {ch : ChanId}
      (hconn : (p, ch) ∈ s.relay.tables.conns) :
      KeyStep keys s (.disconnect p ch) (s.disconnect p ch)
  | collect {s : KeyedRelay K} {c : Collector K} : KeyStep keys s (.collect c) (s.collect c)

/-! ## Small keys -/

/-- An id that `read_peer_id` would take. -/
def ShortId (p : PeerId) : Prop := p.length ≤ MAX_PEER_ID_BYTES

instance : DecidablePred ShortId := fun _ => inferInstanceAs (Decidable (_ ≤ _))

/-- No table has a key that is longer. -/
structure SmallKeys (s : KeyedRelay K) : Prop where
  routes : s.relay.tables.routes.AllKeys ShortId
  verifyKeys : s.verifyKeys.AllKeys ShortId
  helloReplays : s.helloReplays.AllKeys fun key => ShortId key.1
  pushTokens : s.pushTokens.map.AllKeys ShortId
  pending : s.relay.tables.pending.queues.AllKeys ShortId
  chainSeedRate : s.chainSeedRate.AllKeys fun pair => ShortId pair.1 ∧ ShortId pair.2
  chainSeedToIds : ∀ ch toIds, s.chainSeedToIds.lookup ch = some toIds → ∀ p ∈ toIds, ShortId p

/-- An admitted HELLO is for a short id: the condition on a first frame whose
signature and nonce are in order. -/
def AdmitsShort {Pub : Type} (keys : IdentityKeys Pub) (s : KeyedRelay K) : KeyEvent K → Prop
  | .firstFrame nowSecs _ frame => ∀ body h, frame = FRAME_TYPE_HELLO :: body →
      parseHello body = .ok h → h.inWindow nowSecs → h.Proven keys →
      s.helloReplays.lookup h.replayKey = none → ShortId h.peerId
  | _ => True

/-! ## The routing tables -/

def Handler.peerId : Handler → PeerId
  | .queueing a => a.toId
  | .rechecking p => p
  | .draining p _ => p
  | .forwarding p _ _ => p

/-- The ids of the shared tables are short. -/
structure ShortTables (t : Tables) : Prop where
  routes : t.routes.AllKeys ShortId
  pending : t.pending.queues.AllKeys ShortId
  conns : ∀ c ∈ t.conns, ShortId c.1

/-- So are those that the handlers work for. -/
structure ShortRelay (r : RelayState) : Prop where
  tables : ShortTables r.tables
  handlers : ∀ h ∈ r.handlers, ShortId h.peerId

namespace PendingStore

variable {F : Type} [Queued F] {store : PendingStore F} {P : PeerId → Prop}

theorem allKeys_enqueueInner (h : store.queues.AllKeys P) {peerId : PeerId} (hp : P peerId)
    (frame : F) (cap : Nat) : (store.enqueueInner peerId frame cap).1.queues.AllKeys P := by
  rcases enqueueInner_eq store peerId frame cap with heq | heq
  · rw [heq]
    exact h
  · rw [heq]
    exact h.insert hp _

theorem allKeys_drain (h : store.queues.AllKeys P) (now : UInt64) (peerId : PeerId) :
    (store.drain now peerId).1.queues.AllKeys P := by
  unfold drain
  split
  · exact h
  · exact h.erase peerId

theorem allKeys_gcExpired (h : store.queues.AllKeys P) (now : UInt64) :
    (store.gcExpired now).1.queues.AllKeys P :=
  (h.mapVals _).retain _

end PendingStore

theorem ShortTables.enqueuePending {t : Tables} (h : ShortTables t) (now : UInt64) {a : Accepted}
    (ha : ShortId a.toId) : ShortTables (t.enqueuePending now a) := by
  have hpending : (a.enqueue now t.pending).1.queues.AllKeys ShortId := by
    unfold Accepted.enqueue
    split
    · exact PendingStore.allKeys_enqueueInner h.pending ha _ _
    · exact PendingStore.allKeys_enqueueInner h.pending ha _ _
  unfold Tables.enqueuePending
  simp only
  split
  · exact ⟨h.routes, hpending, h.conns⟩
  · exact ⟨h.routes, hpending, h.conns⟩

theorem ShortTables.drainQueue {t : Tables} (h : ShortTables t) (now : UInt64) (p : PeerId) :
    ShortTables (t.drainQueue now p).1 :=
  ⟨h.routes, PendingStore.allKeys_drain h.pending now p, h.conns⟩

theorem ShortTables.forward {t : Tables} (h : ShortTables t) (p : PeerId) (batch : List Accepted)
    (sends : Nat) : ShortTables (t.forward p batch sends) := by
  unfold Tables.forward
  split
  · exact ⟨h.routes, h.pending, h.conns⟩
  · split
    · exact ⟨h.routes, h.pending, h.conns⟩
    · exact ⟨h.routes, h.pending, h.conns⟩

theorem ShortTables.finish {t : Tables} (h : ShortTables t) {p : PeerId} (hp : ShortId p)
    (conn : Option ChanId) : ShortTables (t.finish p conn) where
  routes := h.routes
  pending := h.pending
  conns := by
    intro c hc
    rcases List.mem_append.mp hc with hold | hnew
    · exact h.conns c hold
    · obtain ⟨ch, _, rfl⟩ := Option.map_eq_some_iff.mp (Option.mem_toList.mp hnew)
      exact hp

theorem ShortTables.disconnect {t : Tables} (h : ShortTables t) (p : PeerId) (ch : ChanId) :
    ShortTables (t.disconnect p ch) where
  routes := by
    show AList.AllKeys ShortId (if _ then _ else _)
    split
    · exact h.routes.erase p
    · exact h.routes
  pending := h.pending
  conns := fun c hc => h.conns c (List.mem_of_mem_erase hc)

/-- One lock region: what is left of the handler works for the same peer. -/
theorem ShortTables.exec {t : Tables} (ht : ShortTables t) {h : Handler} (hp : ShortId h.peerId)
    (now : UInt64) (sends : Nat) :
    ShortTables (h.exec t now sends).1 ∧ ∀ h' ∈ (h.exec t now sends).2, ShortId h'.peerId := by
  cases h with
  | queueing a =>
    refine ⟨ht.enqueuePending now hp, fun h' hh' => ?_⟩
    cases hh'
    exact hp
  | rechecking p =>
    refine ⟨ht, fun h' hh' => ?_⟩
    obtain ⟨_, rfl⟩ : t.routeIsLive p = true ∧ Handler.draining p none = h' := by
      simpa [Handler.exec] using hh'
    exact hp
  | draining p conn =>
    simp only [Handler.exec]
    split
    · exact ⟨(ht.drainQueue now p).finish hp conn, by simp⟩
    · refine ⟨ht.drainQueue now p, fun h' hh' => ?_⟩
      cases hh'
      exact hp
  | forwarding p conn batch =>
    exact ⟨(ht.forward p batch sends).finish hp conn, by simp [Handler.exec]⟩

/-- An event that brings an id into the tables brings a short one. -/
def RelayEvent.Short : RelayEvent → Prop
  | .send a => ShortId a.toId
  | .hello p => ShortId p
  | .exec _ _ | .disconnect _ _ | .writerExit _ | .collect _ => True

theorem ShortRelay.lookupAndSend {r : RelayState} (h : ShortRelay r) {a : Accepted}
    (ha : ShortId a.toId) : ShortRelay (r.lookupAndSend a) := by
  unfold RelayState.lookupAndSend
  split
  · exact ⟨⟨h.tables.routes, h.tables.pending, h.tables.conns⟩, h.handlers⟩
  · refine ⟨h.tables, fun h' hmem => ?_⟩
    rcases List.mem_append.mp hmem with hold | hnew
    · exact h.handlers h' hold
    · cases List.mem_singleton.mp hnew
      exact ha

theorem ShortRelay.hello {r : RelayState} (h : ShortRelay r) {p : PeerId} (hp : ShortId p) :
    ShortRelay (r.hello p) where
  tables := ⟨h.tables.routes.insert hp _, h.tables.pending, h.tables.conns⟩
  handlers := by
    intro h' hmem
    rcases List.mem_append.mp hmem with hold | hnew
    · exact h.handlers h' hold
    · cases List.mem_singleton.mp hnew
      exact hp

/-- A step of the routing tables brings in no other ids. -/
theorem ShortRelay.step {r r' : RelayState} {ev : RelayEvent} (h : ShortRelay r) (hev : ev.Short)
    (hstep : RelayStep r ev r') : ShortRelay r' := by
  cases hstep with
  | send _ => exact h.lookupAndSend hev
  | hello => exact h.hello hev
  | @exec pre post hnd now sends hs =>
    have hmem : ∀ h' ∈ pre ++ hnd :: post, ShortId h'.peerId := hs ▸ h.handlers
    obtain ⟨htables, hleft⟩ := h.tables.exec (hmem hnd (by simp)) now sends
    refine ⟨htables, fun h' hin => ?_⟩
    rcases List.mem_append.mp hin with hin | hpost
    · rcases List.mem_append.mp hin with hpre | hnew
      · exact hmem h' (List.mem_append_left _ hpre)
      · exact hleft h' (Option.mem_toList.mp hnew)
    · exact hmem h' (List.mem_append_right _ (List.mem_cons_of_mem _ hpost))
  | disconnect _ => exact ⟨h.tables.disconnect _ _, h.handlers⟩
  | writerExit _ => exact ⟨⟨h.tables.routes, h.tables.pending, h.tables.conns⟩, h.handlers⟩
  | collect =>
    exact ⟨⟨h.tables.routes, PendingStore.allKeys_gcExpired h.tables.pending _, h.tables.conns⟩,
      h.handlers⟩

/-! ## The handlers -/

/-- `SmallKeys`, and the ids that are on their way into a table. -/
structure ShortIds (s : KeyedRelay K) : Prop where
  relay : ShortRelay s.relay
  verifyKeys : s.verifyKeys.AllKeys ShortId
  helloReplays : s.helloReplays.AllKeys fun key => ShortId key.1
  pushTokens : s.pushTokens.map.AllKeys ShortId
  chainSeedRate : s.chainSeedRate.AllKeys fun pair => ShortId pair.1 ∧ ShortId pair.2
  chainSeedToIds : ∀ ch toIds, s.chainSeedToIds.lookup ch = some toIds → ∀ p ∈ toIds, ShortId p
  greetings : ∀ g ∈ s.greetings, ShortId g.peerId
  passed : ∀ f ∈ s.passed, ShortId f.toId

theorem ShortIds.smallKeys {s : KeyedRelay K} (h : ShortIds s) : SmallKeys s where
  routes := h.relay.tables.routes
  verifyKeys := h.verifyKeys
  helloReplays := h.helloReplays
  pushTokens := h.pushTokens
  pending := h.relay.tables.pending
  chainSeedRate := h.chainSeedRate
  chainSeedToIds := h.chainSeedToIds

section Handlers

variable {s : KeyedRelay K} {Pub : Type} {keys : IdentityKeys Pub}

/-- A first frame: the HELLO's id is a key at once. -/
theorem ShortIds.firstFrame (h : ShortIds s) {nowSecs : Nat} {now : K} {frame : Bytes}
    (hok : AdmitsShort keys s (.firstFrame nowSecs now frame)) :
    ShortIds (s.firstFrame keys nowSecs now frame) := by
  cases frame with
  | nil => exact h
  | cons frameType body =>
    simp only [KeyedRelay.firstFrame]
    by_cases htype : frameType = FRAME_TYPE_HELLO
    · rw [if_neg (not_not.mpr htype)]
      subst htype
      cases hparse : parseHello body with
      | error _ => exact h
      | ok hello =>
        simp only
        split
        · exact h
        next helloReplays haccepted =>
        obtain ⟨hwindow, hproven, hnew, htable⟩ := verifyHello_eq_ok.mp haccepted
        have hshort : ShortId hello.peerId := hok body hello rfl hparse hwindow hproven hnew
        refine { h with helloReplays := ?_, greetings := fun g hg => ?_ }
        · rw [htable]
          split
          · exact h.helloReplays.insert hshort _
          · exact h.helloReplays
        · rcases List.mem_append.mp hg with hold | hlast
          · exact h.greetings g hold
          · cases List.mem_singleton.mp hlast
            exact hshort
    · rw [if_pos htype]
      exact h

theorem ShortIds.greet (h : ShortIds s) {pre post : List Greeting} {g : Greeting}
    (hs : s.greetings = pre ++ g :: post) (now : K) :
    ShortIds { (s.greet now g).1 with greetings := pre ++ (s.greet now g).2.toList ++ post } := by
  have hmem : ∀ g' ∈ pre ++ g :: post, ShortId g'.peerId := hs ▸ h.greetings
  have hg : ShortId g.peerId := hmem g (by simp)
  have hrest : ∀ g' ∈ pre ++ post, ShortId g'.peerId := fun g' hg' =>
    hmem g' (((List.sublist_cons_self g post).append_left pre).subset hg')
  cases g with
  | proven hello =>
    refine { h with verifyKeys := ?_, greetings := fun g' hg' => ?_ }
    · show (s.verifyKeys.register now hello).AllKeys ShortId
      unfold VerifyKeys.register
      simp only
      split
      · exact h.verifyKeys.insert hg _
      · exact h.verifyKeys
    · rcases List.mem_append.mp hg' with hg' | hpost
      · rcases List.mem_append.mp hg' with hpre | hnew
        · exact hrest g' (List.mem_append_left _ hpre)
        · cases List.mem_singleton.mp hnew
          exact hg
      · exact hrest g' (List.mem_append_right _ hpost)
  | keyed peerId =>
    refine { h with relay := h.relay.hello hg, greetings := fun g' hg' => ?_ }
    exact hrest g' (by simpa [KeyedRelay.greet] using hg')

theorem ShortIds.pass (h : ShortIds s) {f : Passed} (hf : ShortId f.toId) :
    ShortIds (s.pass f) := by
  refine { h with passed := fun f' hf' => ?_ }
  rcases List.mem_append.mp hf' with hold | hlast
  · exact h.passed f' hold
  · cases List.mem_singleton.mp hlast
    exact hf

theorem ShortIds.registerPush (h : ShortIds s) {selfId : PeerId} (hself : ShortId selfId)
    (body : Bytes) (nowUnix : UInt64) : ShortIds (s.registerPush selfId body nowUnix) := by
  unfold KeyedRelay.registerPush
  split
  · exact h
  · exact { h with pushTokens := h.pushTokens.insert hself _ }

theorem ShortIds.deregisterPush (h : ShortIds s) (selfId : PeerId) (body : Bytes) :
    ShortIds (s.deregisterPush selfId body) := by
  unfold KeyedRelay.deregisterPush
  split
  · exact h
  · refine { h with pushTokens := ?_ }
    show AList.AllKeys ShortId (s.pushTokens.remove selfId).1.map
    unfold PushTokenStore.remove
    split
    · exact h.pushTokens.erase selfId
    · exact h.pushTokens

/-- SEND and ACK: the recipient's id comes from `read_peer_id`. -/
theorem ShortIds.sealedFrame (h : ShortIds s) (frameType : UInt8) (body : Bytes) (passes : Bool) :
    ShortIds (s.sealedFrame frameType body passes) := by
  unfold KeyedRelay.sealedFrame
  split
  · exact h
  next parsed hparse =>
  split
  · exact h.pass (parseSealed_length hparse)
  · exact h

variable [Ring K] [LinearOrder K]

theorem allKeys_check {P : PeerId × PeerId → Prop} {rate : ChainSeedRate K}
    (h : rate.AllKeys P) (now : K) {pair : PeerId × PeerId} (hpair : P pair) :
    (rate.check now pair).2.AllKeys P := by
  rcases check_cases rate now pair with heq | ⟨queue, _, heq⟩ | ⟨heq, _⟩
  · rw [heq]
    exact h
  · rw [heq]
    exact h.insert hpair _
  · rw [heq]
    exact h.insert hpair _

/-- CHAIN_SEED_DELIVERY: both ids of a pair come from `read_peer_id`. -/
theorem chainSeedDelivery_short (now : K) (body : Bytes) (conn : SeedConn) {rate : ChainSeedRate K}
    (hids : ∀ p ∈ conn.toIds, ShortId p)
    (hrate : rate.AllKeys fun pair => ShortId pair.1 ∧ ShortId pair.2) :
    let (verdict, conn', rate') := chainSeedDelivery now body conn rate
    (∀ toId, verdict = .accepted toId → ShortId toId) ∧ (∀ p ∈ conn'.toIds, ShortId p) ∧
      rate'.AllKeys fun pair => ShortId pair.1 ∧ ShortId pair.2 := by
  unfold chainSeedDelivery
  cases hparse : parseRouted body with
  | error reason => exact ⟨nofun, hids, hrate⟩
  | ok parsed =>
    obtain ⟨hto, hfrom⟩ := parseRouted_length hparse
    have hcheck : (rate.check now (parsed.fromId, parsed.toId)).2.AllKeys
        fun pair => ShortId pair.1 ∧ ShortId pair.2 := allKeys_check hrate now ⟨hfrom, hto⟩
    simp only
    split
    · exact ⟨nofun, hids, hrate⟩
    split
    · exact ⟨nofun, hids, hrate⟩
    cases hverdict : rate.check now (parsed.fromId, parsed.toId) with
    | mk outcome rate' =>
      rw [hverdict] at hcheck
      cases outcome with
      | perPairCap => exact ⟨nofun, hids, hcheck⟩
      | globalCardinalityCap => exact ⟨nofun, hids, hcheck⟩
      | ok =>
        refine ⟨fun toId heq => ?_, fun p hp => ?_, hcheck⟩
        · cases heq
          exact hto
        · rcases Finset.mem_insert.mp hp with rfl | hold
          · exact hto
          · exact hids p hold

theorem ShortIds.seedFrame (h : ShortIds s) (selfId : PeerId) (ch : ChanId) (frameType : UInt8)
    (body : Bytes) (now : K) : ShortIds (s.seedFrame selfId ch frameType body now) := by
  have hids : ∀ p ∈ (s.chainSeedToIds.lookup ch).getD ∅, ShortId p := by
    cases hlook : s.chainSeedToIds.lookup ch with
    | none => exact fun p hp => absurd hp (Finset.notMem_empty p)
    | some toIds => exact h.chainSeedToIds ch toIds hlook
  have harm := chainSeedDelivery_short now body ⟨selfId, (s.chainSeedToIds.lookup ch).getD ∅⟩
    hids h.chainSeedRate
  unfold KeyedRelay.seedFrame
  simp only at harm ⊢
  obtain ⟨hverdict, hids', hrate⟩ := harm
  have hkept : ShortIds { s with
      chainSeedRate := (chainSeedDelivery now body
        ⟨selfId, (s.chainSeedToIds.lookup ch).getD ∅⟩ s.chainSeedRate).2.2
      chainSeedToIds := s.chainSeedToIds.insert ch (chainSeedDelivery now body
        ⟨selfId, (s.chainSeedToIds.lookup ch).getD ∅⟩ s.chainSeedRate).2.1.toIds } := by
    refine { h with chainSeedRate := hrate, chainSeedToIds := fun ch' toIds hlook => ?_ }
    rw [AList.lookup_insert_of_eq_or_ne] at hlook
    split at hlook
    · cases hlook
      exact hids'
    · exact h.chainSeedToIds ch' toIds hlook
  split
  next toId heq => exact hkept.pass (hverdict toId heq)
  next => exact hkept

/-- A frame of a connection: its sender's id is the connection's own. -/
theorem ShortIds.readFrame (h : ShortIds s) {selfId : PeerId} {ch : ChanId}
    (hconn : (selfId, ch) ∈ s.relay.tables.conns) (passes : Bool) (now : K) (nowUnix : UInt64)
    (frame : Bytes) : ShortIds (s.readFrame selfId ch passes now nowUnix frame) := by
  have hself : ShortId selfId := h.relay.tables.conns _ hconn
  cases frame with
  | nil => exact h
  | cons frameType body =>
    simp only [KeyedRelay.readFrame]
    split
    · exact h.registerPush hself body nowUnix
    split
    · exact h.deregisterPush selfId body
    split
    · exact h.sealedFrame frameType body passes
    split
    · exact h.seedFrame selfId ch frameType body now
    · exact h

/-- A collector takes entries out. -/
theorem ShortIds.collect (h : ShortIds s) (c : Collector K) : ShortIds (s.collect c) := by
  cases c with
  | verifyKeys now => exact { h with verifyKeys := h.verifyKeys.retain _ }
  | helloReplays now => exact { h with helloReplays := h.helloReplays.retain _ }
  | chainSeedRate now => exact { h with chainSeedRate := (h.chainSeedRate.mapVals _).retain _ }
  | pushTokens now => exact { h with pushTokens := h.pushTokens.retain _ }

omit [Ring K] [LinearOrder K] in
theorem ShortIds.disconnect (h : ShortIds s) (p : PeerId) (ch : ChanId) :
    ShortIds (s.disconnect p ch) where
  relay := ⟨h.relay.tables.disconnect p ch, h.relay.handlers⟩
  verifyKeys := h.verifyKeys
  helloReplays := h.helloReplays
  pushTokens := h.pushTokens
  chainSeedRate := h.chainSeedRate
  chainSeedToIds := by
    intro ch' toIds hlook
    by_cases hch : ch' = ch
    · rw [hch] at hlook
      rw [show (s.disconnect p ch).chainSeedToIds = s.chainSeedToIds.erase ch from rfl,
        AList.lookup_erase] at hlook
      cases hlook
    · rw [show (s.disconnect p ch).chainSeedToIds = s.chainSeedToIds.erase ch from rfl,
        AList.lookup_erase_ne hch] at hlook
      exact h.chainSeedToIds ch' toIds hlook
  greetings := h.greetings
  passed := h.passed

/-- Every step but the admission of a long id keeps the ids short. -/
theorem step_shortIds {s' : KeyedRelay K} {e : KeyEvent K} (h : ShortIds s)
    (hok : AdmitsShort keys s e) (hstep : KeyStep keys s e s') : ShortIds s' := by
  cases hstep with
  | firstFrame => exact h.firstFrame hok
  | greet hs => exact h.greet hs _
  | readFrame hconn => exact h.readFrame hconn _ _ _ _
  | @route pre post f hs =>
    have hmem : ∀ f' ∈ pre ++ f :: post, ShortId f'.toId := hs ▸ h.passed
    have hto : ShortId (f.accept s.relay.nextTag).toId := hmem f (by simp)
    refine { h with relay := h.relay.lookupAndSend hto, passed := fun f' hf' => ?_ }
    exact hmem f' (((List.sublist_cons_self f post).append_left pre).subset hf')
  | @relay ev relay' hev hrelay =>
    have hshort : ev.Short := by
      cases ev with
      | send _ => exact hev.elim
      | hello _ => exact hev.elim
      | exec _ _ | disconnect _ _ | writerExit _ | collect _ => trivial
    exact { h with relay := h.relay.step hshort hrelay }
  | disconnect _ => exact h.disconnect _ _
  | collect => exact h.collect _

end Handlers

/-! ## Runs -/

variable [Ring K] [LinearOrder K] {Pub : Type} {keys : IdentityKeys Pub}

/-- A relay that has just started. The ids of the queues and of the push tokens
it may have loaded are short. -/
structure KeyedRelay.Started (s : KeyedRelay K) : Prop where
  relay : Relay.Started s.relay
  conns : s.relay.tables.conns = []
  pending : s.relay.tables.pending.queues.AllKeys ShortId
  verifyKeys : s.verifyKeys = ∅
  helloReplays : s.helloReplays = ∅
  pushTokens : s.pushTokens.map.AllKeys ShortId
  chainSeedRate : s.chainSeedRate = ∅
  chainSeedToIds : s.chainSeedToIds = ∅
  greetings : s.greetings = []
  passed : s.passed = []

omit [Ring K] [LinearOrder K] in
theorem KeyedRelay.Started.shortIds {s : KeyedRelay K} (h : s.Started) : ShortIds s where
  relay :=
    { tables :=
        { routes := by
            rw [h.relay.routes]
            exact AList.AllKeys.empty
          pending := h.pending
          conns := by
            rw [h.conns]
            exact nofun }
      handlers := by
        rw [h.relay.handlers]
        exact nofun }
  verifyKeys := by
    rw [h.verifyKeys]
    exact AList.AllKeys.empty
  helloReplays := by
    rw [h.helloReplays]
    exact AList.AllKeys.empty
  pushTokens := h.pushTokens
  chainSeedRate := by
    rw [h.chainSeedRate]
    exact AList.AllKeys.empty
  chainSeedToIds := by
    rw [h.chainSeedToIds]
    exact nofun
  greetings := by
    rw [h.greetings]
    exact nofun
  passed := by
    rw [h.passed]
    exact nofun

/-- In every run that admits no HELLO with a longer id, every key of the seven
tables is of at most 64 bytes. -/
theorem keys_stay_small {s₀ s : KeyedRelay K} (hstart : s₀.Started)
    (hrun : Reach (KeyStep keys) (AdmitsShort keys) s₀ s) : SmallKeys s := by
  have hinv : ShortIds s :=
    hrun.invariant ShortIds (fun h hok hstep => step_shortIds h hok hstep) hstart.shortIds
  exact hinv.smallKeys

omit [Ring K] [LinearOrder K] in
/-- Such is every run with a libsignal that decodes no longer key. -/
theorem admitsShort_of_decode
    (hdecode : ∀ peerId pub, keys.decode peerId = .ok pub → ShortId peerId) (s : KeyedRelay K)
    (e : KeyEvent K) : AdmitsShort keys s e := by
  cases e with
  | firstFrame nowSecs now frame =>
    intro body h _ _ _ hproven _
    obtain ⟨pub, hpub, _⟩ := hproven
    exact hdecode h.peerId pub hpub
  | _ => trivial

/-! ## A long id -/

/-- The id of a HELLO that passes its checks, whatever its length, is a key of
`routes` after two more lock regions of its connection. -/
theorem hello_routed {ok : KeyedRelay K → KeyEvent K → Prop} (hgreet : ∀ s now, ok s (.greet now))
    {s : KeyedRelay K} {body : Bytes} {h : ParsedHello} {nowSecs : Nat} (now : K)
    (hparse : parseHello body = .ok h) (hwindow : h.inWindow nowSecs) (hproven : h.Proven keys)
    (hnew : s.helloReplays.lookup h.replayKey = none)
    (hok : ok s (.firstFrame nowSecs now (FRAME_TYPE_HELLO :: body))) :
    ∃ s', Reach (KeyStep keys) ok s s' ∧
      s'.relay.tables.routes.lookup h.peerId = some s.relay.nextChan := by
  obtain ⟨replays, haccepted⟩ :
      ∃ replays, verifyHelloPossessionProof keys h nowSecs now s.helloReplays = .ok replays :=
    ⟨_, verifyHello_eq_ok.mpr ⟨hwindow, hproven, hnew, rfl⟩⟩
  let s₁ : KeyedRelay K :=
    { s with
      helloReplays := replays
      greetings := s.greetings ++ [.proven h] }
  let s₂ : KeyedRelay K :=
    { s₁ with
      verifyKeys := s.verifyKeys.register now h
      greetings := s.greetings ++ [.keyed h.peerId] }
  have hfirst : s.firstFrame keys nowSecs now (FRAME_TYPE_HELLO :: body) = s₁ := by
    simp only [KeyedRelay.firstFrame, ne_eq, not_true_eq_false, if_false, hparse, haccepted]
    rfl
  have hread : KeyStep keys s (.firstFrame nowSecs now (FRAME_TYPE_HELLO :: body)) s₁ :=
    hfirst ▸ .firstFrame
  have hregister : KeyStep keys s₁ (.greet now) s₂ := by
    have hstep : KeyStep keys s₁ (.greet now) _ :=
      .greet (show s₁.greetings = s.greetings ++ .proven h :: [] from rfl)
    rw [List.append_nil] at hstep
    exact hstep
  have hroute : KeyStep keys s₂ (.greet now) _ :=
    .greet (show s₂.greetings = s.greetings ++ .keyed h.peerId :: [] from rfl)
  refine ⟨_, ((Reach.refl.snoc hread hok).snoc hregister (hgreet _ _)).snoc hroute (hgreet _ _), ?_⟩
  exact AList.lookup_insert _

/-- A relay with nothing in its tables. -/
def freshRelay : KeyedRelay ℚ where
  relay := emptyRelay
  verifyKeys := ∅
  helloReplays := ∅
  pushTokens := ⟨.replicate _ 0, ∅, false⟩
  chainSeedRate := ∅
  chainSeedToIds := ∅
  greetings := []
  passed := []

theorem started_freshRelay : freshRelay.Started where
  relay := started_emptyRelay
  conns := rfl
  pending := AList.AllKeys.empty
  verifyKeys := rfl
  helloReplays := rfl
  pushTokens := AList.AllKeys.empty
  chainSeedRate := rfl
  chainSeedToIds := rfl
  greetings := rfl
  passed := rfl

/-- The HELLO of `earlyHello` for another peer. -/
def helloOf (peerId : PeerId) : ParsedHello := { earlyHello with peerId }

/-- Its bytes, less the frame type. -/
def helloBody (peerId : PeerId) : Bytes :=
  PROTOCOL_VERSION :: (beBytes 2 peerId.length ++ peerId ++
    beBytes 2 VERIFY_KEY_LEN ++ earlyHello.verifyKey ++ beBytes 8 1060 ++
    beBytes 2 HELLO_NONCE_LEN ++ earlyHello.nonce.1 ++
    beBytes 2 HELLO_SIG_LEN ++ earlyHello.signature)

/-- An id of 65 bytes, which `read_peer_id` refuses. -/
def longId : PeerId := List.replicate 65 5

/-- The relay takes a HELLO for it, and has it as a key. -/
theorem long_hello_routed :
    freshRelay.Started ∧ readPeerId (beBytes 2 longId.length ++ longId) =
        .error "peer id exceeds maximum length" ∧
      ∃ s, Reach (KeyStep lenientKeys) (fun _ _ => True) freshRelay s ∧ ¬ SmallKeys s := by
  have hparse : parseHello (helloBody longId) = .ok (helloOf longId) := by decide +kernel
  have hwindow : (helloOf longId).inWindow 1060 := by decide
  obtain ⟨s, hrun, hkey⟩ : ∃ s, Reach (KeyStep lenientKeys) (fun _ _ => True) freshRelay s ∧
      s.relay.tables.routes.lookup longId = some 0 :=
    hello_routed (fun _ _ => trivial) 1060 hparse hwindow ⟨(), rfl, rfl⟩ rfl trivial
  refine ⟨started_freshRelay, by decide +kernel, s, hrun, fun hsmall => ?_⟩
  have hshort : ShortId longId := hsmall.routes longId _ hkey
  exact absurd hshort (by decide +kernel)

/-- It takes one for `[5]` as well, and its keys stay small. -/
theorem keys_stay_small_sample :
    ∃ s : KeyedRelay ℚ, SmallKeys s ∧ s.relay.tables.routes.lookup [5] = some 0 := by
  have hparse : parseHello (helloBody [5]) = .ok (helloOf [5]) := by decide +kernel
  have hwindow : (helloOf [5]).inWindow 1060 := by decide
  have hshort : AdmitsShort lenientKeys freshRelay
      (.firstFrame 1060 1060 (FRAME_TYPE_HELLO :: helloBody [5])) := by
    intro body h heq hok _ _ _
    cases heq
    rw [hparse] at hok
    cases hok
    decide
  obtain ⟨s, hrun, hkey⟩ : ∃ s, Reach (KeyStep lenientKeys) (AdmitsShort lenientKeys) freshRelay s ∧
      s.relay.tables.routes.lookup [5] = some 0 :=
    hello_routed (fun _ _ => trivial) 1060 hparse hwindow ⟨(), rfl, rfl⟩ rfl hshort
  exact ⟨s, keys_stay_small started_freshRelay hrun, hkey⟩

end Pizzini.Relay
