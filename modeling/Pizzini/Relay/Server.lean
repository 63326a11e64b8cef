import Pizzini.Client.Hashcash
import Pizzini.Delivery.ChainAgreement
import Pizzini.Delivery.SendDedupe
import Pizzini.Relay.PeerIds
import Pizzini.Relay.RoutedFrames

/-!
# The relay as a whole (`main.rs`)

The tables of the other modules in one state, and over them a connection from
its first frame to its end: `handle_connection` (1264–1432) and all arms of
`read_loop` (1470–2065). A connection is one task. It reads a frame, goes
through the lock regions of the frame's arm one after the other, and reads the
next frame when the arm is done; the regions of different connections
interleave freely.

- `Server.firstFrame`, `Server.greet`: HELLO, the verify-key table, the route;
- `Server.readFrame`: the first region of each arm, up to what it looks up next;
- `Arm`, `Server.execArm`: the rest of an arm, up to `Routing`, where a frame is
  handed to its recipient's channel or queued.

`ServerLog` is a ghost: who was greeted on which channel, what was read from it
and what became of it. Delays (the frame rate, `FrameRate`), the push wake-ups
(`PushGate`) and the files of the stores have modules of their own.
-/

namespace Pizzini.Relay

open Runs Wire Delivery Client

/-! ## Constants (main.rs:337–423) -/

def FRAME_TYPE_STATUS_REQUEST : UInt8 := 8
def FRAME_TYPE_STATUS_RESPONSE : UInt8 := 9
def FRAME_TYPE_COVER : UInt8 := 10
def COVER_PAYLOAD_LEN : Nat := 256
def STATUS_BIN_HASH_LEN : Nat := 32

/-! ## What the relay is run with -/

/-- `RelayStatus` (main.rs:140). -/
structure BuildStatus where
  crateVersion : String
  gitSha : String
  gitDirty : UInt8
  binarySha256 : FixedBytes STATUS_BIN_HASH_LEN

/-- `encode_response`; `as u16` keeps the low sixteen bits of a length. -/
def BuildStatus.encodeResponse (status : BuildStatus) : Bytes :=
  let version := utf8 status.crateVersion
  let sha := utf8 status.gitSha
  FRAME_TYPE_STATUS_RESPONSE :: PROTOCOL_VERSION :: status.gitDirty ::
    (beBytes 2 (version.length % 65536) ++ (version ++ (beBytes 2 (sha.length % 65536) ++ (sha ++
      UInt8.ofNat STATUS_BIN_HASH_LEN :: status.binarySha256.1))))

/-- The cryptography the relay calls, and its build. -/
structure ServerEnv (Pub : Type) where
  keys : IdentityKeys Pub
  blake3 : Bytes → ChainValue
  chains : ChainEnv
  /-- one hash function -/
  sameHash : SameHash chains blake3
  maxAge : UInt64
  status : BuildStatus

/-! ## State -/

/-- A connection between its accepted HELLO and its route. -/
inductive Opening where
  /-- the lock region of `verify_keys` is next -/
  | proven (h : ParsedHello)
  /-- the lock region of `routes` is next -/
  | keyed (h : ParsedHello)

def Opening.hello : Opening → ParsedHello
  | .proven h => h
  | .keyed h => h

/-- What is left of the arm of the last frame a connection has read. -/
inductive Arm where
  /-- SEND and ACK, the token is checked: the dedupe table is next -/
  | dedupe (selfId : PeerId) (frameType : UInt8) (body : Bytes) (parsed : ParsedSealed)
  /-- SEND, ACK and CHAIN_SEED_DELIVERY: the lookup of the route is next, then the queue -/
  | deliver (f : Passed)
  /-- BUNDLE_REQUEST and BUNDLE_RESPONSE: the lookup of the route is next, and no queue -/
  | exchange (toId : PeerId) (frame : Bytes)

/-- The frame it is about. -/
def Arm.frame : Arm → Bytes
  | .dedupe _ frameType body _ => frameType :: body
  | .deliver f => f.bytes
  | .exchange _ frame => frame

/-- Ghost: what the connections did, each under its channel. -/
structure ServerLog where
  /-- the HELLO of a connection that has got its channel -/
  greeted : List (ChanId × ParsedHello)
  /-- the frames read from a connection -/
  read : List (ChanId × Bytes)
  /-- the chains a connection asked to register -/
  registered : List (ChanId × ChainRegistration)
  /-- the frames of a connection that have got to the lookup of `Routing` -/
  routed : List (ChanId × Accepted)
  /-- the bundle frames of a connection, with the channel they were handed to -/
  exchanged : List (ChanId × ChanId × Bytes)
  /-- the answers to a connection's STATUS_REQUESTs -/
  replied : List (ChanId × Bytes)

def ServerLog.empty : ServerLog := ⟨[], [], [], [], [], []⟩

/-- The tables, and the connections with what they are in the middle of. -/
structure Server (K : Type) where
  relay : RelayState
  verifyKeys : VerifyKeys K
  helloReplays : HelloReplays K
  pushTokens : PushTokenStore
  chains : ChainValidatorStore
  bundleRates : BundleReqRateStore
  chainSeedRate : ChainSeedRate K
  /-- `chain_seed_to_ids` of each connection -/
  chainSeedToIds : Dict ChanId (Finset PeerId)
  dedupes : SendDedupes K
  openings : List Opening
  arms : List (ChanId × Arm)
  /-- connections whose `read_loop` has returned an error -/
  failed : List (ChanId × String)
  log : ServerLog

/-- The clocks and the random bytes an arm may read, and whether the write of
the chain store goes through. -/
structure Reading (K : Type) where
  rand : Rand
  now : K
  nowUnix : UInt64
  /-- the hour at the check of a proof of work, and the one its bucket is counted under -/
  workHour : UInt64
  hour : UInt64
  persists : Bool

namespace Server

variable {K Pub : Type} (s : Server K)

/-! ## A connection's start (main.rs:1290–1363) -/

/-- The first frame, up to the end of `verify_hello_possession_proof`. -/
def firstFrame (env : ServerEnv Pub) (nowSecs : Nat) (now : K) : Bytes → Server K
  | [] => s
  | frameType :: body =>
    if frameType ≠ FRAME_TYPE_HELLO then s
    else match parseHello body with
      | .error _ => s
      | .ok h =>
        match verifyHelloPossessionProof env.keys h nowSecs now s.helloReplays with
        | .error _ => s
        | .ok helloReplays => { s with helloReplays, openings := s.openings ++ [.proven h] }

/-- The next lock region of an opening, and what is left of it. -/
def greet (now : K) : Opening → Server K × Option Opening
  | .proven h => ({ s with verifyKeys := s.verifyKeys.register now h }, some (.keyed h))
  | .keyed h =>
    ({ s with
        relay := s.relay.hello h.peerId
        log := { s.log with greeted := s.log.greeted ++ [(s.relay.nextChan, h)] } }, none)

/-! ## The arms of `read_loop` -/

/-- `return Err(..)`: nothing more is read from the connection. -/
def fail (ch : ChanId) (reason : String) : Server K :=
  { s with failed := s.failed ++ [(ch, reason)] }

/-- The arm goes on with `arm`. -/
def proceed (ch : ChanId) (arm : Arm) : Server K := { s with arms := s.arms ++ [(ch, arm)] }

/-- STATUS_REQUEST: the answer goes to the connection's own writer task. -/
def statusRequest (status : BuildStatus) (ch : ChanId) : Server K :=
  if ch ∈ s.relay.tables.closed then s
  else { s with log := { s.log with replied := s.log.replied ++ [(ch, status.encodeResponse)] } }

/-- COVER: of the right size, it is dropped. -/
def coverFrame (ch : ChanId) (body : Bytes) : Server K :=
  if body.length = COVER_PAYLOAD_LEN then s
  else s.fail ch (s!"COVER frame wrong size: expected {COVER_PAYLOAD_LEN} bytes payload, " ++
    s!"got {body.length}")

def registerPush (selfId : PeerId) (body : Bytes) (nowUnix : UInt64) : Server K :=
  match parseRegisterPush body with
  | .error _ => s
  | .ok token => { s with pushTokens := s.pushTokens.insert selfId token nowUnix }

def deregisterPush (selfId : PeerId) (body : Bytes) : Server K :=
  if !body.isEmpty then s else { s with pushTokens := (s.pushTokens.remove selfId).1 }

/-- REGISTER_CHAIN. The outcome is only logged. -/
def registerChain (env : ServerEnv Pub) (at' : Reading K) (selfId : PeerId) (ch : ChanId)
    (body : Bytes) : Server K :=
  match parseRegisterChain body selfId with
  | .error _ => s
  | .ok reg =>
    { s with
      chains := (perform env.chains env.maxAge at'.rand at'.nowUnix s.chains (.register reg)).1
      log := { s.log with registered := s.log.registered ++ [(ch, reg)] } }

/-- SEND and ACK, up to the token check. A token whose new cursor cannot be
written is refused; the cursor stays. -/
def sealedFrame (env : ServerEnv Pub) (at' : Reading K) (selfId : PeerId) (ch : ChanId)
    (frameType : UInt8) (body : Bytes) : Server K :=
  match parseSealed body with
  | .error _ => s
  | .ok parsed =>
    match checkDeliveryToken env.chains at'.rand at'.nowUnix s.chains parsed.toId parsed.token with
    | (chains, .error _) => { s with chains }
    | (chains, .ok _) =>
      if at'.persists then { s with chains }.proceed ch (.dedupe selfId frameType body parsed)
      else { s with chains }

/-- BUNDLE_REQUEST, up to the cap. -/
def bundleRequestFrame (env : ServerEnv Pub) (at' : Reading K) (selfId : PeerId) (ch : ChanId)
    (frameType : UInt8) (body : Bytes) : Server K :=
  let (verdict, bundleRates) :=
    bundleRequest (verifyHashcash env.blake3 at'.workHour) selfId body at'.hour s.bundleRates
  match verdict with
  | .passed toId => { s with bundleRates }.proceed ch (.exchange toId (frameType :: body))
  | _ => { s with bundleRates }

/-- BUNDLE_RESPONSE, up to the lookup. -/
def bundleResponseFrame (selfId : PeerId) (ch : ChanId) (frameType : UInt8) (body : Bytes) :
    Server K :=
  match parseRouted body with
  | .error _ => s
  | .ok parsed =>
    if parsed.fromId ≠ selfId then s
    else s.proceed ch (.exchange parsed.toId (frameType :: body))

section

variable [Ring K] [LinearOrder K]

/-- CHAIN_SEED_DELIVERY, up to the lookup. -/
def chainSeedFrame (now : K) (selfId : PeerId) (ch : ChanId) (frameType : UInt8) (body : Bytes) :
    Server K :=
  let toIds := (s.chainSeedToIds.lookup ch).getD ∅
  let (verdict, conn, chainSeedRate) := chainSeedDelivery now body ⟨selfId, toIds⟩ s.chainSeedRate
  let s' := { s with chainSeedRate, chainSeedToIds := s.chainSeedToIds.insert ch conn.toIds }
  match verdict with
  | .accepted toId =>
    s'.proceed ch (.deliver ⟨toId, .seed, MAX_PENDING_TTL.toUInt32, frameType :: body⟩)
  | _ => s'

/-- The first region of the arm of a frame. -/
def dispatch (env : ServerEnv Pub) (at' : Reading K) (selfId : PeerId) (ch : ChanId) :
    Bytes → Server K
  | [] => s.fail ch "empty frame"
  | frameType :: body =>
    if frameType = FRAME_TYPE_HELLO then s.fail ch "duplicate HELLO"
    else if frameType = FRAME_TYPE_STATUS_REQUEST then s.statusRequest env.status ch
    else if frameType = FRAME_TYPE_STATUS_RESPONSE then
      s.fail ch "STATUS_RESPONSE from client is not allowed"
    else if frameType = FRAME_TYPE_COVER then s.coverFrame ch body
    else if frameType = FRAME_TYPE_REGISTER_PUSH then s.registerPush selfId body at'.nowUnix
    else if frameType = FRAME_TYPE_REGISTER_CHAIN then s.registerChain env at' selfId ch body
    else if frameType = FRAME_TYPE_DEREGISTER_PUSH then s.deregisterPush selfId body
    else if frameType = FRAME_TYPE_SEND ∨ frameType = FRAME_TYPE_ACK then
      s.sealedFrame env at' selfId ch frameType body
    else if frameType = FRAME_TYPE_BUNDLE_REQUEST then
      s.bundleRequestFrame env at' selfId ch frameType body
    else if frameType = FRAME_TYPE_BUNDLE_RESPONSE then
      s.bundleResponseFrame selfId ch frameType body
    else if frameType = FRAME_TYPE_CHAIN_SEED_DELIVERY then
      s.chainSeedFrame at'.now selfId ch frameType body
    else s.fail ch s!"unknown frame type {frameType}"

/-- A frame read on the connection of `selfId` with channel `ch`. -/
def readFrame (env : ServerEnv Pub) (at' : Reading K) (selfId : PeerId) (ch : ChanId)
    (frame : Bytes) : Server K :=
  { s with log := { s.log with read := s.log.read ++ [(ch, frame)] } }.dispatch env at' selfId ch
    frame

end

/-- The next region of an arm, and what is left of it. `oldest` is the entry of
the dedupe table that goes if the table is full. -/
def execArm (env : ServerEnv Pub) (oldest : SendDedupeKey) (now : K) (ch : ChanId) :
    Arm → Server K × Option Arm
  | .dedupe selfId frameType body parsed =>
    let key := (selfId, env.blake3 (body.drop parsed.sealedOffset))
    match dedupeCheckAndInsert s.dedupes oldest key now with
    | (_, true) => (s, none)
    | (dedupes, false) =>
      ({ s with dedupes },
        some (.deliver ⟨parsed.toId, .authorized, parsed.ttlSeconds, frameType :: body⟩))
  | .deliver f =>
    let a := f.accept s.relay.nextTag
    ({ s with
        relay := s.relay.lookupAndSend a
        log := { s.log with routed := s.log.routed ++ [(ch, a)] } }, none)
  | .exchange toId frame =>
    match s.relay.tables.liveRoute toId with
    | none => (s, none)
    | some target =>
      ({ s with log := { s.log with exchanged := s.log.exchanged ++ [(ch, target, frame)] } }, none)

/-! ## A connection's end, and the collectors -/

/-- main.rs:1396–1405, and the drop of the connection's own set. -/
def disconnect (p : PeerId) (ch : ChanId) : Server K :=
  { s with
    relay := { s.relay with tables := s.relay.tables.disconnect p ch }
    chainSeedToIds := s.chainSeedToIds.erase ch }

/-- The tables that collectors run over. -/
inductive Gc (K : Type) where
  | verifyKeys (now : K)
  | helloReplays (now : K)
  | chainSeedRate (now : K)
  | dedupes (now : K)
  | pushTokens (nowUnix : UInt64)
  | chains (rand : Rand) (nowUnix : UInt64)
  | bundleRates (hour : UInt64)

/-- A collector's tick (main.rs:2256–2325, 2768–2845). -/
def collect [Ring K] [LinearOrder K] (env : ServerEnv Pub) : Gc K → Server K
  | .verifyKeys now =>
    let cutoff := instantCutoff now VERIFY_KEY_TTL
    { s with verifyKeys := s.verifyKeys.retain fun _ entry => decide (cutoff < entry.2) }
  | .helloReplays now =>
    { s with
      helloReplays := retainAfter (instantCutoff now HELLO_REPLAY_WINDOW) s.helloReplays }
  | .chainSeedRate now => { s with chainSeedRate := s.chainSeedRate.gc now }
  | .dedupes now =>
    { s with dedupes := retainAfter (instantCutoff now SEND_DEDUPE_WINDOW) s.dedupes }
  | .pushTokens nowUnix => { s with pushTokens := (s.pushTokens.gcExpired MAX_TOKEN_AGE nowUnix).1 }
  | .chains rand nowUnix =>
    { s with chains := (perform env.chains env.maxAge rand nowUnix s.chains .gcExpired).1 }
  | .bundleRates hour => { s with bundleRates := (s.bundleRates.gcStale hour).1 }

end Server

/-! ## Steps -/

inductive ServerEvent (K : Type) where
  | firstFrame (nowSecs : Nat) (now : K) (frame : Bytes)
  | greet (now : K)
  | read (ch : ChanId) (at' : Reading K) (frame : Bytes)
  | arm (ch : ChanId) (oldest : SendDedupeKey) (now : K)
  | relay (ev : RelayEvent)
  | disconnect (p : PeerId) (ch : ChanId)
  | collect (gc : Server.Gc K)

/-- The connection on `ch` is not in the middle of an arm. -/
def Server.Idle {K : Type} (s : Server K) (ch : ChanId) : Prop := ∀ arm, (ch, arm) ∉ s.arms

/-- One lock region of one connection, or a tick. -/
inductive ServerStep {K Pub : Type} [Ring K] [LinearOrder K] (env : ServerEnv Pub) :
    Server K → ServerEvent K → Server K → Prop where
  | firstFrame {s : Server K} {nowSecs : Nat} {now : K} {frame : Bytes} :
      ServerStep env s (.firstFrame nowSecs now frame) (s.firstFrame env nowSecs now frame)
  | greet {s : Server K} {pre post : List Opening} {o : Opening} {now : K}
      (hs : s.openings = pre ++ o :: post) :
      ServerStep env s (.greet now)
        { (s.greet now o).1 with openings := pre ++ (s.greet now o).2.toList ++ post }
  | read {s : Server K} {selfId : PeerId} {ch : ChanId} {at' : Reading K} {frame : Bytes}
      (hconn : (selfId, ch) ∈ s.relay.tables.conns) (hidle : s.Idle ch)
      (hopen : ∀ reason, (ch, reason) ∉ s.failed) :
      ServerStep env s (.read ch at' frame) (s.readFrame env at' selfId ch frame)
  | arm {s : Server K} {pre post : List (ChanId × Arm)} {ch : ChanId} {a : Arm}
      {oldest : SendDedupeKey} {now : K} (hs : s.arms = pre ++ (ch, a) :: post)
      (holdest : SEND_DEDUPE_MAX_ENTRIES ≤ s.dedupes.len → IsOldest s.dedupes oldest) :
      ServerStep env s (.arm ch oldest now)
        { (s.execArm env oldest now ch a).1 with
          arms := pre ++ ((s.execArm env oldest now ch a).2.map fun a' => (ch, a')).toList ++ post }
  | relay {s : Server K} {ev : RelayEvent} {relay' : RelayState} (hev : ev.Background)
      (hstep : RelayStep s.relay ev relay') :
      ServerStep env s (.relay ev) { s with relay := relay' }
  | disconnect {s : Server K} {p : PeerId} {ch : ChanId} (hconn : (p, ch) ∈ s.relay.tables.conns)
      (hidle : s.Idle ch) : ServerStep env s (.disconnect p ch) (s.disconnect p ch)
  | collect {s : Server K} {gc : Server.Gc K} :
      ServerStep env s (.collect gc) (s.collect env gc)

/-- A relay that has just started, with the frames and the chains it has loaded.
`prior` are the registrations of earlier processes. -/
structure Server.Started {K Pub : Type} (env : ServerEnv Pub) (prior : List ChainRegistration)
    (s : Server K) : Prop where
  relay : Relay.Started s.relay
  conns : s.relay.tables.conns = []
  chains : SoundMap env.chains prior s.chains.map
  openings : s.openings = []
  arms : s.arms = []
  log : s.log = ServerLog.empty

end Pizzini.Relay
