import Pizzini.Lib.Runs
import Pizzini.Relay.PendingStore

/-!
# Routing in `main.rs`: online routes, the offline queue, and reconnects

The relay's connection handlers share two locked tables: `routes`, from a peer
to the channel of its writer task, and the offline queue. Each handler is a
sequence of lock regions, and the regions of different handlers interleave
freely. This module models the regions as atomic steps:

- SEND, ACK and CHAIN_SEED_DELIVERY: look up the route and send; if that fails,
  enqueue, test `route_is_live`, and if it is live drain and forward
  (main.rs:1738–1784, 2010–2059);
- HELLO: install the route, drain, forward (main.rs:1347–1376);
- disconnect: remove the route if it is still this connection's (main.rs:1396–1405);
- at any time, a writer task exits and so closes its channel, and the
  collector drops expired frames.

`Tables` also keeps a ghost record of what happened to each accepted frame,
which the code does not have.
-/

namespace Pizzini.Relay

open Wire

/-! ## Accepted frames -/

/-- `PendingClass` (main.rs:2071–2075): SEND and ACK, or CHAIN_SEED_DELIVERY. -/
inductive PendingClass where
  | authorized
  | seed
  deriving DecidableEq, Repr

/-- A frame that has passed the checks of its handler. `tag` numbers the
acceptances, so that equal frames accepted twice are told apart. -/
structure Accepted where
  tag : Nat
  toId : PeerId
  pclass : PendingClass
  ttlSeconds : UInt32
  bytes : Bytes
  deriving DecidableEq, Repr

/-- `MAX_PENDING_TTL` in seconds (main.rs:466). -/
def MAX_PENDING_TTL : UInt64 := 604800

/-- `clamp_ttl` (main.rs:2127–2131). -/
def clampTtl (ttlSeconds : UInt32) : UInt64 :=
  min (max ttlSeconds.toUInt64 60) MAX_PENDING_TTL

/-- The time to live a frame is queued with: a seed has none of its own. -/
def Accepted.ttl (a : Accepted) : UInt32 :=
  match a.pclass with
  | .authorized => a.ttlSeconds
  | .seed => MAX_PENDING_TTL.toUInt32

/-- A queue entry, with the accepted frame it was made from. -/
structure QueuedFrame where
  origin : Accepted
  frame : PendingFrame
  deriving DecidableEq, Repr

instance : Queued QueuedFrame := ⟨QueuedFrame.frame⟩

/-- The entry `enqueue_pending` builds (main.rs:2091–2093). -/
def Accepted.entry (now : UInt64) (a : Accepted) : QueuedFrame :=
  ⟨a, PendingFrame.new a.bytes (now + clampTtl a.ttl)⟩

/-- The admission class picks the entry point of the store (main.rs:2095–2098). -/
def Accepted.enqueue (now : UInt64) (a : Accepted) (pending : PendingStore QueuedFrame) :
    PendingStore QueuedFrame × EnqueueOutcome :=
  match a.pclass with
  | .authorized => pending.enqueue a.toId (a.entry now)
  | .seed => pending.enqueueSeed a.toId (a.entry now)

/-! ## The shared tables -/

/-- A writer task's channel. -/
abbrev ChanId := Nat

/-- Ghost: where the accepted frames have gone so far. -/
structure History where
  /-- handed to a writer channel that was open -/
  handed : List (ChanId × Accepted)
  /-- `enqueue` returned `Stored` -/
  stored : List Accepted
  /-- popped to make room in a full queue -/
  evicted : List Accepted
  /-- found past its expiry and removed -/
  expired : List Accepted
  /-- drained, and then not forwarded: no route, or a closed channel -/
  dropped : List Accepted

def History.empty : History := ⟨[], [], [], [], []⟩

/-- The tables the handlers share. `closed` are the channels whose writer task
has exited, `conns` the connections that are in their read loop. -/
structure Tables where
  routes : Dict PeerId ChanId
  closed : List ChanId
  conns : List (PeerId × ChanId)
  pending : PendingStore QueuedFrame
  history : History

namespace Tables

/-- The channel of `p`'s route, if it is open. -/
def liveRoute (t : Tables) (p : PeerId) : Option ChanId :=
  (t.routes.lookup p).filter fun ch => decide (ch ∉ t.closed)

/-- `route_is_live` (main.rs:2165–2172). -/
def routeIsLive (t : Tables) (p : PeerId) : Bool := (t.liveRoute p).isSome

/-- Hand frames to a channel. -/
def hand (t : Tables) (ch : ChanId) (frames : List Accepted) : Tables :=
  { t with history := { t.history with
      handed := t.history.handed ++ frames.map fun a => (ch, a) } }

/-- Ghost: note frames that are neither queued nor handed on. -/
def drop (t : Tables) (frames : List Accepted) : Tables :=
  { t with history := { t.history with dropped := t.history.dropped ++ frames } }

/-- The lock region of `enqueue_pending` (main.rs:2077–2122). -/
def enqueuePending (t : Tables) (now : UInt64) (a : Accepted) : Tables :=
  let before := t.pending.queue a.toId
  let (pending, outcome) := a.enqueue now t.pending
  match outcome with
  | .rejectedGlobalCap => { t with pending }
  | .stored =>
    let gone := before.take (before.length + 1 - (pending.queue a.toId).length)
    { t with
      pending
      history := { t.history with
        stored := t.history.stored ++ [a]
        evicted := t.history.evicted ++ gone.map QueuedFrame.origin } }

/-- The first lock region of `drain_pending`: `PendingStore::drain`. -/
def drainQueue (t : Tables) (now : UInt64) (p : PeerId) : Tables × List QueuedFrame :=
  let (pending, batch) := t.pending.drain now p
  let gone := (t.pending.queue p).filter (Queued.isExpired now)
  ({ t with
      pending
      history := { t.history with expired := t.history.expired ++ gone.map QueuedFrame.origin } },
    batch)

/-- The second lock region of `drain_pending`: the forward loop. The writer
task may exit after `sends` frames; the loop then breaks. -/
def forward (t : Tables) (p : PeerId) (batch : List Accepted) (sends : Nat) : Tables :=
  match t.liveRoute p with
  | none => t.drop batch
  | some ch =>
    if batch.length ≤ sends then t.hand ch batch
    else { (t.hand ch (batch.take sends)).drop (batch.drop sends) with closed := ch :: t.closed }

/-- `PendingStore::gc_expired`, run by the collector. -/
def collect (t : Tables) (now : UInt64) : Tables :=
  let gone := t.pending.queues.entries.flatMap fun e => e.2.filter (Queued.isExpired now)
  { t with
    pending := (t.pending.gcExpired now).1
    history := { t.history with expired := t.history.expired ++ gone.map QueuedFrame.origin } }

/-- The route table after a connection has ended: its entry goes if it is
still its own (`same_channel`, main.rs:1396–1405). -/
def disconnect (t : Tables) (p : PeerId) (ch : ChanId) : Tables :=
  { t with
    routes := if t.routes.lookup p = some ch then t.routes.erase p else t.routes
    conns := t.conns.erase (p, ch) }

end Tables

/-! ## Handlers -/

/-- A handler between two of its lock regions. A drain is part of a HELLO, and
then knows its connection's channel, or follows an enqueue. -/
inductive Handler where
  /-- the recipient was not reachable; `enqueue_pending` is next -/
  | queueing (a : Accepted)
  /-- `route_is_live` is next -/
  | rechecking (p : PeerId)
  /-- `PendingStore::drain` is next -/
  | draining (p : PeerId) (conn : Option ChanId)
  /-- the forward loop is next -/
  | forwarding (p : PeerId) (conn : Option ChanId) (batch : List Accepted)

/-- The end of a drain: a HELLO's connection enters its read loop. -/
def Tables.finish (t : Tables) (p : PeerId) (conn : Option ChanId) : Tables :=
  { t with conns := t.conns ++ (conn.map fun ch => (p, ch)).toList }

/-- The next lock region of a handler, and what is left of it. -/
def Handler.exec (t : Tables) (now : UInt64) (sends : Nat) : Handler → Tables × Option Handler
  | .queueing a => (t.enqueuePending now a, some (.rechecking a.toId))
  | .rechecking p => (t, if t.routeIsLive p then some (.draining p none) else none)
  | .draining p conn =>
    let (t', batch) := t.drainQueue now p
    if batch.isEmpty then (t'.finish p conn, none)
    else (t', some (.forwarding p conn (batch.map QueuedFrame.origin)))
  | .forwarding p conn batch => ((t.forward p batch sends).finish p conn, none)

/-! ## The relay -/

/-- The tables, the handlers under way, and the next unused channel and tag. -/
structure RelayState where
  tables : Tables
  handlers : List Handler
  nextChan : ChanId
  nextTag : Nat

/-- What happens next. -/
inductive RelayEvent where
  | send (a : Accepted)
  | hello (p : PeerId)
  | exec (now : UInt64) (sends : Nat)
  | disconnect (p : PeerId) (ch : ChanId)
  | writerExit (ch : ChanId)
  | collect (now : UInt64)

/-- The first lock region of a SEND, ACK or CHAIN_SEED_DELIVERY handler: look
up the route and send, or go on to queue the frame. -/
def RelayState.lookupAndSend (s : RelayState) (a : Accepted) : RelayState :=
  match s.tables.liveRoute a.toId with
  | some ch => { s with tables := s.tables.hand ch [a], nextTag := s.nextTag + 1 }
  | none => { s with handlers := s.handlers ++ [.queueing a], nextTag := s.nextTag + 1 }

/-- The first lock region of a HELLO: install the route, over any older one. -/
def RelayState.hello (s : RelayState) (p : PeerId) : RelayState :=
  { s with
    tables := { s.tables with routes := s.tables.routes.insert p s.nextChan }
    handlers := s.handlers ++ [.draining p (some s.nextChan)]
    nextChan := s.nextChan + 1 }

/-- One lock region of one handler, a writer task's exit, or a collection. -/
inductive RelayStep : RelayState → RelayEvent → RelayState → Prop where
  | send {s : RelayState} {a : Accepted} (htag : a.tag = s.nextTag) :
      RelayStep s (.send a) (s.lookupAndSend a)
  | hello {s : RelayState} {p : PeerId} : RelayStep s (.hello p) (s.hello p)
  | exec {s : RelayState} {pre post : List Handler} {h : Handler} {now : UInt64} {sends : Nat}
      (hs : s.handlers = pre ++ h :: post) :
      RelayStep s (.exec now sends)
        { s with
          tables := (h.exec s.tables now sends).1
          handlers := pre ++ (h.exec s.tables now sends).2.toList ++ post }
  | disconnect {s : RelayState} {p : PeerId} {ch : ChanId} (hconn : (p, ch) ∈ s.tables.conns) :
      RelayStep s (.disconnect p ch) { s with tables := s.tables.disconnect p ch }
  | writerExit {s : RelayState} {ch : ChanId} (hch : ch < s.nextChan) :
      RelayStep s (.writerExit ch)
        { s with tables := { s.tables with closed := ch :: s.tables.closed } }
  | collect {s : RelayState} {now : UInt64} :
      RelayStep s (.collect now) { s with tables := s.tables.collect now }

/-- A relay that has just started, with frames it may have loaded: each one in
its recipient's queue, once. -/
structure Started (s : RelayState) : Prop where
  routes : s.tables.routes = ∅
  handlers : s.handlers = []
  history : s.tables.history = History.empty
  homed : ∀ p, ∀ f ∈ s.tables.pending.queue p, f.origin.toId = p ∧ f.origin.tag < s.nextTag
  once : ∀ p, ((s.tables.pending.queue p).map QueuedFrame.origin).Nodup

end Pizzini.Relay
